import PrimedSteam.Common.DirectIOFile
import PrimedSteam.Lib.While
import Mathlib.Algebra.BigOperators.Group.List.Basic
import Mathlib.Algebra.GroupWithZero.Nat

/-!
# Split WBFS files

`WbfsFileReader` reads a disc from up to ten files that follow each other. `CopyReader` makes another
reader of the same files.

* `construct`, `copyReader`, `read`: the reader. A member that has not been set is `none`, and so is
  the outcome of using it.
* `Ready`: what a reader that passed `ReadHeader` knows; `Ready.read_defined`: it reads what it is
  asked for or fails.
* **`copyReader_reads_iff`**: the copy reads the same, exactly if the files after the first are empty.
-/

set_option autoImplicit false

namespace WbfsBlob

open File While

def wiiSectorSize : ℕ := 0x8000

def wiiSectorCount : ℕ := 143432 * 2

def wiiDiscHeaderSize : ℕ := 256

/-- `WBFS` in little endian. -/
def wbfsMagic : ℕ := 0x53464257

/-- The value of a `u64` computation. -/
def u64 (x : ℕ) : ℕ := x % 2 ^ 64

/-- `1ull << shift`, which is undefined from 64 on. -/
def shiftOne (shift : ℕ) : Option ℕ := if shift < 64 then some (2 ^ shift) else none

structure FileEntry where
  file : DirectIOFile
  baseAddress : ℕ
  size : ℕ

end WbfsBlob

/-- The members that `Read` uses. -/
structure WbfsFileReader where
  files : List WbfsBlob.FileEntry
  size : ℕ
  wbfsSectorShift : Option ℕ
  hdSectorSize : Option ℕ
  wbfsSectorSize : Option ℕ
  blocksPerDisc : Option ℕ
  wlbaTable : List ℕ
  good : Bool

namespace WbfsFileReader

open WbfsBlob File While

/-- The members before the constructor's body. -/
def initial : WbfsFileReader := ⟨[], 0, none, none, none, none, [], false⟩

def getDataSize : ℕ := wiiSectorCount * wiiSectorSize

def addFileToList (r : WbfsFileReader) (file : DirectIOFile) : WbfsFileReader :=
  { r with
    files := r.files ++ [⟨file, r.size, file.content.length⟩]
    size := u64 (r.size + file.content.length) }

/-! ## Construction -/

/-- The loop of `OpenAdditionalFiles`: the last character of the path is the index of the file. -/
def openFrom (openFile : List Char → Option DirectIOFile) (path : List Char) :
    ℕ → WbfsFileReader → WbfsFileReader
  | 0, r => r
  | fuel + 1, r =>
    if 10 ≤ r.files.length then r
    else
      match openFile (path.dropLast ++ [Char.ofNat (48 + r.files.length)]) with
      | some file => openFrom openFile path fuel (r.addFileToList file)
      | none => r

def openAdditionalFiles (openFile : List Char → Option DirectIOFile) (path : List Char)
    (r : WbfsFileReader) : WbfsFileReader :=
  if path.length < 4 then r else openFrom openFile path 10 r

/-- A number in the header; bytes past the end of the file are not set. -/
def littleEndian (header : List Byte) (offset : ℕ) : Option ℕ := do
  let b₀ ← header[offset]?
  let b₁ ← header[offset + 1]?
  let b₂ ← header[offset + 2]?
  let b₃ ← header[offset + 3]?
  return b₀.toNat + b₁.toNat * 2 ^ 8 + b₂.toNat * 2 ^ 16 + b₃.toNat * 2 ^ 24

def bigEndian (header : List Byte) (offset : ℕ) : Option ℕ := do
  let b₀ ← header[offset]?
  let b₁ ← header[offset + 1]?
  let b₂ ← header[offset + 2]?
  let b₃ ← header[offset + 3]?
  return b₀.toNat * 2 ^ 24 + b₁.toNat * 2 ^ 16 + b₂.toNat * 2 ^ 8 + b₃.toNat

def readHeader (r : WbfsFileReader) : Option (WbfsFileReader × Bool) := do
  let first ← r.files.head?
  let header := first.file.offsetRead 0 512
  let r := { r with wbfsSectorShift := header[9]?.map BitVec.toNat }
  let magic ← littleEndian header 0
  if magic ≠ wbfsMagic then return (r, false)
  let hdSectorCount ← bigEndian header 4
  let hdSectorShift ← header[8]?
  let hdSectorSize ← shiftOne hdSectorShift.toNat
  let r := { r with hdSectorSize := some hdSectorSize }
  if r.size ≠ u64 (hdSectorCount * hdSectorSize) then return (r, false)
  let wbfsSectorShift ← header[9]?
  let wbfsSectorSize ← shiftOne wbfsSectorShift.toNat
  let r := { r with wbfsSectorSize := some wbfsSectorSize }
  if wbfsSectorSize < wiiSectorSize then return (r, false)
  let r :=
    { r with blocksPerDisc := some (u64 (getDataSize + wbfsSectorSize - 1) / wbfsSectorSize) }
  let discTable ← header[12]?
  return (r, discTable ≠ 0)

/-- The table of the disc in the first slot, which is zero past the end of the file. -/
def loadTable (r : WbfsFileReader) : Option WbfsFileReader := do
  let first ← r.files.head?
  let blocksPerDisc ← r.blocksPerDisc
  let hdSectorSize ← r.hdSectorSize
  let offset := hdSectorSize + wiiDiscHeaderSize
  -- a seek to a negative `s64` leaves the position behind the header
  let position :=
    if offset < 2 ^ 63 then offset else if 512 ≤ first.file.content.length then 512 else 0
  let bytes := first.file.offsetRead position (2 * blocksPerDisc)
  return { r with
    wlbaTable := (List.range blocksPerDisc).map fun i =>
      (bytes.getD (2 * i) 0).toNat * 2 ^ 8 + (bytes.getD (2 * i + 1) 0).toNat }

def construct (openFile : List Char → Option DirectIOFile) (file : DirectIOFile) (path : List Char) :
    Option WbfsFileReader := do
  let r := initial.addFileToList file
  let r := if path = [] then r else r.openAdditionalFiles openFile path
  let (r, success) ← r.readHeader
  if !success then return r
  loadTable { r with good := true }

def copyReader (openFile : List Char → Option DirectIOFile) (r : WbfsFileReader) :
    Option WbfsFileReader := do
  let first ← r.files.head?
  let retval ← construct openFile first.file []
  return (r.files.drop 1).foldl (fun retval entry => retval.addFileToList entry.file) retval

/-! ## Reading -/

variable (r : WbfsFileReader)

/-- The file with the byte of an offset, its position in that file, and how much can be read there. -/
def seekToCluster (offset : ℕ) : Option (DirectIOFile × ℕ × ℕ) := do
  let first ← r.files.head?
  let shift ← r.wbfsSectorShift
  let blocksPerDisc ← r.blocksPerDisc
  let baseCluster := offset >>> shift
  if baseCluster < blocksPerDisc then
    let wbfsSectorSize ← r.wbfsSectorSize
    let entry ← r.wlbaTable[baseCluster]?
    let clusterAddress := u64 (wbfsSectorSize * entry)
    let clusterOffset := offset &&& (wbfsSectorSize - 1)
    let finalAddress := u64 (clusterAddress + clusterOffset)
    match r.files.find? fun entry => finalAddress < u64 (entry.baseAddress + entry.size) with
    | some entry =>
      let position := u64 (finalAddress + (2 ^ 64 - entry.baseAddress))
      let tillEndOfFile := u64 (entry.size + (2 ^ 64 - position))
      let tillEndOfSector := u64 (wbfsSectorSize + (2 ^ 64 - clusterOffset))
      return (entry.file, position, min tillEndOfFile tillEndOfSector)
    | none => return (first.file, 0, 0)
  else return (first.file, 0, 0)

/-- The variables of the loop of `Read`, with the bytes read so far. -/
structure Reading where
  offset : ℕ
  nbytes : ℕ
  out : List Byte

inductive Stop where
  | failed (out : List Byte)
  | undefined

def readPart (s : Reading) : Except Stop Reading :=
  match r.seekToCluster s.offset with
  | none => .error .undefined
  | some (dataFile, position, available) =>
    if available = 0 then .error (.failed s.out)
    else
      let readSize := min available s.nbytes
      let data := dataFile.offsetRead position readSize
      if data.length = readSize then
        .ok ⟨u64 (s.offset + readSize), s.nbytes - readSize, s.out ++ data⟩
      else .error (.failed (s.out ++ data))

/-- The result of `Read` with the bytes that it has written. -/
inductive Outcome where
  | returned (result : Bool) (out : List Byte)
  | undefined
  deriving DecidableEq

def read (offset nbytes : ℕ) : Outcome :=
  if getDataSize < u64 (offset + nbytes) then .returned false []
  else
    match whileLoop (fun s : Reading => decide (s.nbytes ≠ 0)) r.readPart (nbytes + 1)
        ⟨offset, nbytes, []⟩ with
    | some (.ok s) => .returned true s.out
    | some (.error (.failed out)) => .returned false out
    | some (.error .undefined) => .undefined
    | none => .undefined

/-! ## The files of a reader -/

section Files

variable {r}

/-- The entries of files that start at an address, and the address after them. -/
def entriesFrom : ℕ → List DirectIOFile → List FileEntry
  | _, [] => []
  | base, file :: files =>
    ⟨file, base, file.content.length⟩ :: entriesFrom (u64 (base + file.content.length)) files

def endOf : ℕ → List DirectIOFile → ℕ
  | base, [] => base
  | base, file :: files => endOf (u64 (base + file.content.length)) files

theorem foldl_addFileToList (files : List DirectIOFile) : ∀ r : WbfsFileReader,
    files.foldl addFileToList r =
      { r with files := r.files ++ entriesFrom r.size files, size := endOf r.size files } := by
  induction files with
  | nil =>
    intro r
    simp only [List.foldl_nil, entriesFrom, endOf, List.append_nil]
  | cons file files ih =>
    intro r
    rw [List.foldl_cons, ih]
    simp only [addFileToList, entriesFrom, endOf, List.append_assoc, List.singleton_append]

theorem map_file_entriesFrom (base : ℕ) (files : List DirectIOFile) :
    (entriesFrom base files).map FileEntry.file = files := by
  induction files generalizing base with
  | nil => rfl
  | cons file files ih => exact congrArg (file :: ·) (ih _)

theorem endOf_mod (base : ℕ) (files : List DirectIOFile) :
    u64 (endOf base files) = u64 (base + ((entriesFrom base files).map FileEntry.size).sum) := by
  induction files generalizing base with
  | nil => rfl
  | cons file files ih =>
    rw [endOf, ih, entriesFrom, List.map_cons, List.sum_cons]
    dsimp only [u64]
    omega

theorem endOf_lt {base : ℕ} (hbase : base < 2 ^ 64) (files : List DirectIOFile) :
    endOf base files < 2 ^ 64 := by
  induction files generalizing base with
  | nil => exact hbase
  | cons file files ih => exact ih (Nat.mod_lt _ (by decide))

theorem openFrom_eq (openFile : List Char → Option DirectIOFile) (path : List Char) (fuel : ℕ) :
    ∀ r : WbfsFileReader, ∃ more, openFrom openFile path fuel r = List.foldl addFileToList r more := by
  induction fuel with
  | zero => exact fun r => ⟨[], rfl⟩
  | succ fuel ih =>
    intro r
    unfold openFrom
    split
    · exact ⟨[], rfl⟩
    · split
      · next file _ =>
        obtain ⟨more, hmore⟩ := ih (r.addFileToList file)
        exact ⟨file :: more, hmore⟩
      · exact ⟨[], rfl⟩

/-! ## Readers that differ in their files -/

theorem readHeader_withFiles {files : List FileEntry} (hhead : files.head? = r.files.head?) :
    readHeader { r with files := files } =
      (readHeader r).map fun result => ({ result.1 with files := files }, result.2) := by
  unfold readHeader
  dsimp only
  rw [hhead]
  cases r.files.head? with
  | none => rfl
  | some first =>
    dsimp only [Option.bind_eq_bind, Option.bind_some]
    cases littleEndian (first.file.offsetRead 0 512) 0 with
    | none => rfl
    | some magic =>
      dsimp only [Option.bind_some]
      split
      · rfl
      · cases bigEndian (first.file.offsetRead 0 512) 4 with
        | none => rfl
        | some hdSectorCount =>
          cases (first.file.offsetRead 0 512)[8]? with
          | none => rfl
          | some hdSectorShift =>
            dsimp only [Option.bind_some]
            cases shiftOne hdSectorShift.toNat with
            | none => rfl
            | some hdSectorSize =>
              dsimp only [Option.bind_some]
              split
              · rfl
              · cases (first.file.offsetRead 0 512)[9]? with
                | none => rfl
                | some wbfsSectorShift =>
                  dsimp only [Option.bind_some]
                  cases shiftOne wbfsSectorShift.toNat with
                  | none => rfl
                  | some wbfsSectorSize =>
                    dsimp only [Option.bind_some]
                    split
                    · rfl
                    · cases (first.file.offsetRead 0 512)[12]? with
                      | none => rfl
                      | some discTable => rfl

/-- What a header that is accepted has in it. -/
structure Accepted (r : WbfsFileReader) (first : FileEntry) (header : List Byte) where
  hdSectorCount : ℕ
  hdSectorShift : Byte
  hdSectorSize : ℕ
  wbfsSectorShift : Byte
  wbfsSectorSize : ℕ
  head : r.files.head? = some first
  header_eq : header = first.file.offsetRead 0 512
  magic : littleEndian header 0 = some wbfsMagic
  count : bigEndian header 4 = some hdSectorCount
  hdShift : header[8]? = some hdSectorShift
  hdSize : shiftOne hdSectorShift.toNat = some hdSectorSize
  size_eq : r.size = u64 (hdSectorCount * hdSectorSize)
  wbfsShift : header[9]? = some wbfsSectorShift
  wbfsSize : shiftOne wbfsSectorShift.toNat = some wbfsSectorSize

/-- The members that such a header sets. -/
def Accepted.members {first : FileEntry} {header : List Byte} (a : Accepted r first header) :
    WbfsFileReader :=
  { r with
    wbfsSectorShift := some a.wbfsSectorShift.toNat
    hdSectorSize := some a.hdSectorSize
    wbfsSectorSize := some a.wbfsSectorSize
    blocksPerDisc := some (u64 (getDataSize + a.wbfsSectorSize - 1) / a.wbfsSectorSize) }

theorem readHeader_accepted {r' : WbfsFileReader} (h : readHeader r = some (r', true)) :
    ∃ first header, ∃ a : Accepted r first header, r' = a.members := by
  unfold readHeader at h
  obtain ⟨first, hfirst, h⟩ := Option.bind_eq_some_iff.mp h
  obtain ⟨magic, hmagic, h⟩ := Option.bind_eq_some_iff.mp h
  split at h
  · cases h
  · next hnot =>
    rw [not_not.mp hnot] at hmagic
    obtain ⟨hdSectorCount, hcount, h⟩ := Option.bind_eq_some_iff.mp h
    obtain ⟨hdSectorShift, hhdShift, h⟩ := Option.bind_eq_some_iff.mp h
    obtain ⟨hdSectorSize, hhdSize, h⟩ := Option.bind_eq_some_iff.mp h
    dsimp only at h
    split at h
    · cases h
    · next hsize =>
      obtain ⟨wbfsSectorShift, hshift, h⟩ := Option.bind_eq_some_iff.mp h
      obtain ⟨wbfsSectorSize, hwbfsSize, h⟩ := Option.bind_eq_some_iff.mp h
      split at h
      · cases h
      · obtain ⟨discTable, -, h⟩ := Option.bind_eq_some_iff.mp h
        refine ⟨first, _, ⟨hdSectorCount, hdSectorShift, hdSectorSize, wbfsSectorShift, wbfsSectorSize,
          hfirst, rfl, hmagic, hcount, hhdShift, hhdSize, not_not.mp hsize, hshift, hwbfsSize⟩, ?_⟩
        have hmembers := congrArg Prod.fst (Option.some.inj h)
        dsimp only at hmembers
        rw [← hmembers, hshift]
        rfl

/-- With another size the same header is refused, before the number of blocks is set. -/
theorem readHeader_refused {first : FileEntry} {header : List Byte} (a : Accepted r first header)
    {r₀ : WbfsFileReader} (hhead : r₀.files.head? = some first) (hsize : r₀.size ≠ r.size) :
    ∃ t, readHeader r₀ = some (t, false) ∧ t.blocksPerDisc = r₀.blocksPerDisc := by
  have heq := a.header_eq
  subst heq
  have hne : r₀.size ≠ u64 (a.hdSectorCount * a.hdSectorSize) := a.size_eq ▸ hsize
  unfold readHeader
  dsimp only
  rw [hhead]
  dsimp only [Option.bind_eq_bind, Option.bind_some]
  rw [a.magic, Option.bind_some, if_neg (not_not.mpr rfl), a.count, Option.bind_some, a.hdShift,
    Option.bind_some, a.hdSize, Option.bind_some, if_pos hne]
  exact ⟨_, rfl, rfl⟩

theorem readHeader_good {r' : WbfsFileReader} {success : Bool}
    (h : readHeader r = some (r', success)) : r'.good = r.good := by
  unfold readHeader at h
  obtain ⟨first, -, h⟩ := Option.bind_eq_some_iff.mp h
  obtain ⟨magic, -, h⟩ := Option.bind_eq_some_iff.mp h
  split at h
  · cases h
    rfl
  · obtain ⟨hdSectorCount, -, h⟩ := Option.bind_eq_some_iff.mp h
    obtain ⟨hdSectorShift, -, h⟩ := Option.bind_eq_some_iff.mp h
    obtain ⟨hdSectorSize, -, h⟩ := Option.bind_eq_some_iff.mp h
    dsimp only at h
    split at h
    · cases h
      rfl
    · obtain ⟨wbfsSectorShift, -, h⟩ := Option.bind_eq_some_iff.mp h
      obtain ⟨wbfsSectorSize, -, h⟩ := Option.bind_eq_some_iff.mp h
      split at h
      · cases h
        rfl
      · obtain ⟨discTable, -, h⟩ := Option.bind_eq_some_iff.mp h
        exact (congrArg (fun result => result.1.good) (Option.some.inj h)).symm

theorem loadTable_withFiles {files : List FileEntry} (hhead : files.head? = r.files.head?) :
    loadTable { r with files := files } =
      (loadTable r).map fun result => { result with files := files } := by
  unfold loadTable
  dsimp only
  rw [hhead]
  cases r.files.head? with
  | none => rfl
  | some first =>
    cases r.blocksPerDisc with
    | none => rfl
    | some blocksPerDisc =>
      cases r.hdSectorSize with
      | none => rfl
      | some hdSectorSize => rfl

/-- The reader of some files before its header is read. -/
def ofFiles (file : DirectIOFile) (more : List DirectIOFile) : WbfsFileReader :=
  { initial with files := entriesFrom 0 (file :: more), size := endOf 0 (file :: more) }

theorem ofFiles_eq (file : DirectIOFile) (more : List DirectIOFile) :
    more.foldl addFileToList (initial.addFileToList file) = ofFiles file more := by
  rw [foldl_addFileToList]
  simp only [ofFiles, addFileToList, initial, entriesFrom, endOf, List.nil_append,
    List.singleton_append]

/-- **What a constructor that passed `ReadHeader` has done.** -/
theorem construct_good {openFile : List Char → Option DirectIOFile} {file : DirectIOFile}
    {path : List Char} (h : construct openFile file path = some r) (hgood : r.good = true) :
    ∃ more first header, ∃ a : Accepted (ofFiles file more) first header,
      readHeader (ofFiles file more) = some (a.members, true) ∧
        loadTable { a.members with good := true } = some r := by
  unfold construct at h
  obtain ⟨more, hmore⟩ : ∃ more, (if path = [] then initial.addFileToList file
      else (initial.addFileToList file).openAdditionalFiles openFile path) = ofFiles file more := by
    split
    · exact ⟨[], ofFiles_eq file []⟩
    · unfold openAdditionalFiles
      split
      · exact ⟨[], ofFiles_eq file []⟩
      · obtain ⟨more, hmore⟩ := openFrom_eq openFile path 10 (initial.addFileToList file)
        exact ⟨more, hmore.trans (ofFiles_eq file more)⟩
  dsimp only at h
  rw [hmore] at h
  obtain ⟨⟨r₁, success⟩, hheader, h⟩ := Option.bind_eq_some_iff.mp h
  cases success with
  | false =>
    cases h
    rw [readHeader_good hheader] at hgood
    exact absurd hgood Bool.false_ne_true
  | true =>
    obtain ⟨first, header, a, rfl⟩ := readHeader_accepted hheader
    exact ⟨more, first, header, a, hheader, h⟩

theorem loadTable_cases {r' : WbfsFileReader} (h : loadTable r = some r') :
    ∃ table : List ℕ, r.blocksPerDisc = some table.length ∧ r' = { r with wlbaTable := table } := by
  unfold loadTable at h
  obtain ⟨first, -, h⟩ := Option.bind_eq_some_iff.mp h
  obtain ⟨blocksPerDisc, hblocks, h⟩ := Option.bind_eq_some_iff.mp h
  obtain ⟨hdSectorSize, -, h⟩ := Option.bind_eq_some_iff.mp h
  exact ⟨_, by rw [hblocks, List.length_map, List.length_range], (Option.some.inj h).symm⟩

/-! ## The copy -/

section Copy

variable {openFile : List Char → Option DirectIOFile} {file : DirectIOFile}
  {more : List DirectIOFile} {first : FileEntry} {header : List Byte}

theorem foldl_entries (entries : List FileEntry) (r : WbfsFileReader) :
    entries.foldl (fun retval entry => retval.addFileToList entry.file) r =
      (entries.map FileEntry.file).foldl addFileToList r :=
  (List.foldl_map ..).symm

theorem construct_first (openFile : List Char → Option DirectIOFile) (file : DirectIOFile) :
    construct openFile file [] = (readHeader (ofFiles file [])).bind fun result =>
      if !result.2 then some result.1 else loadTable { result.1 with good := true } := by
  have hone : initial.addFileToList file = ofFiles file [] := ofFiles_eq file []
  unfold construct
  dsimp only
  rw [if_pos rfl, hone]
  rfl

theorem copyReader_eq (hfiles : r.files = entriesFrom 0 (file :: more)) :
    r.copyReader openFile =
      (construct openFile file []).map fun retval => more.foldl addFileToList retval := by
  unfold copyReader
  rw [hfiles]
  simp only [entriesFrom, List.head?_cons, List.drop_succ_cons, List.drop_zero, foldl_entries,
    map_file_entriesFrom, Option.bind_eq_bind, Option.bind_some]
  cases construct openFile file [] with
  | none => rfl
  | some retval => rfl

/-- If the files have the size of the first one, the header is accepted again, and the copy is the
reader. -/
theorem copyReader_same (a : Accepted (ofFiles file more) first header)
    (hheader : readHeader (ofFiles file more) = some (a.members, true))
    (hload : loadTable { a.members with good := true } = some r)
    (hsize : endOf 0 (file :: more) = endOf 0 [file]) : r.copyReader openFile = some r := by
  obtain ⟨table, -, hr⟩ := loadTable_cases hload
  have hfiles : r.files = entriesFrom 0 (file :: more) := by
    rw [hr]
    rfl
  have hrsize : r.size = endOf 0 [file] := by
    rw [hr, ← hsize]
    rfl
  have hone : ofFiles file [] = { ofFiles file more with files := entriesFrom 0 [file] } := by
    simp only [ofFiles, hsize]
  have hconstruct : construct openFile file [] = some { r with files := entriesFrom 0 [file] } := by
    have hsame : readHeader (ofFiles file []) =
        some ({ a.members with files := entriesFrom 0 [file] }, true) := by
      have hfirst := @readHeader_withFiles (ofFiles file more) (entriesFrom 0 [file]) rfl
      rw [hheader] at hfirst
      rw [hone]
      exact hfirst
    have hcopy := @loadTable_withFiles { a.members with good := true } (entriesFrom 0 [file]) rfl
    rw [hload] at hcopy
    rw [construct_first, hsame]
    exact hcopy
  rw [copyReader_eq hfiles, hconstruct, Option.map_some, foldl_addFileToList]
  congr 1
  dsimp only
  rw [hrsize]
  have hend : endOf (endOf 0 [file]) more = r.size := hsize.trans hrsize.symm
  have hentries : entriesFrom 0 [file] ++ entriesFrom (endOf 0 [file]) more = r.files := hfiles.symm
  rw [hend, hentries]

theorem copyReader_refused (a : Accepted (ofFiles file more) first header)
    (hload : loadTable { a.members with good := true } = some r)
    (hsize : endOf 0 (file :: more) ≠ endOf 0 [file]) :
    ∃ copy, r.copyReader openFile = some copy ∧ copy.blocksPerDisc = none := by
  obtain ⟨table, -, hr⟩ := loadTable_cases hload
  have hfiles : r.files = entriesFrom 0 (file :: more) := by
    rw [hr]
    rfl
  have hhead : (ofFiles file []).files.head? = some first := a.head
  obtain ⟨t, ht, hblocks⟩ := readHeader_refused a hhead hsize.symm
  refine ⟨more.foldl addFileToList t, ?_, ?_⟩
  · rw [copyReader_eq hfiles, construct_first, ht]
    rfl
  · rw [foldl_addFileToList]
    exact hblocks

end Copy

/-! ## Reads of a reader that is ready -/

/-- What a reader that passed `ReadHeader` knows. -/
structure Ready (r : WbfsFileReader) : Prop where
  files : ∃ file more, r.files = entriesFrom 0 (file :: more)
  sector : ∃ shift < 64, r.wbfsSectorShift = some shift ∧ r.wbfsSectorSize = some (2 ^ shift)
  blocks : r.blocksPerDisc = some r.wlbaTable.length

theorem construct_ready {openFile : List Char → Option DirectIOFile} {file : DirectIOFile}
    {path : List Char} (h : construct openFile file path = some r) (hgood : r.good = true) :
    Ready r := by
  obtain ⟨more, first, header, a, -, hload⟩ := construct_good h hgood
  obtain ⟨table, hblocks, rfl⟩ := loadTable_cases hload
  refine ⟨⟨file, more, rfl⟩, ⟨a.wbfsSectorShift.toNat, ?_⟩, hblocks⟩
  have hsize := a.wbfsSize
  unfold shiftOne at hsize
  split at hsize
  · next hlt => exact ⟨hlt, rfl, (congrArg some (Option.some.inj hsize)).symm⟩
  · cases hsize

theorem find_inside {address : ℕ} {e : FileEntry} (files : List DirectIOFile) : ∀ {base : ℕ},
    base ≤ address →
    (entriesFrom base files).find? (fun entry => address < u64 (entry.baseAddress + entry.size)) =
      some e →
    e.baseAddress ≤ address ∧ address < e.baseAddress + e.size ∧ e.size = e.file.content.length := by
  induction files with
  | nil => exact fun _ h => absurd h (by simp [entriesFrom])
  | cons file files ih =>
    intro base hbase h
    rw [entriesFrom, List.find?_cons] at h
    split at h
    · next hfound =>
      have hlt := of_decide_eq_true hfound
      cases h
      exact ⟨hbase, hlt.trans_le (Nat.mod_le _ _), rfl⟩
    · next hnot => exact ih (not_lt.mp (of_decide_eq_false hnot)) h

theorem Ready.seekToCluster_inside (h : Ready r) (offset : ℕ) : ∃ file position available,
    r.seekToCluster offset = some (file, position, available) ∧
      position + available ≤ file.content.length := by
  obtain ⟨file, more, hfiles⟩ := h.files
  obtain ⟨shift, hlt, hshift, hsectorSize⟩ := h.sector
  have hhead : r.files.head? = some ⟨file, 0, file.content.length⟩ := by rw [hfiles]; rfl
  unfold seekToCluster
  dsimp only [Option.bind_eq_bind]
  rw [hhead, hshift, hsectorSize, h.blocks]
  dsimp only [Option.bind_some]
  split
  · next hcluster =>
    rw [List.getElem?_eq_getElem hcluster]
    dsimp only [Option.bind_some]
    generalize hfinal : u64 (u64 (2 ^ shift * r.wlbaTable[offset >>> shift]) +
      (offset &&& 2 ^ shift - 1)) = finalAddress
    have hbound : finalAddress < 2 ^ 64 := hfinal ▸ Nat.mod_lt _ (by decide)
    split
    · next e hfound =>
      rw [hfiles] at hfound
      obtain ⟨hbase, hin, hsize⟩ := find_inside _ (Nat.zero_le _) hfound
      have hfit := e.file.size_lt
      refine ⟨e.file, _, _, rfl, ?_⟩
      have hposition : u64 (finalAddress + (2 ^ 64 - e.baseAddress)) = finalAddress - e.baseAddress := by
        unfold u64
        omega
      have hend : u64 (e.size + (2 ^ 64 - (finalAddress - e.baseAddress))) =
          e.size - (finalAddress - e.baseAddress) := by
        unfold u64
        omega
      rw [hposition, hend]
      omega
    · exact ⟨file, 0, 0, rfl, Nat.zero_le _⟩
  · exact ⟨file, 0, 0, rfl, Nat.zero_le _⟩

/-- **Every read ends**, with a result. -/
theorem Ready.read_defined (h : Ready r) (offset nbytes : ℕ) :
    r.read offset nbytes ≠ .undefined := by
  have hloop : ∃ result, whileLoop (fun s : Reading => decide (s.nbytes ≠ 0)) r.readPart (nbytes + 1)
      ⟨offset, nbytes, []⟩ = some result ∧ result ≠ .error .undefined := by
    refine whileLoop_total (I := fun _ => True)
      (R := fun _ (result : Except Stop Reading) => result ≠ .error .undefined)
      (fun s : Reading => s.nbytes) (fun s _ _ => by simp) (fun s _ hgo => ?_) trivial
      (Nat.lt_succ_self nbytes)
    obtain ⟨file, position, available, hseek, hinside⟩ := h.seekToCluster_inside s.offset
    unfold readPart
    rw [hseek]
    dsimp only
    split
    · exact Or.inr ⟨_, rfl, by simp⟩
    · next havailable =>
      have hlength : (file.offsetRead position (min available s.nbytes)).length =
          min available s.nbytes := by
        rw [DirectIOFile.offsetRead, List.length_take, List.length_drop]
        omega
      rw [if_pos hlength]
      have hne := of_decide_eq_true hgo
      exact Or.inl ⟨_, rfl, trivial, by dsimp only; omega, fun _ hresult => hresult⟩
  obtain ⟨result, hrun, hne⟩ := hloop
  unfold read
  split
  · exact Outcome.noConfusion
  · rw [hrun]
    cases result with
    | ok s => exact Outcome.noConfusion
    | error stop =>
      cases stop with
      | failed out => exact Outcome.noConfusion
      | undefined => exact absurd rfl hne

theorem read_undefined (h : r.blocksPerDisc = none) : r.read 0 1 = .undefined := by
  have hseek : r.seekToCluster 0 = none := by
    unfold seekToCluster
    rw [h]
    cases r.files.head? with
    | none => rfl
    | some first =>
      cases r.wbfsSectorShift with
      | none => rfl
      | some shift => rfl
  unfold read
  rw [if_neg (by decide), whileLoop, if_pos (by decide), readPart, hseek]

/-- **The copy of a reader** always exists. It reads the same as the reader, whatever is read, exactly
if the files after the first have no bytes. -/
theorem copyReader_reads_iff {openFile : List Char → Option DirectIOFile} {file : DirectIOFile}
    {path : List Char} (h : construct openFile file path = some r) (hgood : r.good = true) :
    ∃ copy, r.copyReader openFile = some copy ∧
      ((∀ offset nbytes, copy.read offset nbytes = r.read offset nbytes) ↔
        u64 ((r.files.drop 1).map FileEntry.size).sum = 0) := by
  obtain ⟨more, first, header, a, hheader, hload⟩ := construct_good h hgood
  obtain ⟨table, -, hr⟩ := loadTable_cases hload
  have hfiles : r.files = entriesFrom 0 (file :: more) := by
    rw [hr]
    rfl
  have hmore : r.files.drop 1 = entriesFrom (endOf 0 [file]) more := by
    rw [hfiles]
    rfl
  have hlt : endOf 0 [file] < 2 ^ 64 := endOf_lt (by decide) _
  have hend : endOf 0 (file :: more) < 2 ^ 64 := endOf_lt (by decide) _
  have hsum : u64 (endOf 0 (file :: more)) =
      u64 (endOf 0 [file] + ((entriesFrom (endOf 0 [file]) more).map FileEntry.size).sum) :=
    endOf_mod _ more
  have hcond : u64 ((r.files.drop 1).map FileEntry.size).sum = 0 ↔
      endOf 0 (file :: more) = endOf 0 [file] := by
    rw [hmore]
    unfold u64 at *
    omega
  rw [hcond]
  by_cases hsize : endOf 0 (file :: more) = endOf 0 [file]
  · exact ⟨r, copyReader_same a hheader hload hsize, iff_of_true (fun _ _ => rfl) hsize⟩
  · obtain ⟨copy, hcopy, hblocks⟩ : ∃ copy, r.copyReader openFile = some copy ∧
        copy.blocksPerDisc = none := copyReader_refused a hload hsize
    refine ⟨copy, hcopy, iff_of_false (fun hall => ?_) hsize⟩
    have hread := (hall 0 1).symm.trans (read_undefined hblocks)
    exact (construct_ready h hgood).read_defined 0 1 hread

end Files

/-! ## Two files of 512 bytes -/

/-- A file with a header for a number of sectors of 512 bytes, and clusters of 8 GiB. -/
def headerFile (hdSectorCount : Byte) : DirectIOFile where
  content := [0x57, 0x42, 0x46, 0x53, 0, 0, 0, hdSectorCount, 9, 33, 0, 0, 1] ++ List.replicate 499 0
  size_lt := by
    rw [List.length_append, List.length_replicate]
    change 13 + 499 < 2 ^ 63
    decide

def zeroFile : DirectIOFile where
  content := List.replicate 512 0
  size_lt := by
    rw [List.length_replicate]
    decide

/-- The file `game.wbf1`. -/
def openSecond (path : List Char) : Option DirectIOFile :=
  if path = "game.wbf1".toList then some zeroFile else none

def twoFiles : Option WbfsFileReader := construct openSecond (headerFile 2) "game.wbfs".toList

/-- The reader of two files reads their first byte; its copy does not know which blocks there are. -/
theorem twoFiles_copy_undefined :
    (twoFiles.map fun r => (r.good, r.files.length, r.read 0 1)) =
      some (true, 2, .returned true [0x57]) ∧
    ((twoFiles.bind (copyReader openSecond)).map fun copy => (copy.good, copy.read 0 1)) =
      some (false, .undefined) := by
  decide +kernel

theorem copyReader_reads_one_file : ∃ r copy, construct openSecond (headerFile 1) [] = some r ∧
    r.copyReader openSecond = some copy ∧
    ∀ offset nbytes, copy.read offset nbytes = r.read offset nbytes := by
  have hbuilt : (construct openSecond (headerFile 1) []).map (fun r =>
      (r.good, u64 ((r.files.drop 1).map FileEntry.size).sum)) = some (true, 0) := by
    decide +kernel
  obtain ⟨r, h, hr⟩ := Option.map_eq_some_iff.mp hbuilt
  obtain ⟨hgood, hsum⟩ := Prod.mk.inj hr
  obtain ⟨copy, hcopy, hreads⟩ := copyReader_reads_iff h hgood
  exact ⟨r, copy, h, hcopy, hreads.mpr hsum⟩

end WbfsFileReader
