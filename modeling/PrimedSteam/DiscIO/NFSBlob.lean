import PrimedSteam.Common.DirectIOFile
import PrimedSteam.Lib.Concatenation
import Mathlib.Algebra.BigOperators.Group.List.Basic
import Mathlib.Algebra.Order.BigOperators.Group.List

/-!
# NFS files

The blocks of a Wii disc that are present are stored one after another, behind a header of 0x200 bytes,
in files of equal size. The header names the ranges of logical blocks.

* `create`: the header, the files that are opened and the size that they must have.
* `toPhysicalBlockIndex`, `readEncryptedBlock`: from a logical block to the bytes in the files.
* `findBlock_spec`, `findBlock_injective`: the blocks that are present.
* **`blocks_read`**: every block that is present is read from the place that it has in the
  concatenation of the files.
-/

set_option autoImplicit false

/-- A range of logical blocks, in 32 bits. -/
structure NFSLBARange where
  startBlock : BitVec 32
  numBlocks : BitVec 32
  deriving DecidableEq

namespace NFSBlob

open File

def blockSize : ℕ := 0x8000

def maxFileSize : ℕ := 0xFA00000

/-- The size of `NFSHeader`. -/
def headerSize : ℕ := 0x200

/-- `EGGS` in little endian. -/
def nfsMagic : BitVec 32 := 0x53474745

/-- The value of a `u64` computation. -/
def u64 (x : ℕ) : ℕ := x % 2 ^ 64

def noBlock : ℕ := 2 ^ 64 - 1

/-! ## The header -/

def littleEndian (header : List Byte) (offset : ℕ) : BitVec 32 :=
  header.getD (offset + 3) 0 ++ header.getD (offset + 2) 0 ++ header.getD (offset + 1) 0 ++
    header.getD offset 0

/-- A field of the header with its bytes swapped. -/
def swapped (header : List Byte) (offset : ℕ) : BitVec 32 :=
  header.getD offset 0 ++ header.getD (offset + 1) 0 ++ header.getD (offset + 2) 0 ++
    header.getD (offset + 3) 0

def getLBARanges (header : List Byte) : List NFSLBARange :=
  let lbaRangeCount := min (swapped header 0x10).toNat 61
  (List.range lbaRangeCount).map fun i => ⟨swapped header (0x14 + i * 8), swapped header (0x18 + i * 8)⟩

/-- The sum of the block counts. -/
def totalBlocks (lbaRanges : List NFSLBARange) : ℕ :=
  (lbaRanges.map fun range => range.numBlocks.toNat).sum

def calculateExpectedRawSize (lbaRanges : List NFSLBARange) : ℕ :=
  u64 (headerSize + u64 (totalBlocks lbaRanges) * blockSize)

/-! ## The files -/

def alignDown (value size : ℕ) : ℕ := value - value % size

def alignUp (value size : ℕ) : ℕ := alignDown (u64 (value + (size - 1))) size

/-- The files from index `i` on, if all of them can be opened. -/
def openChildren (openChild : ℕ → Option DirectIOFile) : ℕ → ℕ → Option (List DirectIOFile)
  | 0, _ => some []
  | remaining + 1, i => do
    let child ← openChild i
    let children ← openChildren openChild remaining (i + 1)
    return child :: children

def openFiles (openChild : ℕ → Option DirectIOFile) (firstFile : DirectIOFile)
    (expectedRawSize : ℕ) : Option (List DirectIOFile × ℕ) := do
  let fileCount := alignUp expectedRawSize maxFileSize / maxFileSize
  let children ← openChildren openChild (fileCount - 1) 1
  let files := firstFile :: children
  let rawSize := u64 (files.map DirectIOFile.getSize).sum
  if rawSize < expectedRawSize then none else return (files, rawSize)

end NFSBlob

structure NFSFileReader where
  lbaRanges : List NFSLBARange
  files : List File.DirectIOFile
  rawSize : ℕ

namespace NFSFileReader

open NFSBlob File Concatenation

/-- `Create`, for the name of the first file, the key that has been read and the files
`hif_%06d.nfs` of the directory. -/
def create (fileName : List Char) (key : Option (List Byte)) (openChild : ℕ → Option DirectIOFile)
    (firstFile : DirectIOFile) : Option NFSFileReader := do
  if fileName ≠ "hif_000000.nfs".toList then none
  else
    let _ ← key
    let header := firstFile.offsetRead 0 headerSize
    if header.length ≠ headerSize ∨ littleEndian header 0 ≠ nfsMagic then none
    else
      let lbaRanges := getLBARanges header
      let (files, rawSize) ← openFiles openChild firstFile (calculateExpectedRawSize lbaRanges)
      return ⟨lbaRanges, files, rawSize⟩

/-! ## Blocks -/

/-- The loop of `ToPhysicalBlockIndex`. The end of a range is a sum of 32 bits. -/
def findBlock (logicalBlockIndex : ℕ) : List NFSLBARange → ℕ → ℕ
  | [], _ => noBlock
  | range :: ranges, physicalBlocksSoFar =>
    if range.startBlock.toNat ≤ logicalBlockIndex ∧
        logicalBlockIndex < (range.startBlock + range.numBlocks).toNat then
      u64 (physicalBlocksSoFar + (logicalBlockIndex - range.startBlock.toNat))
    else findBlock logicalBlockIndex ranges (u64 (physicalBlocksSoFar + range.numBlocks.toNat))

variable (r : NFSFileReader)

def toPhysicalBlockIndex (logicalBlockIndex : ℕ) : ℕ := findBlock logicalBlockIndex r.lbaRanges 0

/-- What comes of `ReadEncryptedBlock`; an index past the last file is undefined. -/
inductive Outcome where
  | undefined
  | failed
  | read (block : List Byte)
  deriving DecidableEq

def blocksPerFile : ℕ := maxFileSize / blockSize

/-- A read of some bytes of a file, which fails if the file ends. -/
def readPart (file : DirectIOFile) (offset size : ℕ) : Option (List Byte) :=
  let bytes := file.offsetRead offset size
  if bytes.length = size then some bytes else none

def readEncryptedBlock (physicalBlockIndex : ℕ) : Outcome :=
  let fileIndex := physicalBlockIndex / blocksPerFile
  let blockInFile := physicalBlockIndex % blocksPerFile
  let offsetInFile := headerSize + blockInFile * blockSize
  if blockInFile = blocksPerFile - 1 then
    -- the last 0x200 bytes of the last block are in the next file
    match r.files[fileIndex]?, r.files[fileIndex + 1]? with
    | some file₁, some file₂ =>
      match readPart file₁ offsetInFile (blockSize - headerSize), readPart file₂ 0 headerSize with
      | some part₁, some part₂ => .read (part₁ ++ part₂)
      | _, _ => .failed
    | _, _ => .undefined
  else
    match r.files[fileIndex]? with
    | some file =>
      match readPart file offsetInFile blockSize with
      | some block => .read block
      | none => .failed
    | none => .undefined

/-! ## The blocks that are present -/

section Ranges

theorem sub_start_lt {range : NFSLBARange} {logical : ℕ}
    (h : range.startBlock.toNat ≤ logical ∧
      logical < (range.startBlock + range.numBlocks).toNat) :
    logical - range.startBlock.toNat < range.numBlocks.toNat := by
  have hend : (range.startBlock + range.numBlocks).toNat ≤
      range.startBlock.toNat + range.numBlocks.toNat := by
    rw [BitVec.toNat_add]
    exact Nat.mod_le _ _
  omega

theorem totalBlocks_cons (range : NFSLBARange) (ranges : List NFSLBARange) :
    totalBlocks (range :: ranges) = range.numBlocks.toNat + totalBlocks ranges := rfl

/-- **A block that is present** has a place behind the blocks so far. -/
theorem findBlock_spec (logical : ℕ) (ranges : List NFSLBARange) : ∀ {soFar : ℕ},
    soFar + totalBlocks ranges < 2 ^ 64 → findBlock logical ranges soFar ≠ noBlock →
    soFar ≤ findBlock logical ranges soFar ∧
      findBlock logical ranges soFar < soFar + totalBlocks ranges := by
  induction ranges with
  | nil => exact fun _ h => absurd rfl h
  | cons range ranges ih =>
    intro soFar hlt h
    rw [totalBlocks_cons] at hlt ⊢
    unfold findBlock at h ⊢
    split
    · next hin =>
      have hsub := sub_start_lt hin
      unfold u64
      omega
    · next hout =>
      rw [if_neg hout] at h
      have hnext : u64 (soFar + range.numBlocks.toNat) = soFar + range.numBlocks.toNat :=
        Nat.mod_eq_of_lt (by omega)
      rw [hnext] at h ⊢
      obtain ⟨hlow, hhigh⟩ := ih (by omega) h
      omega

/-- **Distinct blocks** have distinct places. -/
theorem findBlock_injective {logical logical' : ℕ} (ranges : List NFSLBARange) : ∀ {soFar : ℕ},
    soFar + totalBlocks ranges < 2 ^ 64 → findBlock logical ranges soFar ≠ noBlock →
    findBlock logical ranges soFar = findBlock logical' ranges soFar → logical = logical' := by
  induction ranges with
  | nil => exact fun _ h => absurd rfl h
  | cons range ranges ih =>
    intro soFar hlt h heq
    rw [totalBlocks_cons] at hlt
    have hnext : u64 (soFar + range.numBlocks.toNat) = soFar + range.numBlocks.toNat :=
      Nat.mod_eq_of_lt (by omega)
    have hlater := fun l => @findBlock_spec l ranges (soFar + range.numBlocks.toNat) (by omega)
    unfold findBlock at h heq
    rw [hnext] at h heq
    by_cases hin : range.startBlock.toNat ≤ logical ∧
        logical < (range.startBlock + range.numBlocks).toNat
    · rw [if_pos hin] at h heq
      have hsub := sub_start_lt hin
      have hplace : u64 (soFar + (logical - range.startBlock.toNat)) =
          soFar + (logical - range.startBlock.toNat) := Nat.mod_eq_of_lt (by omega)
      rw [hplace] at h heq
      by_cases hin' : range.startBlock.toNat ≤ logical' ∧
          logical' < (range.startBlock + range.numBlocks).toNat
      · rw [if_pos hin'] at heq
        have hsub' := sub_start_lt hin'
        unfold u64 at heq
        omega
      · -- the other block is in a later range
        rw [if_neg hin'] at heq
        have hle := (hlater logical' (heq ▸ h)).1
        omega
    · rw [if_neg hin] at h heq
      by_cases hin' : range.startBlock.toNat ≤ logical' ∧
          logical' < (range.startBlock + range.numBlocks).toNat
      · rw [if_pos hin'] at heq
        have hsub' := sub_start_lt hin'
        have hle := (hlater logical h).1
        unfold u64 at heq
        omega
      · rw [if_neg hin'] at heq
        exact ih (by omega) h heq

theorem totalBlocks_le (ranges : List NFSLBARange) :
    totalBlocks ranges ≤ ranges.length * (2 ^ 32 - 1) := by
  induction ranges with
  | nil => exact Nat.zero_le _
  | cons range ranges ih =>
    have hlt := range.numBlocks.isLt
    rw [totalBlocks_cons, List.length_cons, Nat.succ_mul]
    omega

end Ranges

/-! ## The files that are opened -/

section Files

variable {openChild : ℕ → Option DirectIOFile} {firstFile : DirectIOFile}

theorem length_openChildren : ∀ {remaining i : ℕ} {children : List DirectIOFile},
    openChildren openChild remaining i = some children → children.length = remaining
  | 0, _, _, h => by
    cases h
    rfl
  | remaining + 1, i, children, h => by
    unfold openChildren at h
    obtain ⟨child, -, h⟩ := Option.bind_eq_some_iff.mp h
    obtain ⟨rest, hrest, h⟩ := Option.bind_eq_some_iff.mp h
    cases h
    rw [List.length_cons, length_openChildren hrest]

theorem openFiles_spec {expected rawSize : ℕ} {files : List DirectIOFile}
    (h : openFiles openChild firstFile expected = some (files, rawSize)) (hpos : 0 < expected)
    (hlt : expected < 2 ^ 63) : files.length = (expected + (maxFileSize - 1)) / maxFileSize ∧
      expected ≤ (files.map DirectIOFile.getSize).sum := by
  unfold openFiles at h
  obtain ⟨children, hchildren, h⟩ := Option.bind_eq_some_iff.mp h
  dsimp only at h
  split at h
  · cases h
  · next hsize =>
    cases h
    have hup : u64 (expected + (maxFileSize - 1)) = expected + (maxFileSize - 1) :=
      Nat.mod_eq_of_lt (by unfold maxFileSize; omega)
    have hcount : alignUp expected maxFileSize / maxFileSize =
        (expected + (maxFileSize - 1)) / maxFileSize := by
      unfold alignUp alignDown
      rw [hup]
      unfold maxFileSize
      omega
    rw [hcount] at hchildren
    constructor
    · rw [List.length_cons, length_openChildren hchildren]
      refine Nat.sub_add_cancel (Nat.div_pos ?_ (by decide))
      unfold maxFileSize
      omega
    · exact (not_lt.mp hsize).trans (Nat.mod_le _ _)

end Files

/-- What a reader that `Create` returns knows: its files are as many as the blocks take up, behind the
header, and long enough for them. -/
structure Created (r : NFSFileReader) : Prop where
  ranges_length : r.lbaRanges.length ≤ 61
  files_length : r.files.length =
    (headerSize + totalBlocks r.lbaRanges * blockSize + (maxFileSize - 1)) / maxFileSize
  le_size : headerSize + totalBlocks r.lbaRanges * blockSize ≤ (r.files.map DirectIOFile.getSize).sum

variable {r}

theorem totalBlocks_lt {ranges : List NFSLBARange} (h : ranges.length ≤ 61) :
    totalBlocks ranges < 2 ^ 38 :=
  calc totalBlocks ranges ≤ ranges.length * (2 ^ 32 - 1) := totalBlocks_le ranges
    _ ≤ 61 * (2 ^ 32 - 1) := Nat.mul_le_mul_right _ h
    _ < 2 ^ 38 := by decide

theorem create_created {fileName : List Char} {key : Option (List Byte)}
    {openChild : ℕ → Option DirectIOFile} {firstFile : DirectIOFile}
    (h : create fileName key openChild firstFile = some r) : Created r := by
  unfold create at h
  split at h
  · cases h
  · obtain ⟨_, -, h⟩ := Option.bind_eq_some_iff.mp h
    dsimp only at h
    split at h
    · cases h
    · obtain ⟨⟨files, rawSize⟩, hfiles, h⟩ := Option.bind_eq_some_iff.mp h
      cases h
      have hlength : (getLBARanges (firstFile.offsetRead 0 headerSize)).length ≤ 61 := by
        unfold getLBARanges
        rw [List.length_map, List.length_range]
        exact Nat.min_le_right _ _
      have htotal := totalBlocks_lt hlength
      generalize getLBARanges (firstFile.offsetRead 0 headerSize) = ranges at *
      have hexpected : calculateExpectedRawSize ranges =
          headerSize + totalBlocks ranges * blockSize := by
        unfold calculateExpectedRawSize u64 headerSize blockSize
        omega
      rw [hexpected] at hfiles
      obtain ⟨hcount, hsize⟩ := openFiles_spec hfiles (by unfold headerSize; omega)
        (by unfold headerSize blockSize; omega)
      exact ⟨hlength, hcount, hsize⟩

/-! ## Reads -/

/-- The files one after another. -/
def concatenation (files : List DirectIOFile) : List Byte :=
  (files.map DirectIOFile.content).flatten

/-- Every file but the last has the largest size. -/
def FullFiles (r : NFSFileReader) : Prop :=
  ∀ file ∈ r.files.dropLast, file.getSize = maxFileSize

theorem FullFiles.chunked (h : FullFiles r) :
    Chunked maxFileSize (r.files.map DirectIOFile.content) := by
  intro chunk hmem
  rw [← List.map_dropLast] at hmem
  obtain ⟨file, hfile, rfl⟩ := List.mem_map.mp hmem
  exact h file hfile

theorem length_concatenation (files : List DirectIOFile) :
    (concatenation files).length = (files.map DirectIOFile.getSize).sum := by
  rw [concatenation, List.length_flatten, List.map_map]
  rfl

theorem readPart_eq {file : DirectIOFile} {offset size : ℕ} (h : offset + size ≤ file.getSize) :
    readPart file offset size = some (slice file.content offset size) :=
  if_pos (DirectIOFile.length_offsetRead h)

/-- **A block with an index below the number of blocks** is read from the files that are open, from
its place in the concatenation. -/
theorem Created.readEncryptedBlock_eq (h : Created r) (hfull : FullFiles r) {p : ℕ}
    (hp : p < totalBlocks r.lbaRanges) : r.readEncryptedBlock p =
      .read (slice (concatenation r.files) (headerSize + p * blockSize) blockSize) := by
  have hchunked := hfull.chunked
  have hper : blocksPerFile = 8000 := by decide
  have hlength : headerSize + (p + 1) * blockSize ≤ (concatenation r.files).length := by
    rw [length_concatenation]
    refine le_trans ?_ h.le_size
    exact Nat.add_le_add_left (Nat.mul_le_mul_right _ hp) _
  have hplace : headerSize + p * blockSize =
      p / 8000 * maxFileSize + (headerSize + p % 8000 * blockSize) := by
    unfold headerSize blockSize maxFileSize
    omega
  -- the files up to the one with the end of the block
  have hopen : (headerSize + p * blockSize + (blockSize - 1)) / maxFileSize < r.files.length := by
    rw [h.files_length]
    unfold headerSize blockSize maxFileSize
    omega
  unfold readEncryptedBlock
  dsimp only
  rw [hper]
  split
  · next hlast =>
    have hsecond : p / 8000 + 1 < r.files.length := by
      refine lt_of_le_of_lt ?_ hopen
      unfold headerSize blockSize maxFileSize
      omega
    have hfirst : p / 8000 < r.files.length := Nat.lt_of_succ_lt hsecond
    rw [List.getElem?_eq_getElem hfirst, List.getElem?_eq_getElem hsecond]
    dsimp only
    have hat₁ : (r.files.map DirectIOFile.content)[p / 8000]? = some r.files[p / 8000].content := by
      rw [List.getElem?_map, List.getElem?_eq_getElem hfirst, Option.map_some]
    have hat₂ : (r.files.map DirectIOFile.content)[p / 8000 + 1]? =
        some r.files[p / 8000 + 1].content := by
      rw [List.getElem?_map, List.getElem?_eq_getElem hsecond, Option.map_some]
    have hsize₁ := hchunked.length_eq (by rwa [List.length_map]) hat₁
    have hsize₂ : headerSize ≤ r.files[p / 8000 + 1].content.length := by
      refine hchunked.le_length hat₂ (by decide) (le_trans ?_ hlength)
      unfold headerSize blockSize maxFileSize
      omega
    have hborder : headerSize + p % 8000 * blockSize + (blockSize - headerSize) = maxFileSize := by
      unfold headerSize blockSize maxFileSize
      omega
    rw [readPart_eq (by unfold DirectIOFile.getSize; omega),
      readPart_eq (by unfold DirectIOFile.getSize; omega), hplace]
    dsimp only
    rw [← hchunked.slice_flatten_straddle hat₁ hat₂ hborder hsize₂]
    rfl
  · next hnot =>
    have hin : p / 8000 < r.files.length := by
      refine lt_of_le_of_lt ?_ hopen
      unfold headerSize blockSize maxFileSize
      omega
    rw [List.getElem?_eq_getElem hin]
    dsimp only
    have hat : (r.files.map DirectIOFile.content)[p / 8000]? = some r.files[p / 8000].content := by
      rw [List.getElem?_map, List.getElem?_eq_getElem hin, Option.map_some]
    have hsize : headerSize + p % 8000 * blockSize + blockSize ≤ r.files[p / 8000].content.length := by
      refine hchunked.le_length hat ?_ (le_trans ?_ hlength)
      · unfold headerSize blockSize maxFileSize
        omega
      · unfold headerSize blockSize maxFileSize
        omega
    rw [readPart_eq hsize, hplace]
    dsimp only
    rw [← hchunked.slice_flatten hat hsize]
    rfl

/-- **The blocks of an NFS disc.** Take a reader that `Create` returns, and files that have the largest
size but for the last one. A block that is present has a place below the number of blocks, which no other
block has, and it is read, from the files that are open, from that place in their concatenation. -/
theorem blocks_read {fileName : List Char} {key : Option (List Byte)}
    {openChild : ℕ → Option DirectIOFile} {firstFile : DirectIOFile}
    (h : create fileName key openChild firstFile = some r) (hfull : FullFiles r) (logical : ℕ)
    (hpresent : r.toPhysicalBlockIndex logical ≠ noBlock) :
    r.toPhysicalBlockIndex logical < totalBlocks r.lbaRanges ∧
    (∀ logical', r.toPhysicalBlockIndex logical' = r.toPhysicalBlockIndex logical →
      logical' = logical) ∧
    headerSize + (r.toPhysicalBlockIndex logical + 1) * blockSize ≤ (concatenation r.files).length ∧
    r.readEncryptedBlock (r.toPhysicalBlockIndex logical) =
      .read (slice (concatenation r.files)
        (headerSize + r.toPhysicalBlockIndex logical * blockSize) blockSize) := by
  have hcreated := create_created h
  have htotal := totalBlocks_lt hcreated.ranges_length
  have hbound : 0 + totalBlocks r.lbaRanges < 2 ^ 64 := by omega
  have hlt : r.toPhysicalBlockIndex logical < totalBlocks r.lbaRanges :=
    (findBlock_spec logical r.lbaRanges hbound hpresent).2.trans_eq (Nat.zero_add _)
  refine ⟨hlt, fun logical' heq => ?_, ?_, hcreated.readEncryptedBlock_eq hfull hlt⟩
  · exact (findBlock_injective r.lbaRanges hbound hpresent heq.symm).symm
  · rw [length_concatenation]
    refine le_trans ?_ hcreated.le_size
    exact Nat.add_le_add_left (Nat.mul_le_mul_right _ hlt) _

/-! ## A disc in two files -/

/-- A header with the range of 8000 blocks from block 5 on. -/
def twoFilesHeader : List Byte :=
  [0x45, 0x47, 0x47, 0x53] ++ List.replicate 12 0 ++ [0, 0, 0, 1] ++ [0, 0, 0, 5] ++ [0, 0, 0x1F, 0x40] ++
    List.replicate 484 0

theorem length_twoFilesHeader : twoFilesHeader.length = headerSize := by decide +kernel

/-- The last block begins in the first file and ends in the second one. -/
def firstOfTwo : DirectIOFile where
  content := twoFilesHeader ++ List.replicate (maxFileSize - headerSize) 0x2A
  size_lt := by
    rw [List.length_append, List.length_replicate, length_twoFilesHeader]
    decide

def secondOfTwo : DirectIOFile where
  content := List.replicate headerSize 0x2B
  size_lt := by
    rw [List.length_replicate]
    decide

theorem getSize_firstOfTwo : firstOfTwo.getSize = maxFileSize := by
  unfold DirectIOFile.getSize firstOfTwo
  rw [List.length_append, List.length_replicate, length_twoFilesHeader]
  decide

theorem getSize_secondOfTwo : secondOfTwo.getSize = headerSize := by
  unfold DirectIOFile.getSize secondOfTwo
  rw [List.length_replicate]

theorem create_of_sizes {first second : DirectIOFile} (hheader : first.offsetRead 0 headerSize = twoFilesHeader)
    (hfirst : first.getSize = maxFileSize) (hsecond : second.getSize = headerSize) :
    create "hif_000000.nfs".toList (some []) (fun _ => some second) first =
      some ⟨[⟨5, 8000⟩], [first, second], 0xFA00200⟩ := by
  have hmagic : ¬ (twoFilesHeader.length ≠ headerSize ∨ littleEndian twoFilesHeader 0 ≠ nfsMagic) := by
    decide +kernel
  have hranges : getLBARanges twoFilesHeader = [⟨5, 8000⟩] := by decide +kernel
  have hexpected : calculateExpectedRawSize [⟨5, 8000⟩] = 0xFA00200 := by decide
  have hsize : ([first, second].map DirectIOFile.getSize).sum = 0xFA00200 := by
    rw [List.map_cons, List.map_singleton, List.sum_cons, List.sum_singleton, hfirst, hsecond]
    rfl
  have hfiles : openFiles (fun _ => some second) first 0xFA00200 = some ([first, second], 0xFA00200) := by
    have hcount : alignUp 0xFA00200 maxFileSize / maxFileSize - 1 = 1 := by decide
    unfold openFiles
    dsimp only
    rw [hcount]
    dsimp only [openChildren, Option.bind_eq_bind, Option.bind_some, pure]
    rw [hsize]
    rfl
  unfold create
  rw [if_neg (not_not.mpr rfl)]
  dsimp only [Option.bind_eq_bind, Option.bind_some]
  rw [hheader, if_neg hmagic, hranges, hexpected, hfiles]
  rfl

theorem offsetRead_firstOfTwo : firstOfTwo.offsetRead 0 headerSize = twoFilesHeader := by
  rw [DirectIOFile.offsetRead, List.drop_zero, firstOfTwo]
  exact List.take_left' length_twoFilesHeader

/-- The block that lies in both files. -/
theorem blocks_read_twoFiles :
    readEncryptedBlock ⟨[⟨5, 8000⟩], [firstOfTwo, secondOfTwo], 0xFA00200⟩ 7999 =
      .read (slice (concatenation [firstOfTwo, secondOfTwo]) (headerSize + 7999 * blockSize) blockSize) := by
  have hfull : FullFiles ⟨[⟨5, 8000⟩], [firstOfTwo, secondOfTwo], 0xFA00200⟩ := by
    intro file hmem
    obtain rfl := List.mem_singleton.mp hmem
    exact getSize_firstOfTwo
  have hpresent : toPhysicalBlockIndex ⟨[⟨5, 8000⟩], [firstOfTwo, secondOfTwo], 0xFA00200⟩ 8004 = 7999 := by
    unfold toPhysicalBlockIndex
    decide
  have hread := (blocks_read (create_of_sizes offsetRead_firstOfTwo getSize_firstOfTwo getSize_secondOfTwo)
    hfull 8004 (by rw [hpresent]; decide)).2.2.2
  rwa [hpresent] at hread

end NFSFileReader
