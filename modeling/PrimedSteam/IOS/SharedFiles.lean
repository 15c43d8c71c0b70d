import Mathlib.Data.BitVec
import Mathlib.Data.List.FinRange
import Mathlib.Logic.Function.Basic

/-!
# Handles that share a file

`OpenFile`, `Close`, `ReadBytesFromFile`, `WriteBytesToFile` and `SeekFile` of the host file system: the
handles of a file share its contents, and each has an offset of its own. Reads and writes of the host itself succeed;
the `accessDenied` of `ReadBytesFromFile` and `WriteBytesToFile` for those that fail is left out.

* `step`: an operation, and the writes that have been made so far.
* `Invariant`: the offsets lie in the files, and a file holds the last byte written to each position.
* `Meets`, `Fits`: what an operation does in terms of numbers that do not wrap, and when.
* **`operations_meet_iff`**: in any run, an operation does so exactly if its sum does not wrap.
-/

set_option autoImplicit false

namespace IOS.FS.SharedFiles

abbrev Byte := BitVec 8

inductive ResultCode
  | invalid
  | accessDenied
  | notFound
  | noFreeHandle
  deriving DecidableEq

inductive Mode
  | none
  | read
  | write
  | readWrite
  deriving DecidableEq

/-- The value of the enumeration. -/
def Mode.bits : Mode → BitVec 8
  | none => 0
  | read => 1
  | write => 2
  | readWrite => 3

inductive SeekMode
  | set
  | current
  | fileEnd
  | unknown
  deriving DecidableEq

/-- What the operations ask the host. -/
structure Host (WiiPath Path : Type*) where
  buildFilename : WiiPath → Path
  isDirectory : Path → Bool
  isFile : Path → Bool
  /-- A file that is not open yet can be opened. -/
  canOpen : Path → Bool

structure Handle (Path : Type*) where
  mode : Mode
  hostFile : Path
  fileOffset : BitVec 32

/-- The contents of the files, and the handles that are open. -/
structure HostFileSystem (Path : Type*) where
  content : Path → List Byte
  handles : Fin 16 → Option (Handle Path)

inductive Operation (WiiPath : Type*)
  | openFile (path : WiiPath) (mode : Mode)
  | close (fd : ℕ)
  | read (fd : ℕ) (count : BitVec 32)
  | write (fd : ℕ) (data : ℕ → Byte) (count : BitVec 32)
  | seek (fd : ℕ) (offset : BitVec 32) (mode : SeekMode)

/-- Bytes that were written to a file from a position on. -/
structure WriteRecord (Path : Type*) where
  path : Path
  start : ℕ
  data : List Byte

/-- `fwrite` at a position: the file is filled with zeros up to there. -/
def writeAt (content : List Byte) (position : ℕ) (data : List Byte) : List Byte :=
  content.takeD position 0 ++ data ++ content.drop (position + data.length)

namespace HostFileSystem

variable {WiiPath Path : Type*} [DecidableEq Path] (fs : HostFileSystem Path)

def size (path : Path) : ℕ := (fs.content path).length

def getHandleFromFd (fd : ℕ) : Option (Handle Path) :=
  if h : fd < 16 then fs.handles ⟨fd, h⟩ else none

def setHandle (fd : ℕ) (handle : Option (Handle Path)) : HostFileSystem Path :=
  { fs with handles := fun i => if i.val = fd then handle else fs.handles i }

def setContent (path : Path) (content : List Byte) : HostFileSystem Path :=
  { fs with content := Function.update fs.content path content }

def assignFreeHandle : Option (Fin 16) :=
  (List.finRange 16).find? fun i => (fs.handles i).isNone

/-- `m_open_files` has the file. -/
def isShared (path : Path) : Bool :=
  (List.finRange 16).any fun i => (fs.handles i).any fun handle => handle.hostFile = path

def openFile (host : Host WiiPath Path) (path : WiiPath) (mode : Mode) :
    HostFileSystem Path × Except ResultCode (Fin 16) :=
  match fs.assignFreeHandle with
  | none => (fs, .error .noFreeHandle)
  | some fd =>
    let hostPath := host.buildFilename path
    if host.isDirectory hostPath then (fs, .error .invalid)
    else if !host.isFile hostPath then (fs, .error .notFound)
    else if !(fs.isShared hostPath || host.canOpen hostPath) then (fs, .error .accessDenied)
    else (fs.setHandle fd (some ⟨mode, hostPath, 0⟩), .ok fd)

def close (fd : ℕ) : HostFileSystem Path × Except ResultCode Unit :=
  match fs.getHandleFromFd fd with
  | none => (fs, .error .invalid)
  | some _ => (fs.setHandle fd none, .ok ())

def readBytesFromFile (fd : ℕ) (count : BitVec 32) : HostFileSystem Path × Except ResultCode (List Byte) :=
  match fs.getHandleFromFd fd with
  | none => (fs, .error .invalid)
  | some handle =>
    if handle.mode.bits &&& Mode.read.bits = 0 then (fs, .error .accessDenied)
    else
      let fileSize := BitVec.ofNat 32 (fs.size handle.hostFile)
      let count := if fileSize < count + handle.fileOffset then fileSize - handle.fileOffset else count
      let bytes := ((fs.content handle.hostFile).drop handle.fileOffset.toNat).take count.toNat
      (fs.setHandle fd (some { handle with
          fileOffset := handle.fileOffset + BitVec.ofNat 32 bytes.length }), .ok bytes)

def writeBytesToFile (fd : ℕ) (data : ℕ → Byte) (count : BitVec 32) :
    HostFileSystem Path × Except ResultCode (BitVec 32) :=
  match fs.getHandleFromFd fd with
  | none => (fs, .error .invalid)
  | some handle =>
    if handle.mode.bits &&& Mode.write.bits = 0 then (fs, .error .accessDenied)
    else
      let content := writeAt (fs.content handle.hostFile) handle.fileOffset.toNat
        ((List.range count.toNat).map data)
      ((fs.setContent handle.hostFile content).setHandle fd
        (some { handle with fileOffset := handle.fileOffset + count }), .ok count)

/-- `new_position` of `SeekFile` -/
def newPosition (handle : Handle Path) (offset : BitVec 32) : SeekMode → Option (BitVec 32)
  | .set => some offset
  | .current => some (handle.fileOffset + offset)
  | .fileEnd => some (BitVec.ofNat 32 (fs.size handle.hostFile + offset.toNat))
  | .unknown => none

def seekFile (fd : ℕ) (offset : BitVec 32) (mode : SeekMode) :
    HostFileSystem Path × Except ResultCode (BitVec 32) :=
  match fs.getHandleFromFd fd with
  | none => (fs, .error .invalid)
  | some handle =>
    match fs.newPosition handle offset mode with
    | none => (fs, .error .invalid)
    | some newPosition =>
      -- past the end of the file, other than in POSIX
      if fs.size handle.hostFile < newPosition.toNat then (fs, .error .invalid)
      else (fs.setHandle fd (some { handle with fileOffset := newPosition }), .ok newPosition)

end HostFileSystem

/-! ## Runs -/

section Runs

variable {WiiPath Path : Type*} [DecidableEq Path]

/-- The bytes that a write puts into the file of its handle. -/
def recordOf (fs : HostFileSystem Path) : Operation WiiPath → Option (WriteRecord Path)
  | .write fd data count =>
    match fs.getHandleFromFd fd, (fs.writeBytesToFile fd data count).2 with
    | some handle, .ok _ =>
      some ⟨handle.hostFile, handle.fileOffset.toNat, (List.range count.toNat).map data⟩
    | _, _ => none
  | _ => none

def apply (host : Host WiiPath Path) (fs : HostFileSystem Path) : Operation WiiPath → HostFileSystem Path
  | .openFile path mode => (fs.openFile host path mode).1
  | .close fd => (fs.close fd).1
  | .read fd count => (fs.readBytesFromFile fd count).1
  | .write fd data count => (fs.writeBytesToFile fd data count).1
  | .seek fd offset mode => (fs.seekFile fd offset mode).1

/-- An operation, with the writes so far, the last one first. -/
def step (host : Host WiiPath Path) (s : HostFileSystem Path × List (WriteRecord Path))
    (operation : Operation WiiPath) : HostFileSystem Path × List (WriteRecord Path) :=
  (apply host s.1 operation, (recordOf s.1 operation).toList ++ s.2)

/-- The operations one after another, from a state without open handles. -/
def run (host : Host WiiPath Path) (content : Path → List Byte) (operations : List (Operation WiiPath)) :
    HostFileSystem Path × List (WriteRecord Path) :=
  operations.foldl (step host) (⟨content, fun _ => none⟩, [])

/-- The byte that was written last to a position of a file, or the one it had at first. -/
def latest (content : Path → List Byte) : List (WriteRecord Path) → Path → ℕ → Option Byte
  | [], path, position => (content path)[position]?
  | record :: records, path, position =>
    if record.path = path ∧ record.start ≤ position ∧ position < record.start + record.data.length then
      record.data[position - record.start]?
    else latest content records path position

/-! ## What an operation does -/

/-- Where a seek goes, as a number. -/
def target (fs : HostFileSystem Path) (handle : Handle Path) (offset : BitVec 32) : SeekMode → Option ℕ
  | .set => some offset.toNat
  | .current => some (handle.fileOffset.toNat + offset.toNat)
  | .fileEnd => some (fs.size handle.hostFile + offset.toNat)
  | .unknown => none

/-- A read gives the last bytes that were written up to the end of the file, a write moves the offset by what
it writes, and a seek fails exactly outside the file, with the offset unchanged. -/
def Meets (content : Path → List Byte) (records : List (WriteRecord Path)) (fs : HostFileSystem Path) :
    Operation WiiPath → Prop
  | .read fd count => ∀ handle, fs.getHandleFromFd fd = some handle →
    handle.mode.bits &&& Mode.read.bits ≠ 0 →
    ∃ bytes, (fs.readBytesFromFile fd count).2 = .ok bytes ∧
      bytes.length = min count.toNat (fs.size handle.hostFile - handle.fileOffset.toNat) ∧
      ∀ i < bytes.length, bytes[i]? = latest content records handle.hostFile (handle.fileOffset.toNat + i)
  | .write fd data count => ∀ handle, fs.getHandleFromFd fd = some handle →
    handle.mode.bits &&& Mode.write.bits ≠ 0 →
    (fs.writeBytesToFile fd data count).2 = .ok count ∧
      ∃ handle', (fs.writeBytesToFile fd data count).1.getHandleFromFd fd = some handle' ∧
        handle'.fileOffset.toNat = handle.fileOffset.toNat + count.toNat
  | .seek fd offset mode => ∀ handle, fs.getHandleFromFd fd = some handle →
    ∀ t, target fs handle offset mode = some t →
      (t ≤ fs.size handle.hostFile ∧
        ∃ handle', (fs.seekFile fd offset mode).1.getHandleFromFd fd = some handle' ∧
          handle'.fileOffset.toNat = t ∧ (fs.seekFile fd offset mode).2 = .ok handle'.fileOffset) ∨
      (fs.size handle.hostFile < t ∧ fs.seekFile fd offset mode = (fs, .error .invalid))
  | _ => True

/-- The sums of an operation do not wrap, or it makes no difference. -/
def Fits (fs : HostFileSystem Path) : Operation WiiPath → Prop
  | .read fd count => ∀ handle, fs.getHandleFromFd fd = some handle →
    handle.mode.bits &&& Mode.read.bits ≠ 0 →
    fs.size handle.hostFile ≤ handle.fileOffset.toNat + count.toNat ∨
      (handle.fileOffset.toNat + count.toNat) % 2 ^ 32 ≤ fs.size handle.hostFile % 2 ^ 32
  | .write fd _ count => ∀ handle, fs.getHandleFromFd fd = some handle →
    handle.mode.bits &&& Mode.write.bits ≠ 0 → handle.fileOffset.toNat + count.toNat < 2 ^ 32
  | .seek fd offset mode => ∀ handle, fs.getHandleFromFd fd = some handle →
    ∀ t, target fs handle offset mode = some t → t < 2 ^ 32 ∨ fs.size handle.hostFile < t % 2 ^ 32
  | _ => True

/-- The offsets lie in the files, and a file holds the last byte written to each position. -/
structure Invariant (content : Path → List Byte) (s : HostFileSystem Path × List (WriteRecord Path)) : Prop where
  offset_le : ∀ fd handle, s.1.getHandleFromFd fd = some handle →
    handle.fileOffset.toNat ≤ s.1.size handle.hostFile
  content_eq : ∀ path position, (s.1.content path)[position]? = latest content s.2 path position

/-! ## Lemmas about operations -/

variable {fs : HostFileSystem Path} {fd fd' : ℕ} {handle : Handle Path} {count offset : BitVec 32}
  {data : ℕ → Byte} {content : Path → List Byte} {records : List (WriteRecord Path)}

open HostFileSystem

omit [DecidableEq Path] in
theorem fd_lt (h : fs.getHandleFromFd fd = some handle) : fd < 16 := by
  by_contra hge
  rw [getHandleFromFd, dif_neg hge] at h
  cases h

omit [DecidableEq Path] in
theorem getHandleFromFd_setHandle (h : Option (Handle Path)) (hfd : fd < 16) :
    (fs.setHandle fd h).getHandleFromFd fd = h := by
  rw [getHandleFromFd, dif_pos hfd]
  exact if_pos rfl

omit [DecidableEq Path] in
theorem getHandleFromFd_setHandle_of_ne (h : Option (Handle Path)) (hne : fd' ≠ fd) :
    (fs.setHandle fd h).getHandleFromFd fd' = fs.getHandleFromFd fd' := by
  rw [getHandleFromFd, getHandleFromFd]
  by_cases hfd : fd' < 16
  · rw [dif_pos hfd, dif_pos hfd]
    exact if_neg hne
  · rw [dif_neg hfd, dif_neg hfd]

omit [DecidableEq Path] in
/-- A handle is the one that has been set, or it was there before. -/
theorem getHandleFromFd_setHandle_cases {h : Option (Handle Path)}
    (hget : (fs.setHandle fd h).getHandleFromFd fd' = some handle) :
    h = some handle ∨ fs.getHandleFromFd fd' = some handle := by
  by_cases heq : fd' = fd
  · have hlt := fd_lt hget
    rw [heq] at hlt hget
    rw [getHandleFromFd_setHandle h hlt] at hget
    exact Or.inl hget
  · rw [getHandleFromFd_setHandle_of_ne h heq] at hget
    exact Or.inr hget

section Contents

variable {bytes written : List Byte} {position : ℕ}

theorem length_writeAt (h : position ≤ bytes.length) :
    (writeAt bytes position written).length = max bytes.length (position + written.length) := by
  rw [writeAt, List.takeD_eq_take _ h, List.length_append, List.length_append, List.length_take,
    List.length_drop]
  omega

theorem getElem?_writeAt (h : position ≤ bytes.length) (i : ℕ) :
    (writeAt bytes position written)[i]? =
      if position ≤ i ∧ i < position + written.length then written[i - position]? else bytes[i]? := by
  have htake : (bytes.take position).length = position := by rw [List.length_take, min_eq_left h]
  rw [writeAt, List.takeD_eq_take _ h]
  split_ifs with hin
  · rw [List.getElem?_append_left (by rw [List.length_append]; omega),
      List.getElem?_append_right (by omega), htake]
  · by_cases hlow : i < position
    · rw [List.getElem?_append_left (by rw [List.length_append]; omega),
        List.getElem?_append_left (by omega), List.getElem?_take_of_lt hlow]
    · rw [List.getElem?_append_right (by rw [List.length_append]; omega), List.length_append, htake,
        List.getElem?_drop]
      exact congrArg _ (by omega)

end Contents

omit [DecidableEq Path] in
theorem readBytesFromFile_eq (hget : fs.getHandleFromFd fd = some handle)
    (hmode : handle.mode.bits &&& Mode.read.bits ≠ 0) (hle : handle.fileOffset.toNat ≤ fs.size handle.hostFile) :
    ∃ bytes, fs.readBytesFromFile fd count = (fs.setHandle fd (some { handle with
        fileOffset := handle.fileOffset + BitVec.ofNat 32 bytes.length }), .ok bytes) ∧
      bytes.length = min (if fs.size handle.hostFile % 2 ^ 32 <
          (handle.fileOffset.toNat + count.toNat) % 2 ^ 32 then
        (fs.size handle.hostFile - handle.fileOffset.toNat) % 2 ^ 32 else count.toNat)
        (fs.size handle.hostFile - handle.fileOffset.toNat) ∧
      ∀ i < bytes.length, bytes[i]? = (fs.content handle.hostFile)[handle.fileOffset.toNat + i]? := by
  have hoff := handle.fileOffset.isLt
  obtain ⟨clipped, hclipped⟩ : ∃ clipped : BitVec 32, clipped =
      if BitVec.ofNat 32 (fs.size handle.hostFile) < count + handle.fileOffset then
        BitVec.ofNat 32 (fs.size handle.hostFile) - handle.fileOffset else count := ⟨_, rfl⟩
  have hcount : clipped.toNat = if fs.size handle.hostFile % 2 ^ 32 <
      (handle.fileOffset.toNat + count.toNat) % 2 ^ 32 then
        (fs.size handle.hostFile - handle.fileOffset.toNat) % 2 ^ 32 else count.toNat := by
    have hclips : BitVec.ofNat 32 (fs.size handle.hostFile) < count + handle.fileOffset ↔
        fs.size handle.hostFile % 2 ^ 32 < (handle.fileOffset.toNat + count.toNat) % 2 ^ 32 := by
      rw [BitVec.lt_def, BitVec.toNat_ofNat, BitVec.toNat_add, Nat.add_comm count.toNat]
    rw [hclipped]
    by_cases hclip : fs.size handle.hostFile % 2 ^ 32 < (handle.fileOffset.toNat + count.toNat) % 2 ^ 32
    · rw [if_pos (hclips.mpr hclip), if_pos hclip, BitVec.toNat_sub, BitVec.toNat_ofNat]
      omega
    · rw [if_neg (hclips.not.mpr hclip), if_neg hclip]
  refine ⟨((fs.content handle.hostFile).drop handle.fileOffset.toNat).take clipped.toNat, ?_, ?_, fun i hi => ?_⟩
  · rw [readBytesFromFile, hget]
    dsimp only
    rw [if_neg hmode, ← hclipped]
  · rw [List.length_take, List.length_drop, ← hcount]
    rfl
  · rw [List.length_take] at hi
    rw [List.getElem?_take_of_lt (hi.trans_le (min_le_left _ _)), List.getElem?_drop]

omit [DecidableEq Path] in
theorem seekFile_eq (hget : fs.getHandleFromFd fd = some handle) {mode : SeekMode} {t : ℕ}
    (htarget : target fs handle offset mode = some t) :
    fs.seekFile fd offset mode =
      if fs.size handle.hostFile < t % 2 ^ 32 then (fs, .error .invalid)
      else (fs.setHandle fd (some { handle with fileOffset := BitVec.ofNat 32 t }),
        .ok (BitVec.ofNat 32 t)) := by
  have hposition : fs.newPosition handle offset mode = some (BitVec.ofNat 32 t) := by
    cases mode with
    | set =>
      cases htarget
      rw [newPosition, BitVec.ofNat_toNat, BitVec.setWidth_eq]
    | current =>
      cases htarget
      rw [newPosition, BitVec.ofNat_add, BitVec.ofNat_toNat, BitVec.ofNat_toNat, BitVec.setWidth_eq,
        BitVec.setWidth_eq]
    | fileEnd =>
      cases htarget
      rfl
    | unknown => cases htarget
  rw [seekFile, hget]
  dsimp only
  rw [hposition]
  dsimp only
  rw [BitVec.toNat_ofNat]

theorem writeBytesToFile_eq (hget : fs.getHandleFromFd fd = some handle)
    (hmode : handle.mode.bits &&& Mode.write.bits ≠ 0) :
    fs.writeBytesToFile fd data count =
      ((fs.setContent handle.hostFile (writeAt (fs.content handle.hostFile) handle.fileOffset.toNat
          ((List.range count.toNat).map data))).setHandle fd
        (some { handle with fileOffset := handle.fileOffset + count }), .ok count) := by
  rw [writeBytesToFile, hget]
  exact if_neg hmode

/-! ## The invariant -/

theorem invariant_start (content : Path → List Byte) :
    Invariant content (⟨content, fun _ => none⟩, []) := by
  refine ⟨fun fd handle hget => ?_, fun path position => rfl⟩
  have hnone : (none : Option (Handle Path)) = some handle := by
    rw [getHandleFromFd, dif_pos (fd_lt hget)] at hget
    exact hget
  cases hnone

theorem Invariant.setHandle (h : Invariant content (fs, records)) {handle? : Option (Handle Path)}
    (hle : ∀ handle, handle? = some handle → handle.fileOffset.toNat ≤ fs.size handle.hostFile) :
    Invariant content (fs.setHandle fd handle?, records) := by
  refine ⟨fun fd' handle hget => ?_, h.content_eq⟩
  obtain heq | hold := getHandleFromFd_setHandle_cases hget
  · exact hle handle heq
  · exact h.offset_le fd' handle hold

theorem Invariant.write (h : Invariant content (fs, records)) (hget : fs.getHandleFromFd fd = some handle)
    (written : List Byte) (hcount : written.length = count.toNat) :
    Invariant content ((fs.setContent handle.hostFile (writeAt (fs.content handle.hostFile)
        handle.fileOffset.toNat written)).setHandle fd
          (some { handle with fileOffset := handle.fileOffset + count }),
      ⟨handle.hostFile, handle.fileOffset.toNat, written⟩ :: records) := by
  have hle : handle.fileOffset.toNat ≤ (fs.content handle.hostFile).length := h.offset_le fd handle hget
  have hlen := @length_writeAt (fs.content handle.hostFile) written handle.fileOffset.toNat hle
  have hgrows : ∀ path, fs.size path ≤ (Function.update fs.content handle.hostFile
      (writeAt (fs.content handle.hostFile) handle.fileOffset.toNat written) path).length := by
    intro path
    by_cases hpath : path = handle.hostFile
    · rw [hpath, Function.update_self, hlen]
      exact le_max_left _ _
    · rw [Function.update_of_ne hpath]
      exact le_rfl
  refine ⟨fun fd' handle' hget' => ?_, fun path position => ?_⟩
  · obtain heq | hold := getHandleFromFd_setHandle_cases hget'
    · cases heq
      have hsum : (handle.fileOffset + count).toNat ≤ handle.fileOffset.toNat + count.toNat := by
        rw [BitVec.toNat_add]
        exact Nat.mod_le _ _
      change (handle.fileOffset + count).toNat ≤ (Function.update fs.content handle.hostFile
        (writeAt (fs.content handle.hostFile) handle.fileOffset.toNat written) handle.hostFile).length
      rw [Function.update_self, hlen, hcount]
      exact hsum.trans (le_max_right _ _)
    · exact (h.offset_le fd' handle' hold).trans (hgrows handle'.hostFile)
  · change (Function.update fs.content handle.hostFile
      (writeAt (fs.content handle.hostFile) handle.fileOffset.toNat written) path)[position]? = _
    rw [latest]
    by_cases hpath : path = handle.hostFile
    · rw [hpath, Function.update_self, getElem?_writeAt hle, h.content_eq]
      by_cases hin : handle.fileOffset.toNat ≤ position ∧ position < handle.fileOffset.toNat + written.length
      · rw [if_pos hin, if_pos ⟨rfl, hin⟩]
      · rw [if_neg hin, if_neg fun h => hin h.2]
    · rw [Function.update_of_ne hpath, if_neg fun h => hpath h.1.symm]
      exact h.content_eq path position

theorem Invariant.openFile (h : Invariant content (fs, records)) (host : Host WiiPath Path) (path : WiiPath)
    (mode : Mode) : Invariant content ((fs.openFile host path mode).1, records) := by
  rw [HostFileSystem.openFile]
  cases fs.assignFreeHandle with
  | none => exact h
  | some fd =>
    dsimp only
    split_ifs
    · exact h
    · exact h
    · exact h
    · refine h.setHandle fun handle heq => ?_
      cases heq
      exact Nat.zero_le _

theorem Invariant.close (h : Invariant content (fs, records)) (fd : ℕ) :
    Invariant content ((fs.close fd).1, records) := by
  rw [HostFileSystem.close]
  cases fs.getHandleFromFd fd with
  | none => exact h
  | some handle => exact h.setHandle fun handle' heq => by cases heq

theorem Invariant.read (h : Invariant content (fs, records)) (fd : ℕ) (count : BitVec 32) :
    Invariant content ((fs.readBytesFromFile fd count).1, records) := by
  cases hget : fs.getHandleFromFd fd with
  | none =>
    rw [readBytesFromFile, hget]
    exact h
  | some handle =>
    by_cases hmode : handle.mode.bits &&& Mode.read.bits = 0
    · rw [readBytesFromFile, hget]
      dsimp only
      rw [if_pos hmode]
      exact h
    · have hle := h.offset_le fd handle hget
      obtain ⟨bytes, hread, hlen, -⟩ := @readBytesFromFile_eq Path fs fd handle count hget hmode hle
      rw [hread]
      refine h.setHandle fun handle' heq => ?_
      cases heq
      have hbytes : bytes.length ≤ fs.size handle.hostFile - handle.fileOffset.toNat :=
        hlen.le.trans (min_le_right _ _)
      dsimp only at hle ⊢
      rw [BitVec.toNat_add, BitVec.toNat_ofNat]
      omega

theorem Invariant.seek (h : Invariant content (fs, records)) (fd : ℕ) (offset : BitVec 32) (mode : SeekMode) :
    Invariant content ((fs.seekFile fd offset mode).1, records) := by
  rw [seekFile]
  cases fs.getHandleFromFd fd with
  | none => exact h
  | some handle =>
    dsimp only
    cases fs.newPosition handle offset mode with
    | none => exact h
    | some position =>
      dsimp only
      split_ifs with hpast
      · exact h
      · refine h.setHandle fun handle' heq => ?_
        cases heq
        exact not_lt.mp hpast

/-- **Every operation keeps the invariant.** -/
theorem Invariant.step (host : Host WiiPath Path) {s : HostFileSystem Path × List (WriteRecord Path)}
    (h : Invariant content s) (operation : Operation WiiPath) :
    Invariant content (step host s operation) := by
  obtain ⟨fs, records⟩ := s
  cases operation with
  | openFile path mode => exact h.openFile host path mode
  | close fd => exact h.close fd
  | read fd count => exact h.read fd count
  | seek fd offset mode => exact h.seek fd offset mode
  | write fd data count =>
    rw [SharedFiles.step, apply, recordOf]
    cases hget : fs.getHandleFromFd fd with
    | none =>
      rw [writeBytesToFile, hget]
      exact h
    | some handle =>
      by_cases hmode : handle.mode.bits &&& Mode.write.bits = 0
      · rw [writeBytesToFile, hget]
        dsimp only
        rw [if_pos hmode]
        exact h
      · rw [writeBytesToFile_eq hget hmode]
        exact h.write hget _ (by rw [List.length_map, List.length_range])

theorem invariant_run (host : Host WiiPath Path) (content : Path → List Byte)
    (operations : List (Operation WiiPath)) : Invariant content (run host content operations) := by
  have hfold : ∀ s, Invariant content s → Invariant content (operations.foldl (step host) s) := by
    induction operations with
    | nil => exact fun s h => h
    | cons operation operations ih => exact fun s h => ih _ (h.step host operation)
  exact hfold _ (invariant_start content)

/-! ## The operations -/

theorem read_meets_iff (h : Invariant content (fs, records)) (fd : ℕ) (count : BitVec 32) :
    Meets content records fs (.read fd count : Operation WiiPath) ↔
      Fits fs (.read fd count : Operation WiiPath) := by
  rw [Meets, Fits]
  refine forall_congr' fun handle => forall_congr' fun hget => forall_congr' fun hmode => ?_
  have hle := h.offset_le fd handle hget
  have hcount := count.isLt
  obtain ⟨bytes, hread, hlen, hbytes⟩ := @readBytesFromFile_eq Path fs fd handle count hget hmode hle
  have hlatest : ∀ i < bytes.length, bytes[i]? = latest content records handle.hostFile
      (handle.fileOffset.toNat + i) := fun i hi => (hbytes i hi).trans (h.content_eq _ _)
  have hexists : (∃ bytes', (fs.readBytesFromFile fd count).2 = .ok bytes' ∧
      bytes'.length = min count.toNat (fs.size handle.hostFile - handle.fileOffset.toNat) ∧
      ∀ i < bytes'.length, bytes'[i]? = latest content records handle.hostFile
        (handle.fileOffset.toNat + i)) ↔
      bytes.length = min count.toNat (fs.size handle.hostFile - handle.fileOffset.toNat) := by
    rw [hread]
    constructor
    · rintro ⟨bytes', heq, hlen', -⟩
      cases heq
      exact hlen'
    · exact fun hlen' => ⟨bytes, rfl, hlen', hlatest⟩
  rw [hexists, hlen]
  dsimp only at hle
  split_ifs with hclip
  · omega
  · omega

theorem write_meets_iff (fs : HostFileSystem Path) (fd : ℕ) (data : ℕ → Byte) (count : BitVec 32) :
    Meets content records fs (.write fd data count : Operation WiiPath) ↔
      Fits fs (.write fd data count : Operation WiiPath) := by
  rw [Meets, Fits]
  refine forall_congr' fun handle => forall_congr' fun hget => forall_congr' fun hmode => ?_
  have hoffset := (handle.fileOffset + count).isLt
  rw [writeBytesToFile_eq hget hmode, getHandleFromFd_setHandle _ (fd_lt hget)]
  constructor
  · rintro ⟨-, handle', heq, hsum⟩
    cases heq
    dsimp only at hsum
    omega
  · intro hlt
    refine ⟨rfl, _, rfl, ?_⟩
    dsimp only
    rw [BitVec.toNat_add, Nat.mod_eq_of_lt hlt]

theorem seek_meets_iff (fs : HostFileSystem Path) (fd : ℕ) (offset : BitVec 32) (mode : SeekMode) :
    Meets content records fs (.seek fd offset mode : Operation WiiPath) ↔
      Fits fs (.seek fd offset mode : Operation WiiPath) := by
  rw [Meets, Fits]
  refine forall_congr' fun handle => forall_congr' fun hget => forall_congr' fun t =>
    forall_congr' fun htarget => ?_
  rw [seekFile_eq hget htarget]
  by_cases hpast : fs.size handle.hostFile < t % 2 ^ 32
  · rw [if_pos hpast]
    have hlt : fs.size handle.hostFile < t := hpast.trans_le (Nat.mod_le _ _)
    exact ⟨fun _ => Or.inr hpast, fun _ => Or.inr ⟨hlt, rfl⟩⟩
  · rw [if_neg hpast, getHandleFromFd_setHandle _ (fd_lt hget)]
    constructor
    · rintro (⟨-, handle', heq, ht, -⟩ | ⟨-, heq⟩)
      · cases heq
        rw [← ht]
        exact Or.inl (BitVec.isLt _)
      · cases congrArg Prod.snd heq
    · rintro (hlt | hlt)
      · rw [Nat.mod_eq_of_lt hlt] at hpast
        refine Or.inl ⟨not_lt.mp hpast, _, rfl, ?_, rfl⟩
        exact Nat.mod_eq_of_lt hlt
      · exact absurd hlt hpast

/-- Where a seek goes if the offset has a sign. -/
def signedTarget (fs : HostFileSystem Path) (handle : Handle Path) (offset : BitVec 32) : SeekMode → Option ℤ
  | .set => some offset.toInt
  | .current => some (handle.fileOffset.toNat + offset.toInt)
  | .fileEnd => some (fs.size handle.hostFile + offset.toInt)
  | .unknown => none

omit [DecidableEq Path] in
/-- In a file of less than 2 GiB, a sum that wraps is that of a negative offset. -/
theorem seek_signed (hget : fs.getHandleFromFd fd = some handle) {mode : SeekMode} {t : ℤ}
    (hle : handle.fileOffset.toNat ≤ fs.size handle.hostFile) (hsize : fs.size handle.hostFile < 2 ^ 31)
    (htarget : signedTarget fs handle offset mode = some t) :
    (0 ≤ t ∧ t ≤ fs.size handle.hostFile ∧
      ∃ handle', (fs.seekFile fd offset mode).1.getHandleFromFd fd = some handle' ∧
        handle'.fileOffset.toNat = t) ∨
    ((t < 0 ∨ fs.size handle.hostFile < t) ∧ fs.seekFile fd offset mode = (fs, .error .invalid)) := by
  have hoffset := offset.isLt
  have hsigned := offset.toInt_eq_toNat_cond
  obtain ⟨u, hu, hmod⟩ : ∃ u, target fs handle offset mode = some u ∧
      (t = u ∧ u < 2 ^ 31 + 2 ^ 31 ∨ t = u - 2 ^ 32 ∧ 2 ^ 31 ≤ u ∧ u < 2 ^ 32 + 2 ^ 31) := by
    cases mode with
    | set =>
      cases htarget
      exact ⟨_, rfl, by omega⟩
    | current =>
      cases htarget
      exact ⟨_, rfl, by omega⟩
    | fileEnd =>
      cases htarget
      exact ⟨_, rfl, by omega⟩
    | unknown => cases htarget
  rw [seekFile_eq hget hu]
  by_cases hpast : fs.size handle.hostFile < u % 2 ^ 32
  · rw [if_pos hpast]
    exact Or.inr ⟨by omega, rfl⟩
  · rw [if_neg hpast, getHandleFromFd_setHandle _ (fd_lt hget)]
    refine Or.inl ⟨by omega, by omega, _, rfl, ?_⟩
    rw [BitVec.toNat_ofNat]
    omega

/-- **Operations on shared files.** In every state of every run, the offset of a handle lies in its file, and
an operation reads the last bytes written, moves the offset and fails as it does on numbers that do not wrap,
exactly if its own sum does not wrap into the file. -/
theorem operations_meet_iff (host : Host WiiPath Path) (content : Path → List Byte)
    (operations : List (Operation WiiPath)) :
    (∀ fd handle, (run host content operations).1.getHandleFromFd fd = some handle →
      handle.fileOffset.toNat ≤ (run host content operations).1.size handle.hostFile) ∧
    ∀ operation : Operation WiiPath,
      Meets content (run host content operations).2 (run host content operations).1 operation ↔
        Fits (run host content operations).1 operation := by
  have h := invariant_run host content operations
  refine ⟨h.offset_le, fun operation => ?_⟩
  cases operation with
  | openFile path mode => exact Iff.rfl
  | close fd => exact Iff.rfl
  | read fd count => exact read_meets_iff h fd count
  | write fd data count => exact write_meets_iff _ fd data count
  | seek fd offset mode => exact seek_meets_iff _ fd offset mode

/-! ## A seek that wraps -/

/-- There is one file, and it can be opened. -/
def oneFile : Host Unit Unit where
  buildFilename := id
  isDirectory _ := false
  isFile _ := true
  canOpen _ := true

/-- At offset 1 of two bytes, `4294967295` bytes onwards is back at the start. -/
theorem seek_wraps : ¬∀ (host : Host Unit Unit) (content : Unit → List Byte)
    (operations : List (Operation Unit)) (operation : Operation Unit),
    Meets content (run host content operations).2 (run host content operations).1 operation := by
  intro h
  have hmeets := h oneFile (fun _ => [7, 8]) [.openFile () .read, .read 0 1#32] (.seek 0 0xFFFFFFFF#32 .current)
  have hfits := (seek_meets_iff _ 0 0xFFFFFFFF#32 .current).mp hmeets ⟨.read, (), 1#32⟩ rfl _ rfl
  revert hfits
  decide

end Runs

end IOS.FS.SharedFiles
