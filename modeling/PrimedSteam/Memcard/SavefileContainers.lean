import PrimedSteam.Memcard.SystemFiles
import Mathlib.Data.Fin.VecNotation
import Mathlib.Data.List.GetD
import Mathlib.Tactic.FinCases

/-!
# The containers of a savefile

`GCI`, `GCS` and `SAV` files: `writeSavefile` and `readSavefile`, which tells them apart by the size of
the file.

* `ofArray_toArray`: the bytes of a directory entry determine it.
* `byteswap_byteswap`: the swaps of a `SAV` header undo each other.
* **`savefile_round_trip`**: what is written in a format is read again.
-/

set_option autoImplicit false

namespace GCMemcard

open Memcard (Byte GCMBlock blockSize)

def dentrySize : ℕ := 0x40

/-! ## Arrays of bytes -/

section Arrays

variable {m n : ℕ}

/-- `memcpy` of an array to `offset`. -/
def patchAt (header : Fin n → Byte) (offset : ℕ) (bytes : Fin m → Byte) : Fin n → Byte := fun i =>
  if h : offset ≤ i ∧ i < offset + m then bytes ⟨i - offset, by omega⟩ else header i

/-- `memcpy` of `m` bytes from `offset`. -/
def sliceAt (header : Fin n → Byte) (offset m : ℕ) (h : offset + m ≤ n) : Fin m → Byte := fun i =>
  header ⟨offset + i, by omega⟩

variable (header : Fin n → Byte) {offset : ℕ}

theorem sliceAt_patchAt (bytes : Fin m → Byte) (h : offset + m ≤ n) :
    sliceAt (patchAt header offset bytes) offset m h = bytes := by
  funext i
  have hi : offset ≤ offset + i.val ∧ offset + i.val < offset + m := by omega
  rw [sliceAt, patchAt, dif_pos hi]
  exact congrArg bytes (Fin.ext (Nat.add_sub_cancel_left offset i))

theorem sliceAt_patchAt_of_le {k : ℕ} {offset' : ℕ} (bytes : Fin m → Byte) (h : offset' + k ≤ n)
    (hle : offset' + k ≤ offset) :
    sliceAt (patchAt header offset bytes) offset' k h = sliceAt header offset' k h := by
  funext i
  have hi : ¬(offset ≤ offset' + i.val ∧ offset' + i.val < offset + m) := by omega
  rw [sliceAt, patchAt, dif_neg hi, sliceAt]

end Arrays

/-! ## Directory entries as bytes -/

namespace DEntry

/-- The bytes behind the filename. -/
def bytesAfterFilename (e : DEntry) : List Byte :=
  bytes32 e.modificationTime ++ bytes32 e.imageOffset ++ bytes16 e.iconFormat ++
    bytes16 e.animationSpeed ++ [e.filePermissions, e.copyCounter] ++ bytes16 e.firstBlock ++
    bytes16 e.blockCount ++ bytes16 e.unused2 ++ bytes32 e.commentsAddress

def bytes (e : DEntry) : List Byte :=
  bytes32 e.gamecode ++ bytes16 e.makercode ++ [e.unused1, e.bannerAndIconFlags] ++
    (List.ofFn e.filename ++ e.bytesAfterFilename)

/-- The entry as an array of bytes. -/
def toArray (e : DEntry) : Fin dentrySize → Byte := fun i => e.bytes.getD i 0

/-- The field of two bytes at an offset. -/
def word (a : Fin dentrySize → Byte) (offset : ℕ) (h : offset + 1 < dentrySize) : Word :=
  a ⟨offset, by omega⟩ ++ a ⟨offset + 1, h⟩

def ofArray (a : Fin dentrySize → Byte) : DEntry where
  gamecode := word a 0x00 (by decide) ++ word a 0x02 (by decide)
  makercode := word a 0x04 (by decide)
  unused1 := a ⟨0x06, by decide⟩
  bannerAndIconFlags := a ⟨0x07, by decide⟩
  filename := fun i => a ⟨0x08 + i, by unfold dentrySize dentryStrlen at *; omega⟩
  modificationTime := word a 0x28 (by decide) ++ word a 0x2a (by decide)
  imageOffset := word a 0x2c (by decide) ++ word a 0x2e (by decide)
  iconFormat := word a 0x30 (by decide)
  animationSpeed := word a 0x32 (by decide)
  filePermissions := a ⟨0x34, by decide⟩
  copyCounter := a ⟨0x35, by decide⟩
  firstBlock := word a 0x36 (by decide)
  blockCount := word a 0x38 (by decide)
  unused2 := word a 0x3a (by decide)
  commentsAddress := word a 0x3c (by decide) ++ word a 0x3e (by decide)

theorem append_bytes16 (x : Word) : x.extractLsb' 8 8 ++ x.extractLsb' 0 8 = x :=
  BitVec.extractLsb'_append_extractLsb'

theorem append_words32 (x : BitVec 32) : x.extractLsb' 16 16 ++ x.extractLsb' 0 16 = x :=
  BitVec.extractLsb'_append_extractLsb'

theorem toArray_filename (e : DEntry) (i : Fin dentryStrlen) (h : 8 + i.val < dentrySize) :
    e.toArray ⟨8 + i, h⟩ = e.filename i := by
  have hlt : i.val < (List.ofFn e.filename).length := by rw [List.length_ofFn]; exact i.isLt
  rw [toArray, bytes, List.getD_append_right _ _ _ _ (Nat.le_add_right 8 i)]
  change (List.ofFn e.filename ++ e.bytesAfterFilename).getD (8 + i.val - 8) 0 = _
  rw [Nat.add_sub_cancel_left, List.getD_append _ _ _ _ hlt, List.getD_eq_getElem _ _ hlt, List.getElem_ofFn]

theorem toArray_after (e : DEntry) (k : ℕ) (h : 0x28 + k < dentrySize) :
    e.toArray ⟨0x28 + k, h⟩ = e.bytesAfterFilename.getD k 0 := by
  have hle : (List.ofFn e.filename).length ≤ 0x20 + k := by
    rw [List.length_ofFn]
    exact Nat.le_add_right 0x20 k
  have hpos : 0x28 + k - 8 = 0x20 + k := by omega
  rw [toArray, bytes, List.getD_append_right _ _ _ _ (by
    change 8 ≤ 0x28 + k
    omega)]
  change (List.ofFn e.filename ++ e.bytesAfterFilename).getD (0x28 + k - 8) 0 = _
  rw [hpos, List.getD_append_right _ _ _ _ hle, List.length_ofFn]
  exact congrArg (e.bytesAfterFilename.getD · 0) (Nat.add_sub_cancel_left 0x20 k)

theorem word_after (e : DEntry) (k : ℕ) (h : 0x28 + k + 1 < dentrySize) : word e.toArray (0x28 + k) h =
    e.bytesAfterFilename.getD k 0 ++ e.bytesAfterFilename.getD (k + 1) 0 := by
  rw [word, toArray_after]
  exact congrArg (e.bytesAfterFilename.getD k 0 ++ ·) (toArray_after e (k + 1) h)

theorem bytesAfterFilename_eq (e : DEntry) : e.bytesAfterFilename =
    [(e.modificationTime.extractLsb' 16 16).extractLsb' 8 8,
      (e.modificationTime.extractLsb' 16 16).extractLsb' 0 8,
      (e.modificationTime.extractLsb' 0 16).extractLsb' 8 8,
      (e.modificationTime.extractLsb' 0 16).extractLsb' 0 8,
      (e.imageOffset.extractLsb' 16 16).extractLsb' 8 8,
      (e.imageOffset.extractLsb' 16 16).extractLsb' 0 8, (e.imageOffset.extractLsb' 0 16).extractLsb' 8 8,
      (e.imageOffset.extractLsb' 0 16).extractLsb' 0 8, e.iconFormat.extractLsb' 8 8,
      e.iconFormat.extractLsb' 0 8, e.animationSpeed.extractLsb' 8 8, e.animationSpeed.extractLsb' 0 8,
      e.filePermissions, e.copyCounter, e.firstBlock.extractLsb' 8 8, e.firstBlock.extractLsb' 0 8,
      e.blockCount.extractLsb' 8 8, e.blockCount.extractLsb' 0 8, e.unused2.extractLsb' 8 8,
      e.unused2.extractLsb' 0 8, (e.commentsAddress.extractLsb' 16 16).extractLsb' 8 8,
      (e.commentsAddress.extractLsb' 16 16).extractLsb' 0 8,
      (e.commentsAddress.extractLsb' 0 16).extractLsb' 8 8,
      (e.commentsAddress.extractLsb' 0 16).extractLsb' 0 8] := rfl

/-- The two bytes of a word behind the filename. -/
theorem word_after_eq (e : DEntry) (k : ℕ) (h : 0x28 + k + 1 < dentrySize) (x : Word)
    (hbytes : e.bytesAfterFilename.getD k 0 = x.extractLsb' 8 8 ∧
      e.bytesAfterFilename.getD (k + 1) 0 = x.extractLsb' 0 8) : word e.toArray (0x28 + k) h = x := by
  rw [word_after, hbytes.1, hbytes.2, append_bytes16]

/-- **The bytes of an entry determine it.** -/
theorem ofArray_toArray (e : DEntry) : ofArray e.toArray = e := by
  have hgamecode : word e.toArray 0x00 (by decide) ++ word e.toArray 0x02 (by decide) = e.gamecode :=
    (congrArg₂ (· ++ ·) (append_bytes16 _) (append_bytes16 _)).trans (append_words32 e.gamecode)
  have hmakercode : word e.toArray 0x04 (by decide) = e.makercode := append_bytes16 e.makercode
  have hfilename : (fun i : Fin dentryStrlen => e.toArray ⟨0x08 + i, by
      unfold dentrySize dentryStrlen at *; omega⟩) = e.filename := by
    funext i
    exact toArray_filename e i _
  have htime : word e.toArray 0x28 (by decide) ++ word e.toArray 0x2a (by decide) = e.modificationTime :=
    (congrArg₂ (· ++ ·) (word_after_eq e 0 (by decide) _ (by simp [bytesAfterFilename_eq]))
      (word_after_eq e 2 (by decide) _ (by simp [bytesAfterFilename_eq]))).trans
      (append_words32 e.modificationTime)
  have himage : word e.toArray 0x2c (by decide) ++ word e.toArray 0x2e (by decide) = e.imageOffset :=
    (congrArg₂ (· ++ ·) (word_after_eq e 4 (by decide) _ (by simp [bytesAfterFilename_eq]))
      (word_after_eq e 6 (by decide) _ (by simp [bytesAfterFilename_eq]))).trans
      (append_words32 e.imageOffset)
  have hicon : word e.toArray 0x30 (by decide) = e.iconFormat :=
    word_after_eq e 8 (by decide) _ (by simp [bytesAfterFilename_eq])
  have hspeed : word e.toArray 0x32 (by decide) = e.animationSpeed :=
    word_after_eq e 10 (by decide) _ (by simp [bytesAfterFilename_eq])
  have hpermissions : e.toArray ⟨0x34, by decide⟩ = e.filePermissions :=
    (toArray_after e 12 (by decide)).trans (by simp [bytesAfterFilename_eq])
  have hcounter : e.toArray ⟨0x35, by decide⟩ = e.copyCounter :=
    (toArray_after e 13 (by decide)).trans (by simp [bytesAfterFilename_eq])
  have hfirst : word e.toArray 0x36 (by decide) = e.firstBlock :=
    word_after_eq e 14 (by decide) _ (by simp [bytesAfterFilename_eq])
  have hcount : word e.toArray 0x38 (by decide) = e.blockCount :=
    word_after_eq e 16 (by decide) _ (by simp [bytesAfterFilename_eq])
  have hunused : word e.toArray 0x3a (by decide) = e.unused2 :=
    word_after_eq e 18 (by decide) _ (by simp [bytesAfterFilename_eq])
  have hcomments : word e.toArray 0x3c (by decide) ++ word e.toArray 0x3e (by decide) = e.commentsAddress :=
    (congrArg₂ (· ++ ·) (word_after_eq e 20 (by decide) _ (by simp [bytesAfterFilename_eq]))
      (word_after_eq e 22 (by decide) _ (by simp [bytesAfterFilename_eq]))).trans
      (append_words32 e.commentsAddress)
  have hunused1 : e.toArray ⟨0x06, by decide⟩ = e.unused1 := rfl
  have hflags : e.toArray ⟨0x07, by decide⟩ = e.bannerAndIconFlags := rfl
  simp only [ofArray, hgamecode, hmakercode, hunused1, hflags, hfilename, htime, himage, hicon,
    hspeed, hpermissions, hcounter, hfirst, hcount, hunused, hcomments]

end DEntry

/-! ## Headers -/

def savMagic : Fin 12 → Byte := ![0x44, 0x41, 0x54, 0x45, 0x4C, 0x47, 0x43, 0x5F, 0x53, 0x41, 0x56, 0x45]

def savHeaderSize : ℕ := 0xC0

def savDentryOffset : ℕ := 0x80

def gcsMagic : Fin 6 → Byte := ![0x47, 0x43, 0x53, 0x41, 0x56, 0x45]

def gcsHeaderSize : ℕ := 0x150

def gcsDentryOffset : ℕ := 0x110

/-- `std::swap` of the bytes `p` and `p + 1`. -/
def swapBytes (entry : Fin dentrySize → Byte) (p : Fin 0x3f) : Fin dentrySize → Byte := fun i =>
  if i.val = p then entry ⟨p + 1, by unfold dentrySize; omega⟩
  else if i.val = p + 1 then entry ⟨p, by unfold dentrySize; omega⟩
  else entry i

/-- `ByteswapDEntrySavHeader` -/
def byteswapDEntrySavHeader (entry : Fin dentrySize → Byte) : Fin dentrySize → Byte :=
  [0x06, 0x2C, 0x2E, 0x30, 0x32, 0x34, 0x36, 0x38, 0x3A, 0x3C, 0x3E].foldl swapBytes entry

/-- The pairs of bytes are apart. -/
theorem byteswap_byteswap (entry : Fin dentrySize → Byte) :
    byteswapDEntrySavHeader (byteswapDEntrySavHeader entry) = entry := by
  funext i
  fin_cases i <;> rfl

/-- `ExtractDEntryFromSavHeader` -/
def extractDEntryFromSavHeader (savHeader : Fin savHeaderSize → Byte) : DEntry :=
  DEntry.ofArray (byteswapDEntrySavHeader (sliceAt savHeader savDentryOffset dentrySize (by decide)))

/-- `InjectDEntryToSavHeader` -/
def injectDEntryToSavHeader (savHeader : Fin savHeaderSize → Byte) (dirEntry : DEntry) :
    Fin savHeaderSize → Byte :=
  patchAt savHeader savDentryOffset (byteswapDEntrySavHeader dirEntry.toArray)

/-! ## Reading -/

inductive ReadSavefileErrorCode
  | openFileFail
  | ioError
  | dataCorrupted
  deriving DecidableEq

/-- `ReadBytes` of `n` bytes: the bytes, and what is left of the file. -/
def readBytes (n : ℕ) (file : List Byte) : Option ((Fin n → Byte) × List Byte) :=
  if h : n ≤ file.length then some (fun i => file[i], file.drop n) else none

/-- `ReadBlocksFromIOFile` -/
def readBlocksFromIOFile : (blockCount : ℕ) → List Byte → Option {l : List GCMBlock // l.length = blockCount}
  | 0, _ => some ⟨[], rfl⟩
  | n + 1, file =>
    (readBytes blockSize file).bind fun (block, rest) =>
      (readBlocksFromIOFile n rest).map fun blocks =>
        ⟨block :: blocks.val, by rw [List.length_cons, blocks.property]⟩

/-- The last step of the three readers: the blocks that the entry counts. -/
def readSavefileBlocks (dirEntry : DEntry) (blockCount : ℕ)
    (h : dirEntry.blockCount = BitVec.ofNat 16 blockCount) (file : List Byte) :
    Except ReadSavefileErrorCode Savefile :=
  match readBlocksFromIOFile blockCount file with
  | none => .error .ioError
  | some blocks => .ok ⟨dirEntry, blocks.val, by rw [h, blocks.property]⟩

theorem blockCount_eq_ofNat (e : DEntry) : e.blockCount = BitVec.ofNat 16 e.blockCount.toNat := by
  rw [BitVec.ofNat_toNat, BitVec.setWidth_eq]

/-- `ReadSavefileInternalGCI` -/
def readSavefileInternalGCI (file : List Byte) : Except ReadSavefileErrorCode Savefile :=
  match readBytes dentrySize file with
  | none => .error .ioError
  | some (header, rest) =>
    let dirEntry := DEntry.ofArray header
    let blockCount := dirEntry.blockCount.toNat
    if dentrySize + blockCount * blockSize ≠ file.length then .error .dataCorrupted
    else readSavefileBlocks dirEntry blockCount (blockCount_eq_ofNat dirEntry) rest

/-- The end of `ReadSavefileInternalGCS`: the number of blocks comes from the size of the file. -/
def readGcsBlocks (dirEntry : DEntry) (totalBlockSize : ℕ) (file : List Byte) :
    Except ReadSavefileErrorCode Savefile :=
  if totalBlockSize % blockSize ≠ 0 then .error .dataCorrupted
  else
    readSavefileBlocks { dirEntry with blockCount := BitVec.ofNat 16 (totalBlockSize / blockSize) }
      (totalBlockSize / blockSize) rfl file

/-- `ReadSavefileInternalGCS` -/
def readSavefileInternalGCS (file : List Byte) : Except ReadSavefileErrorCode Savefile :=
  match readBytes gcsHeaderSize file with
  | none => .error .ioError
  | some (gcsHeader, rest) =>
    if sliceAt gcsHeader 0 6 (by decide) ≠ gcsMagic then .error .dataCorrupted
    else
      readGcsBlocks (DEntry.ofArray (sliceAt gcsHeader gcsDentryOffset dentrySize (by decide)))
        (file.length - gcsHeaderSize) rest

/-- `ReadSavefileInternalSAV` -/
def readSavefileInternalSAV (file : List Byte) : Except ReadSavefileErrorCode Savefile :=
  match readBytes savHeaderSize file with
  | none => .error .ioError
  | some (savHeader, rest) =>
    if sliceAt savHeader 0 12 (by decide) ≠ savMagic then .error .dataCorrupted
    else
      let dirEntry := extractDEntryFromSavHeader savHeader
      let blockCount := dirEntry.blockCount.toNat
      if savHeaderSize + blockCount * blockSize ≠ file.length then .error .dataCorrupted
      else readSavefileBlocks dirEntry blockCount (blockCount_eq_ofNat dirEntry) rest

/-- `ReadSavefile` of the file of a name, if there is one. -/
def readSavefile (file : Option (List Byte)) : Except ReadSavefileErrorCode Savefile :=
  match file with
  | none => .error .openFileFail
  | some file =>
    let headerSize := file.length % blockSize
    if headerSize = dentrySize then readSavefileInternalGCI file
    else if headerSize = gcsHeaderSize then readSavefileInternalGCS file
    else if headerSize = savHeaderSize then readSavefileInternalSAV file
    else .error .dataCorrupted

/-! ## Writing -/

/-- `WriteBytes` of one block after the other. -/
def blockBytes (blocks : List GCMBlock) : List Byte :=
  blocks.flatMap fun block => List.ofFn block

/-- `WriteSavefileInternalGCI` -/
def writeSavefileInternalGCI (savefile : Savefile) : List Byte :=
  List.ofFn savefile.dirEntry.toArray ++ blockBytes savefile.blocks

/-- `WriteSavefileInternalGCS` -/
def writeSavefileInternalGCS (savefile : Savefile) : List Byte :=
  let header : Fin gcsHeaderSize → Byte := patchAt (fun _ => 0) 0 gcsMagic
  -- always one block in these files
  let gcsEntry := { savefile.dirEntry with blockCount := 1 }
  List.ofFn (patchAt header gcsDentryOffset gcsEntry.toArray) ++ blockBytes savefile.blocks

/-- `WriteSavefileInternalSAV` -/
def writeSavefileInternalSAV (savefile : Savefile) : List Byte :=
  let header : Fin savHeaderSize → Byte := patchAt (fun _ => 0) 0 savMagic
  List.ofFn (injectDEntryToSavHeader header savefile.dirEntry) ++ blockBytes savefile.blocks

/-- What `WriteSavefile` writes to the file. -/
def writeSavefile (savefile : Savefile) : SavefileFormat → List Byte
  | .gci => writeSavefileInternalGCI savefile
  | .gcs => writeSavefileInternalGCS savefile
  | .sav => writeSavefileInternalSAV savefile

/-! ## Round trips -/

theorem readBytes_append {n : ℕ} (header : Fin n → Byte) (rest : List Byte) :
    readBytes n (List.ofFn header ++ rest) = some (header, rest) := by
  have hlen : n ≤ (List.ofFn header ++ rest).length := by
    rw [List.length_append, List.length_ofFn]
    omega
  rw [readBytes, dif_pos hlen]
  congr 2
  · funext i
    simp
  · exact List.drop_left' List.length_ofFn

theorem blockBytes_cons (block : GCMBlock) (blocks : List GCMBlock) :
    blockBytes (block :: blocks) = List.ofFn block ++ blockBytes blocks :=
  List.flatMap_cons

theorem readBlocks_blockBytes (blocks : List GCMBlock) :
    readBlocksFromIOFile blocks.length (blockBytes blocks) = some ⟨blocks, rfl⟩ := by
  induction blocks with
  | nil => rfl
  | cons block blocks ih =>
    change (readBytes blockSize (blockBytes (block :: blocks))).bind _ = _
    rw [blockBytes_cons, readBytes_append, Option.bind_some]
    dsimp only
    rw [ih]
    rfl

theorem length_blockBytes (blocks : List GCMBlock) :
    (blockBytes blocks).length = blocks.length * blockSize := by
  induction blocks with
  | nil => exact (Nat.zero_mul blockSize).symm
  | cons block blocks ih =>
    rw [blockBytes_cons, List.length_append, List.length_ofFn, ih, List.length_cons, Nat.succ_mul,
      Nat.add_comm]

theorem readSavefileBlocks_blockBytes {savefile : Savefile} {dirEntry : DEntry} {blockCount : ℕ}
    {h : dirEntry.blockCount = BitVec.ofNat 16 blockCount} (hentry : dirEntry = savefile.dirEntry)
    (hcount : savefile.blocks.length = blockCount) :
    readSavefileBlocks dirEntry blockCount h (blockBytes savefile.blocks) = .ok savefile := by
  subst hentry hcount
  rw [readSavefileBlocks, readBlocks_blockBytes]

variable {savefile : Savefile}

theorem readSavefileInternalGCI_write
    (hcount : savefile.blocks.length = savefile.dirEntry.blockCount.toNat) :
    readSavefileInternalGCI (writeSavefileInternalGCI savefile) = .ok savefile := by
  have hentry := savefile.dirEntry.ofArray_toArray
  have hlen : (writeSavefileInternalGCI savefile).length =
      dentrySize + savefile.blocks.length * blockSize := by
    rw [writeSavefileInternalGCI, List.length_append, List.length_ofFn, length_blockBytes]
  rw [readSavefileInternalGCI, hlen, writeSavefileInternalGCI, readBytes_append]
  dsimp only
  rw [if_neg (by rw [hentry, hcount, not_not])]
  exact readSavefileBlocks_blockBytes hentry (by rw [hentry, hcount])

theorem readGcsBlocks_blockBytes {dirEntry : DEntry} {totalBlockSize : ℕ}
    (htotal : totalBlockSize = savefile.blocks.length * blockSize)
    (hentry : dirEntry = { savefile.dirEntry with blockCount := 1 }) :
    readGcsBlocks dirEntry totalBlockSize (blockBytes savefile.blocks) = .ok savefile := by
  have hpos : 0 < blockSize := by
    unfold Memcard.blockSize
    omega
  have hdiv : totalBlockSize / blockSize = savefile.blocks.length := by
    rw [htotal, Nat.mul_div_cancel _ hpos]
  have hmod : totalBlockSize % blockSize = 0 := by rw [htotal, Nat.mul_mod_left]
  rw [readGcsBlocks, if_neg (not_not_intro hmod)]
  refine readSavefileBlocks_blockBytes ?_ hdiv.symm
  rw [hentry, hdiv, ← savefile.blockCount_eq]

theorem readSavefileInternalGCS_write (savefile : Savefile) :
    readSavefileInternalGCS (writeSavefileInternalGCS savefile) = .ok savefile := by
  have hlen : (writeSavefileInternalGCS savefile).length - gcsHeaderSize =
      savefile.blocks.length * blockSize := by
    rw [writeSavefileInternalGCS, List.length_append, List.length_ofFn, length_blockBytes,
      Nat.add_sub_cancel_left]
  rw [readSavefileInternalGCS, hlen, writeSavefileInternalGCS, readBytes_append]
  dsimp only
  rw [sliceAt_patchAt_of_le _ _ _ (by decide), sliceAt_patchAt, sliceAt_patchAt, if_neg (not_not_intro rfl)]
  exact readGcsBlocks_blockBytes rfl (DEntry.ofArray_toArray _)

theorem readSavefileInternalSAV_write
    (hcount : savefile.blocks.length = savefile.dirEntry.blockCount.toNat) :
    readSavefileInternalSAV (writeSavefileInternalSAV savefile) = .ok savefile := by
  have hlen : (writeSavefileInternalSAV savefile).length =
      savHeaderSize + savefile.blocks.length * blockSize := by
    rw [writeSavefileInternalSAV, List.length_append, List.length_ofFn, length_blockBytes]
  have hentry : extractDEntryFromSavHeader
      (injectDEntryToSavHeader (patchAt (fun _ => 0) 0 savMagic) savefile.dirEntry) = savefile.dirEntry := by
    rw [extractDEntryFromSavHeader, injectDEntryToSavHeader, sliceAt_patchAt, byteswap_byteswap,
      DEntry.ofArray_toArray]
  rw [readSavefileInternalSAV, hlen, writeSavefileInternalSAV, readBytes_append]
  dsimp only
  rw [if_neg (by
      rw [injectDEntryToSavHeader, sliceAt_patchAt_of_le _ _ _ (by decide), sliceAt_patchAt, not_not]),
    if_neg (by rw [hentry, hcount, not_not])]
  exact readSavefileBlocks_blockBytes hentry (by rw [hentry, hcount])

/-- The size of the header is left over when the size of the file is divided by that of a block. -/
theorem length_writeSavefile_mod (savefile : Savefile) (format : SavefileFormat) :
    (writeSavefile savefile format).length % blockSize = format.headerSize := by
  cases format <;>
    simp only [writeSavefile, writeSavefileInternalGCI, writeSavefileInternalGCS, writeSavefileInternalSAV,
      List.length_append, List.length_ofFn, length_blockBytes, Nat.add_mul_mod_self_right] <;> rfl

/-- **Round trip**: what is written in any format is read again, and the swaps of a `SAV` header are undone. -/
theorem savefile_round_trip (savefile : Savefile)
    (hcount : savefile.blocks.length = savefile.dirEntry.blockCount.toNat) :
    (∀ format, readSavefile (some (writeSavefile savefile format)) = .ok savefile) ∧
      ∀ entry, byteswapDEntrySavHeader (byteswapDEntrySavHeader entry) = entry := by
  refine ⟨fun format => ?_, byteswap_byteswap⟩
  have hmod := length_writeSavefile_mod savefile format
  rw [readSavefile]
  cases format with
  | gci =>
    rw [if_pos (show _ = dentrySize from hmod)]
    exact readSavefileInternalGCI_write hcount
  | gcs =>
    rw [show _ = gcsHeaderSize from hmod, if_neg (by decide), if_pos rfl]
    exact readSavefileInternalGCS_write savefile
  | sav =>
    rw [show _ = savHeaderSize from hmod, if_neg (by decide), if_neg (by decide), if_pos rfl]
    exact readSavefileInternalSAV_write hcount

/-- Two blocks. -/
def twoBlocks : Savefile where
  dirEntry := { DEntry.erased with gamecode := 0x47414D45, blockCount := 2 }
  blocks := [fun _ => 1, fun _ => 2]
  blockCount_eq := rfl

theorem savefile_round_trip_twoBlocks :
    (∀ format, readSavefile (some (writeSavefile twoBlocks format)) = .ok twoBlocks) ∧
      ∀ entry, byteswapDEntrySavHeader (byteswapDEntrySavHeader entry) = entry :=
  savefile_round_trip twoBlocks rfl

end GCMemcard
