import PrimedSteam.Lib.Successors
import PrimedSteam.Lib.Transition
import PrimedSteam.Memcard.GciFolder
import Mathlib.Data.BitVec
import Mathlib.Data.Finset.Insert
import Mathlib.Data.Finset.Lattice.Basic

/-!
# The memory card in a file

`GCMemcard`: a header, two copies of the directory and of the block allocation table (BAT), of which
the older one is overwritten by each change, and the data blocks.

* `format`, `importFile`, `removeFile`: the operations.
* `checkForErrors`, `checkForErrorsWithBat`, `open'`: what is checked when the card is read again.

The words of a block are in the byte order of the card. `none` is an access out of bounds, or a loop
that does not end.
-/

set_option autoImplicit false

namespace GCMemcard

open Memcard (Byte GCMBlock blockSize mcFstBlocks)
open Successors

abbrev Word := BitVec 16

def mbitToBlocks : ℕ := 1024 * 1024 / (blockSize * 8)

def dirLen : ℕ := 0x7F

def dentryStrlen : ℕ := 0x20

def batSize : ℕ := 0xFFB

/-- The sizes in megabits that `Open` accepts. -/
def validMegabits : List ℕ := [0x04, 0x08, 0x10, 0x20, 0x40, 0x80]

def mbitToFreeBlocks (sizeMb : Word) : BitVec 32 :=
  sizeMb.setWidth 32 * BitVec.ofNat 32 mbitToBlocks - BitVec.ofNat 32 mcFstBlocks

/-- The end of a chain, and the failure of the search for a block. -/
def noBlock : ℕ := 0xFFFF

def swap16 (x : Word) : Word := x <<< 8 ||| x >>> 8

def swap32 (x : BitVec 32) : BitVec 32 :=
  x <<< 24 ||| (x &&& 0xFF00) <<< 8 ||| (x >>> 8 &&& 0xFF00) ||| x >>> 24

def words32 (x : BitVec 32) : List Word := [x.extractLsb' 16 16, x.extractLsb' 0 16]

def bytes16 (x : Word) : List Byte := [x.extractLsb' 8 8, x.extractLsb' 0 8]

def bytes32 (x : BitVec 32) : List Byte := (words32 x).flatMap bytes16

/-- `CalculateMemcardChecksums` -/
def calculateMemcardChecksums (words : List Word) : Word × Word :=
  let csum := swap16 words.sum
  let invCsum := swap16 (words.map (· ^^^ 0xFFFF)).sum
  (if csum = 0xFFFF then 0 else csum, if invCsum = 0xFFFF then 0 else invCsum)

inductive ValidityIssue where
  | failedToOpen
  | ioError
  | invalidCardSize
  | invalidChecksum
  | mismatchedCardSize
  | freeBlockMismatch
  | dirBatInconsistent
  | dataInUnusedArea
  deriving DecidableEq

abbrev ErrorCode := Finset ValidityIssue

/-- All but `DATA_IN_UNUSED_AREA`. -/
def ErrorCode.hasCriticalErrors (e : ErrorCode) : Prop :=
  .failedToOpen ∈ e ∨ .ioError ∈ e ∨ .invalidCardSize ∈ e ∨ .invalidChecksum ∈ e ∨
    .mismatchedCardSize ∈ e ∨ .freeBlockMismatch ∈ e ∨ .dirBatInconsistent ∈ e

instance (e : ErrorCode) : Decidable e.hasCriticalErrors :=
  inferInstanceAs (Decidable (_ ∨ _))

def issue (p : Prop) [Decidable p] (code : ValidityIssue) : ErrorCode := if p then {code} else ∅

/-! ## The header -/

structure HeaderData where
  /-- Twelve bytes. -/
  serial : List Byte
  formatTime : BitVec 64
  /-- The two fields that are not stored big endian. -/
  sramBias : BitVec 32
  dtvStatus : BitVec 32
  sramLanguage : BitVec 32
  deviceId : Word
  sizeMb : Word
  encoding : Word

/-- One round of the serial: the random numbers and the byte made of the first one. -/
def serialRound (flash : Byte) (rand : BitVec 64) : Byte × BitVec 64 :=
  let rand := (rand * 0x41c64e6d + 0x3039) >>> 16
  (flash + rand.setWidth 8, (rand * 0x41c64e6d + 0x3039) >>> 16 &&& 0x7fff)

def serialOf : List Byte → BitVec 64 → List Byte
  | [], _ => []
  | flash :: flashId, rand =>
    (serialRound flash rand).1 :: serialOf flashId (serialRound flash rand).2

/-- `InitializeHeaderData` -/
def initializeHeaderData (flashId : List Byte) (sizeMbits : Word) (shiftJis : Bool)
    (rtcBias sramLanguage : BitVec 32) (formatTime : BitVec 64) : HeaderData where
  serial := serialOf flashId formatTime
  formatTime := formatTime
  sramBias := rtcBias
  dtvStatus := 0
  sramLanguage := sramLanguage
  deviceId := 0
  sizeMb := sizeMbits
  encoding := if shiftJis then 1 else 0

def pairWords : List Byte → List Word
  | a :: b :: bytes => (a ++ b) :: pairWords bytes
  | _ => []

/-- The first 32 bytes. -/
def HeaderData.idWords (d : HeaderData) : List Word :=
  pairWords d.serial ++ words32 (d.formatTime.extractLsb' 32 32) ++
    words32 (d.formatTime.extractLsb' 0 32) ++ words32 (swap32 d.sramBias) ++
    words32 d.sramLanguage ++ words32 (swap32 d.dtvStatus)

def HeaderData.words (d : HeaderData) : List Word := d.idWords ++ [d.deviceId, d.sizeMb, d.encoding]

structure Header where
  data : HeaderData
  unused1 : List Word
  updateCounter : Word
  checksum : Word
  checksumInv : Word
  unused2 : List Word

namespace Header

/-- `CalculateChecksums` -/
def calculateChecksums (h : Header) : Word × Word :=
  calculateMemcardChecksums (h.data.words ++ h.unused1 ++ [h.updateCounter])

/-- `FixChecksums` -/
def fixChecksums (h : Header) : Header :=
  { h with checksum := h.calculateChecksums.1, checksumInv := h.calculateChecksums.2 }

/-- The constructor of a formatted header. -/
def formatted (data : HeaderData) : Header :=
  fixChecksums
    { data
      unused1 := List.replicate 234 0xFFFF
      updateCounter := 0xFFFF
      checksum := 0xFFFF
      checksumInv := 0xFFFF
      unused2 := List.replicate 3840 0xFFFF }

/-- `CalculateSerial`, in the byte order of the card. -/
def calculateSerial (h : Header) : BitVec 32 × BitVec 32 :=
  let word : ℕ → Word := fun i => h.data.idWords.getD i 0
  let serial : ℕ → BitVec 32 := fun j => (List.range 4).foldl
    (fun acc i => acc ^^^ (word (4 * i + j) ++ word (4 * i + j + 1) : BitVec 32)) 0
  (serial 0, serial 2)

/-- `CheckForErrors` -/
def checkForErrors (h : Header) (cardSizeMbits : Word) : ErrorCode :=
  issue (h.data.sizeMb ≠ cardSizeMbits) .mismatchedCardSize ∪
    issue ((∃ w ∈ h.unused1, w ≠ 0xFFFF) ∨ ∃ w ∈ h.unused2, w ≠ 0xFFFF) .dataInUnusedArea ∪
    issue (h.calculateChecksums ≠ (h.checksum, h.checksumInv)) .invalidChecksum

end Header

/-! ## The directory -/

structure DEntry where
  gamecode : BitVec 32
  makercode : Word
  unused1 : Byte
  bannerAndIconFlags : Byte
  filename : Fin dentryStrlen → Byte
  modificationTime : BitVec 32
  imageOffset : BitVec 32
  iconFormat : Word
  animationSpeed : Word
  filePermissions : Byte
  copyCounter : Byte
  firstBlock : Word
  blockCount : Word
  unused2 : Word
  commentsAddress : BitVec 32

namespace DEntry

def uninitializedGamecode : BitVec 32 := 0xFFFFFFFF

/-- All bytes are 0xFF. -/
def erased : DEntry where
  gamecode := 0xFFFFFFFF
  makercode := 0xFFFF
  unused1 := 0xFF
  bannerAndIconFlags := 0xFF
  filename := fun _ => 0xFF
  modificationTime := 0xFFFFFFFF
  imageOffset := 0xFFFFFFFF
  iconFormat := 0xFFFF
  animationSpeed := 0xFFFF
  filePermissions := 0xFF
  copyCounter := 0xFF
  firstBlock := 0xFFFF
  blockCount := 0xFFFF
  unused2 := 0xFFFF
  commentsAddress := 0xFFFFFFFF

/-- The entry is in use. -/
def Used (e : DEntry) : Prop := e.gamecode ≠ uninitializedGamecode

instance (e : DEntry) : Decidable e.Used := inferInstanceAs (Decidable (_ ≠ _))

def words (e : DEntry) : List Word :=
  words32 e.gamecode ++ [e.makercode, e.unused1 ++ e.bannerAndIconFlags] ++
    pairWords (List.ofFn e.filename) ++ words32 e.modificationTime ++ words32 e.imageOffset ++
    [e.iconFormat, e.animationSpeed, e.filePermissions ++ e.copyCounter, e.firstBlock,
      e.blockCount, e.unused2] ++ words32 e.commentsAddress

/-- The comparison of `strcmp` with a name shorter than the field. -/
def named (e : DEntry) (name : List Char) : Bool :=
  (List.ofFn e.filename).takeWhile (· ≠ 0) = name.map fun c => BitVec.ofNat 8 c.toNat

/-- The loop of `HasSameIdentity` over the two filenames. -/
def sameName : List Byte → List Byte → Bool
  | a :: as, b :: bs => if a = 0 then b = 0 else if a ≠ b then false else sameName as bs
  | _, _ => true

/-- `HasSameIdentity` -/
def hasSameIdentity (l r : DEntry) : Bool :=
  if l.gamecode ≠ r.gamecode then false
  else if l.makercode ≠ r.makercode then false
  else sameName (List.ofFn l.filename) (List.ofFn r.filename)

end DEntry

structure Directory where
  dirEntries : Fin dirLen → DEntry
  padding : List Word
  updateCounter : Word
  checksum : Word
  checksumInv : Word

/-! ## The block allocation table -/

structure BlockAlloc where
  checksum : Word
  checksumInv : Word
  updateCounter : Word
  freeBlocks : Word
  lastAllocatedBlock : Word
  /-- `m_map`, by the number of the block: the entry of block 5 is the first one. -/
  map : ℕ → Word

namespace BlockAlloc

/-- `CalculateChecksums` -/
def calculateChecksums (b : BlockAlloc) : Word × Word :=
  calculateMemcardChecksums
    ([b.updateCounter, b.freeBlocks, b.lastAllocatedBlock] ++
      (List.range' mcFstBlocks batSize).map b.map)

/-- `FixChecksums` -/
def fixChecksums (b : BlockAlloc) : BlockAlloc :=
  { b with checksum := b.calculateChecksums.1, checksumInv := b.calculateChecksums.2 }

@[simp] theorem fixChecksums_map (b : BlockAlloc) : b.fixChecksums.map = b.map := by rw [fixChecksums]

@[simp] theorem fixChecksums_freeBlocks (b : BlockAlloc) :
    b.fixChecksums.freeBlocks = b.freeBlocks := by
  rw [fixChecksums]

@[simp] theorem fixChecksums_updateCounter (b : BlockAlloc) :
    b.fixChecksums.updateCounter = b.updateCounter := by
  rw [fixChecksums]

@[simp] theorem fixChecksums_lastAllocatedBlock (b : BlockAlloc) :
    b.fixChecksums.lastAllocatedBlock = b.lastAllocatedBlock := by
  rw [fixChecksums]

/-- The constructor. -/
def formatted (sizeMbits : Word) : BlockAlloc :=
  fixChecksums
    { checksum := 0
      checksumInv := 0
      updateCounter := 0
      freeBlocks := (mbitToFreeBlocks sizeMbits).setWidth 16
      lastAllocatedBlock := 4
      map := fun _ => 0 }

/-- `GetNextBlock` -/
def getNextBlock (b : BlockAlloc) (block : ℕ) : ℕ :=
  if block < mcFstBlocks ∨ block > 4091 then 0 else (b.map block).toNat

/-- The blocks in the order in which `NextFreeBlock` looks at them. -/
def searched (maxBlock startingBlock : ℕ) : List ℕ :=
  let start := max mcFstBlocks (min startingBlock (batSize + mcFstBlocks))
  let stop := max mcFstBlocks (min maxBlock (batSize + mcFstBlocks))
  List.range' start (stop - start) ++ List.range' mcFstBlocks (start - mcFstBlocks)

/-- `NextFreeBlock` -/
def nextFreeBlock (b : BlockAlloc) (maxBlock startingBlock : ℕ) : ℕ :=
  if b.freeBlocks.toNat > 0 then
    ((searched maxBlock startingBlock).find? fun i => b.map i = 0).getD noBlock
  else noBlock

/-- The entry of `block` is set by the loop of `ImportFile`. -/
def link (b : BlockAlloc) (block nextBlock : ℕ) : BlockAlloc :=
  { b with
    map := Function.update b.map block (BitVec.ofNat 16 nextBlock)
    lastAllocatedBlock := BitVec.ofNat 16 block }

/-- The loop of `ClearBlocks`: the blocks of the chain, and how it ends. -/
def chain (b : BlockAlloc) (startingBlock : ℕ) : Option (List ℕ × ℕ) :=
  walk b.getNextBlock (fun block => block = noBlock ∨ block = 0) (batSize + 1) startingBlock

/-- `ClearBlocks` -/
def clearBlocks (b : BlockAlloc) (startingBlock blockCount : ℕ) : Option (Bool × BlockAlloc) :=
  (b.chain startingBlock).map fun (blocks, stop) =>
    if stop > 0 then
      if blocks.length ≠ blockCount then (false, b)
      else
        (true, { b with
          map := fun i => if i ∈ blocks then 0 else b.map i
          freeBlocks := b.freeBlocks + BitVec.ofNat 16 blockCount })
    else (false, b)

/-- `CheckForErrors` -/
def checkForErrors (b : BlockAlloc) (sizeMbits : Word) : ErrorCode :=
  issue (b.calculateChecksums ≠ (b.checksum, b.checksumInv)) .invalidChecksum ∪
    if 0 < sizeMbits.toNat ∧ sizeMbits.toNat ≤ 256 then
      let totalAvailableBlocks := sizeMbits.toNat * mbitToBlocks - mcFstBlocks
      let blocksInUse :=
        (List.range' mcFstBlocks totalAvailableBlocks).countP fun i => b.map i ≠ 0
      issue (totalAvailableBlocks - blocksInUse ≠ b.freeBlocks.toNat) .freeBlockMismatch ∪
        issue
          (∃ i ∈ List.range' (mcFstBlocks + totalAvailableBlocks) (batSize - totalAvailableBlocks),
            b.map i ≠ 0) .dataInUnusedArea
    else {.invalidCardSize}

end BlockAlloc

namespace Directory

def words (d : Directory) : List Word :=
  (List.ofFn d.dirEntries).flatMap DEntry.words ++ d.padding ++ [d.updateCounter]

/-- `CalculateChecksums` -/
def calculateChecksums (d : Directory) : Word × Word := calculateMemcardChecksums d.words

/-- `FixChecksums` -/
def fixChecksums (d : Directory) : Directory :=
  { d with checksum := d.calculateChecksums.1, checksumInv := d.calculateChecksums.2 }

/-- The constructor of an empty directory. -/
def empty : Directory where
  dirEntries := fun _ => .erased
  padding := List.replicate 29 0xFFFF
  updateCounter := 0
  checksum := swap16 0xF003
  checksumInv := 0

/-- `CheckForErrors` -/
def checkForErrors (d : Directory) : ErrorCode :=
  issue (d.calculateChecksums ≠ (d.checksum, d.checksumInv)) .invalidChecksum ∪
    issue (∃ w ∈ d.padding, w ≠ 0xFFFF) .dataInUnusedArea

/-- The inner loop of `CheckForErrorsWithBat`: `bat_block_count_matches`. -/
def batBlockCountMatches (bat : BlockAlloc) : ℕ → ℕ → Bool
  | 0, _ => false
  | remainingBlocks + 1, currentBlock =>
    let nextBlock := bat.getNextBlock currentBlock
    if nextBlock = 0 then false
    else if nextBlock = noBlock then remainingBlocks = 0
    else batBlockCountMatches bat remainingBlocks nextBlock

/-- `CheckForErrorsWithBat` -/
def checkForErrorsWithBat (d : Directory) (bat : BlockAlloc) : ErrorCode :=
  issue (∃ i, (d.dirEntries i).Used ∧
    batBlockCountMatches bat (d.dirEntries i).blockCount.toNat (d.dirEntries i).firstBlock.toNat =
      false) .dirBatInconsistent

end Directory

/-! ## The card -/

/-- A savefile as `ReadSavefile` returns it. The number of the blocks of a GCS file is cut to 16
bits. -/
structure Savefile where
  dirEntry : DEntry
  blocks : List GCMBlock
  blockCount_eq : dirEntry.blockCount = BitVec.ofNat 16 blocks.length

structure Card where
  valid : Bool
  sizeBlocks : ℕ
  sizeMb : Word
  headerBlock : Header
  directoryBlocks : Fin 2 → Directory
  batBlocks : Fin 2 → BlockAlloc
  dataBlocks : List GCMBlock
  activeDirectory : Fin 2
  activeBat : Fin 2

/-- `FileBuffer[block].m_block[offset]` and the bytes after it are set. -/
def patch (fileBuffer : List GCMBlock) (block offset : ℕ) (bytes : List Byte) : List GCMBlock :=
  fileBuffer.modify block fun b => b.copy offset bytes

/-- The bytes from `start` to `stop` of the file. -/
def fileBytes (fileBuffer : List GCMBlock) (start stop : ℕ) : List Byte :=
  (fileBuffer.flatMap fun b => b.bytes 0 blockSize).drop start |>.take (stop - start)

/-- A step of a shift register with the polynomial `poly`. -/
def crcBit {w : ℕ} (poly x : BitVec w) : BitVec w := if x.getLsbD 0 then x >>> 1 ^^^ poly else x >>> 1

def crc16 (chksum : Word) (byte : Byte) : Word := (crcBit 0x8408)^[8] (chksum ^^^ byte.setWidth 16)

def crc32 (chksum : BitVec 32) (byte : Byte) : BitVec 32 :=
  (chksum >>> 8 &&& 0xFFFFFF) ^^^ (crcBit 0xEDB88320)^[8] ((chksum ^^^ byte.setWidth 32) &&& 0xFF)

/-- `FZEROGX_MakeSaveGameValid` -/
def fzerogxMakeSaveGameValid (h : Header) (e : DEntry) (fileBuffer : List GCMBlock) :
    List GCMBlock :=
  if e.named "f_zero.dat".toList = false then fileBuffer
  else if fileBuffer.length ≠ 4 then fileBuffer
  else
    let (serial1, serial2) := h.calculateSerial
    let fileBuffer := patch fileBuffer 1 0x0066 (bytes16 (serial1.extractLsb' 16 16))
    let fileBuffer := patch fileBuffer 3 0x1580 (bytes16 (serial2.extractLsb' 16 16))
    let fileBuffer := patch fileBuffer 1 0x0060 (bytes16 (serial1.extractLsb' 0 16))
    let fileBuffer := patch fileBuffer 1 0x0200 (bytes16 (serial2.extractLsb' 0 16))
    let chksum := (fileBytes fileBuffer 0x02 0x8000).foldl crc16 0xFFFF
    patch fileBuffer 0 0x00 (bytes16 (~~~chksum))

/-- A system file of Phantasy Star Online, and the extra bytes of its checksum. -/
def psoOffset (e : DEntry) : Option ℕ :=
  if e.named "PSO_SYSTEM".toList then some 0
  else if e.named "PSO3_SYSTEM".toList then some 0x10
  else none

/-- `PSO_MakeSaveGameValid`; the second block is accessed without a check. -/
def psoMakeSaveGameValid (h : Header) (e : DEntry) (fileBuffer : List GCMBlock) :
    Option (List GCMBlock) :=
  match psoOffset e with
  | none => some fileBuffer
  | some pso3Offset =>
    if fileBuffer.length < 2 then none
    else
      let (serial1, serial2) := h.calculateSerial
      let fileBuffer := patch fileBuffer 1 0x0158 (bytes32 serial1)
      let fileBuffer := patch fileBuffer 1 0x015C (bytes32 serial2)
      let area := fileBytes fileBuffer (blockSize + 0x004C) (blockSize + 0x0164 + pso3Offset)
      let chksum := area.foldl crc32 0xDEBB20E3
      some (patch fileBuffer 1 0x0048 (bytes32 (chksum ^^^ 0xFFFFFFFF)))

inductive ImportFileRetVal where
  | success
  | noMemcard
  | outOfDirEntries
  | outOfBlocks
  | titlePresent
  deriving DecidableEq

inductive RemoveFileRetVal where
  | success
  | noMemcard
  | deleteFail
  deriving DecidableEq

namespace Card

/-- The second `Format`; `Save` comes after it. -/
def format (flashId : List Byte) (sizeMbits : Word) (shiftJis : Bool)
    (rtcBias sramLanguage : BitVec 32) (formatTime : BitVec 64) : Card where
  valid := true
  sizeBlocks := sizeMbits.toNat * mbitToBlocks
  sizeMb := sizeMbits
  headerBlock := .formatted
    (initializeHeaderData flashId sizeMbits shiftJis rtcBias sramLanguage formatTime)
  directoryBlocks := fun _ => .empty
  batBlocks := fun _ => .formatted sizeMbits
  dataBlocks := List.replicate (mbitToFreeBlocks sizeMbits).toNat .erased
  activeDirectory := 0
  activeBat := 0

variable (card : Card)

/-- `GetActiveDirectory` -/
def directory : Directory := card.directoryBlocks card.activeDirectory

/-- `GetActiveBat` -/
def bat : BlockAlloc := card.batBlocks card.activeBat

/-- The copy that is written next. -/
def inactive (i : Fin 2) : Fin 2 := if i = 0 then 1 else 0

/-- `UpdateDirectory` -/
def updateDirectory (d : Directory) : Card :=
  { card with
    directoryBlocks := Function.update card.directoryBlocks (inactive card.activeDirectory) d
    activeDirectory := inactive card.activeDirectory }

/-- `UpdateBat` -/
def updateBat (b : BlockAlloc) : Card :=
  { card with
    batBlocks := Function.update card.batBlocks (inactive card.activeBat) b
    activeBat := inactive card.activeBat }

/-- `FixChecksums` -/
def fixChecksums : Card :=
  if card.valid then
    { card with
      headerBlock := card.headerBlock.fixChecksums
      directoryBlocks := fun i => (card.directoryBlocks i).fixChecksums
      batBlocks := fun i => (card.batBlocks i).fixChecksums }
  else card

/-- `GetNumFiles` -/
def getNumFiles : ℕ :=
  if card.valid then (List.finRange dirLen).countP fun i => (card.directory.dirEntries i).Used
  else 0

/-- `TitlePresent` -/
def titlePresent (e : DEntry) : Option (Fin dirLen) :=
  if card.valid then
    (List.finRange dirLen).find? fun i => (card.directory.dirEntries i).hasSameIdentity e
  else none

/-- `m_data_blocks` and `m_map` have an entry for the block. -/
def InRange (data : List GCMBlock) (block : ℕ) : Prop :=
  mcFstBlocks ≤ block ∧ block - mcFstBlocks < data.length ∧ block - mcFstBlocks < batSize

instance (data : List GCMBlock) (block : ℕ) : Decidable (InRange data block) :=
  inferInstanceAs (Decidable (_ ∧ _))

/-- The loop of `ImportFile` over the blocks of the file, from `firstBlock`. -/
def writeBlocks (sizeBlocks : ℕ) :
    ℕ → List GCMBlock → ℕ → BlockAlloc × List GCMBlock → Option (BlockAlloc × List GCMBlock)
  | 0, _, _, s => some s
  | _ + 1, [], _, _ => none
  | n + 1, block :: blocks, firstBlock, (bat, data) =>
    if InRange data firstBlock then
      let nextBlock :=
        if n = 0 then noBlock
        else bat.nextFreeBlock (sizeBlocks % 2 ^ 16) ((firstBlock + 1) % 2 ^ 16)
      writeBlocks sizeBlocks n blocks nextBlock
        (bat.link firstBlock nextBlock, data.set (firstBlock - mcFstBlocks) block)
    else none

/-- The entry of an imported file. -/
def importedEntry (e : DEntry) (firstBlock : ℕ) : DEntry :=
  { e with firstBlock := BitVec.ofNat 16 firstBlock, copyCounter := e.copyCounter + 1 }

/-- The directory with the entry in the first free place. -/
def importedDirectory (e : DEntry) (firstBlock : ℕ) : Directory :=
  let entries := match (List.finRange dirLen).find?
      fun i => ¬(card.directory.dirEntries i).Used with
    | some i => Function.update card.directory.dirEntries i (importedEntry e firstBlock)
    | none => card.directory.dirEntries
  { card.directory with
    dirEntries := entries
    updateCounter := card.directory.updateCounter + 1 }

/-- `ImportFile` after its checks. -/
def importBlocks (savefile : Savefile) (firstBlock : ℕ) : Option Card := do
  let e := savefile.dirEntry
  let fileBlocks := e.blockCount.toNat
  let blocks ← psoMakeSaveGameValid card.headerBlock e
    (fzerogxMakeSaveGameValid card.headerBlock e savefile.blocks)
  let (bat, data) ← writeBlocks card.sizeBlocks fileBlocks blocks firstBlock
    (card.bat, card.dataBlocks)
  let bat :=
    { bat with
      freeBlocks := bat.freeBlocks - BitVec.ofNat 16 fileBlocks
      updateCounter := bat.updateCounter + 1 }
  let card := { card.updateDirectory (card.importedDirectory e firstBlock) with dataBlocks := data }
  some (card.updateBat bat).fixChecksums

/-- `ImportFile` -/
def importFile (savefile : Savefile) : Option (ImportFileRetVal × Card) :=
  let e := savefile.dirEntry
  if card.valid = false then some (.noMemcard, card)
  else if card.getNumFiles ≥ dirLen then some (.outOfDirEntries, card)
  else if card.bat.freeBlocks.toNat < e.blockCount.toNat then some (.outOfBlocks, card)
  else if (card.titlePresent e).isSome then some (.titlePresent, card)
  else
    let firstBlock :=
      card.bat.nextFreeBlock (card.sizeBlocks % 2 ^ 16) card.bat.lastAllocatedBlock.toNat
    if firstBlock = noBlock then some (.outOfBlocks, card)
    else (card.importBlocks savefile firstBlock).map fun card => (.success, card)

/-- The directory without the file at `index`. -/
def removedDirectory (index : Fin dirLen) : Directory :=
  { card.directory with
    dirEntries := Function.update card.directory.dirEntries index .erased
    updateCounter := card.directory.updateCounter + 1 }

/-- `RemoveFile` -/
def removeFile (index : ℕ) : Option (RemoveFileRetVal × Card) :=
  if card.valid = false then some (.noMemcard, card)
  else if h : index < dirLen then
    let e := card.directory.dirEntries ⟨index, h⟩
    (card.bat.clearBlocks e.firstBlock.toNat e.blockCount.toNat).map fun (cleared, bat) =>
      if cleared then
        (.success, ((card.updateBat { bat with updateCounter := bat.updateCounter + 1 })
          |>.updateDirectory (card.removedDirectory ⟨index, h⟩)).fixChecksums)
      else (.deleteFail, card)
  else some (.deleteFail, card)

end Card

/-! ## The file of the card -/

/-- The blocks of the file. -/
structure Image where
  headerBlock : Header
  directoryBlocks : Fin 2 → Directory
  batBlocks : Fin 2 → BlockAlloc
  dataBlocks : List GCMBlock

/-- `Save` -/
def Card.save (card : Card) : Image where
  headerBlock := card.headerBlock
  directoryBlocks := card.directoryBlocks
  batBlocks := card.batBlocks
  dataBlocks := card.dataBlocks.take (card.sizeBlocks - mcFstBlocks)

namespace Image

variable (image : Image)

/-- `BytesToMegabits` of the size of the file, 0 where it has no value. -/
def megabits : ℕ :=
  let bytes := blockSize * (mcFstBlocks + image.dataBlocks.length)
  if bytes % (1024 * 1024 / 8) ≠ 0 then 0 else bytes / (1024 * 1024 / 8)

def directoryErrors (i : Fin 2) : ErrorCode := (image.directoryBlocks i).checkForErrors

def batErrors (i : Fin 2) : ErrorCode :=
  (image.batBlocks i).checkForErrors (BitVec.ofNat 16 image.megabits)

/-- `number_of_corrupted_dir_bat_blocks` -/
def numberOfCorruptedBlocks : ℕ :=
  ((List.finRange 2).countP fun i => (image.directoryErrors i).hasCriticalErrors) +
    (List.finRange 2).countP fun i => (image.batErrors i).hasCriticalErrors

/-- The other copy of a corrupted block, with the next update counter. -/
def repair {α : Type} (bump : α → α) (corrupted : Fin 2 → Prop) [DecidablePred corrupted]
    (blocks : Fin 2 → α) : Fin 2 → α :=
  if corrupted 0 then Function.update blocks 0 (bump (blocks 1))
  else if corrupted 1 then Function.update blocks 1 (bump (blocks 0))
  else blocks

/-- The image with the block that is corrupted replaced by the other copy. -/
def repaired : Image :=
  { image with
    directoryBlocks := repair
      (fun d => { d with updateCounter := d.updateCounter + 1 : Directory }.fixChecksums)
      (fun i => (image.directoryErrors i).hasCriticalErrors) image.directoryBlocks
    batBlocks := repair
      (fun b => { b with updateCounter := b.updateCounter + 1 : BlockAlloc }.fixChecksums)
      (fun i => (image.batErrors i).hasCriticalErrors) image.batBlocks }

/-- The errors of the four blocks. -/
def blockErrors : ErrorCode :=
  image.directoryErrors 0 ∪ image.directoryErrors 1 ∪ image.batErrors 0 ∪ image.batErrors 1

/-- The newer one of two blocks by their update counters, which are signed. -/
def newer (counter : Fin 2 → Word) : Fin 2 := if (counter 0).toInt ≥ (counter 1).toInt then 0 else 1

/-- The card of an image whose blocks are sound. -/
def card : Card where
  valid := true
  sizeBlocks := image.megabits * mbitToBlocks
  sizeMb := BitVec.ofNat 16 image.megabits
  headerBlock := image.headerBlock
  directoryBlocks := image.directoryBlocks
  batBlocks := image.batBlocks
  dataBlocks := image.dataBlocks
  activeDirectory := newer fun i => (image.directoryBlocks i).updateCounter
  activeBat := newer fun i => (image.batBlocks i).updateCounter

/-- `Open` of a file that can be read. -/
def open' : ErrorCode × Option Card :=
  if image.megabits ∉ validMegabits then ({.invalidCardSize}, none)
  else
    let headerErrors := image.headerBlock.checkForErrors (BitVec.ofNat 16 image.megabits)
    if headerErrors.hasCriticalErrors then (headerErrors, none)
    else if image.numberOfCorruptedBlocks > 1 then (headerErrors ∪ image.blockErrors, none)
    else
      let card := image.repaired.card
      let errors := headerErrors ∪ image.repaired.blockErrors ∪
        card.directory.checkForErrorsWithBat card.bat
      if errors.hasCriticalErrors then (errors, none) else (errors, some card)

end Image

end GCMemcard
