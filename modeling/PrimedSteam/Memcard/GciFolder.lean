import PrimedSteam.Lib.Transition
import Mathlib.Algebra.Order.Group.Multiset
import Mathlib.Data.List.Nodup
import Mathlib.Logic.Function.Basic
import Mathlib.Tactic.Abel

/-!
# The memory card in a folder

`GCMemcardDirectory`, which keeps each save in a `.gci` file, with the data of the saves in use in
memory.

* `saveAreaRW`: the search for a block, which loads the data and marks the save as dirty.
* `read`, `write`, `clearBlock`: the accesses, with the block of the last access cached.
* `flushToFile`: the dirty saves are written, and those of other games are unloaded.

The system area, blocks 0 to 4, is not written here: the header, the directories and the allocation
tables stay as they are.
-/

set_option autoImplicit false

namespace Memcard

abbrev Byte := BitVec 8

abbrev Path := List Char

def blockSize : ℕ := 0x2000

/-- The first block of the save area. -/
def mcFstBlocks : ℕ := 5

/-- The bytes of a `GCMBlock`. -/
abbrev GCMBlock := Fin blockSize → Byte

namespace GCMBlock

def erased : GCMBlock := fun _ => 0xFF

/-- `memcpy` to `offset`. -/
def copy (b : GCMBlock) (offset : ℕ) (bytes : List Byte) : GCMBlock := fun i =>
  if offset ≤ i then (bytes[i - offset]?).getD (b i) else b i

/-- `memcpy` of `length` bytes from `offset`. -/
def bytes (b : GCMBlock) (offset length : ℕ) : List Byte :=
  ((List.finRange blockSize).map b).drop offset |>.take length

end GCMBlock

/-- The fields of a `DEntry` that the accesses look at. -/
structure DEntry where
  gamecode : ℕ
  firstBlock : ℕ
  blockCount : ℕ
  deriving DecidableEq

def uninitializedGamecode : ℕ := 0xFFFFFFFF

/-- A `.gci` file of the host. -/
structure Gci where
  header : DEntry
  blocks : List GCMBlock

abbrev Files := Path → Option Gci

structure GCIFile where
  header : DEntry
  saveData : List GCMBlock
  usedBlocks : List ℕ
  dirty : Bool
  filename : Path

/-- The part of the card that the accesses do not change. -/
structure Card where
  gameId : ℕ
  /-- `GetNextBlock` of the current allocation table. -/
  getNextBlock : ℕ → ℕ
  /-- The blocks of the system area. -/
  system : ℕ → GCMBlock
  saveDirectory : Path
  generateDefaultGCIFilename : DEntry → Path

/-- What `m_last_block_address` points to. -/
inductive Area where
  | null
  | system (block : ℕ)
  | saveData (save index : ℕ)
  deriving DecidableEq

structure Folder where
  /-- `none` is -1. -/
  lastBlock : Option ℕ
  lastBlockAddress : Area
  saves : List GCIFile
  files : Files

namespace GCIFile

variable (c : Card) (files : Files) (save : GCIFile)

/-- `UsesBlock` -/
def usesBlock (block : ℕ) : Option ℕ := save.usedBlocks.findIdx? (· == block)

/-- `LoadSaveBlocks`; `readable` tells that the host opens and reads the file. -/
def loadSaveBlocks (readable : Bool) : Bool × GCIFile :=
  if save.saveData.isEmpty then
    if save.filename = [] then (false, save)
    else
      match files save.filename with
      | none => (false, save)
      | some file =>
        if readable = false ∨ file.blocks.length ≠ save.header.blockCount then (false, save)
        else (true, { save with saveData := file.blocks })
  else (true, save)

/-- The blocks of the chain in `SetUsedBlocks`; `none` if it ends in 0, for which the emulator exits,
or does not end. -/
def chain (c : Card) : ℕ → ℕ → Option (List ℕ)
  | 0, _ => none
  | fuel + 1, block =>
    if block = 0xFFFF then some []
    else if c.getNextBlock block = 0 then none
    else (chain c fuel (c.getNextBlock block)).map (block :: ·)

/-- `SetUsedBlocks` -/
def setUsedBlocks : Option GCIFile :=
  (chain c 0x10000 save.header.firstBlock).map fun blocks =>
    { save with usedBlocks := save.usedBlocks ++ blocks }

/-- The end of `SaveAreaRW`: the data is in memory, erased if it cannot be loaded. -/
def access (readable writing : Bool) : GCIFile :=
  let loaded := save.loadSaveBlocks files readable
  let save := if loaded.1 then loaded.2
    else { loaded.2 with
      saveData := loaded.2.saveData ++ List.replicate loaded.2.header.blockCount .erased }
  if writing then { save with dirty := true } else save

end GCIFile

open GCIFile

/-- The loop of `SaveAreaRW`: the saves, and the save and the index of the block. -/
def findBlock (c : Card) (files : Files) (readable : Bool) (block : ℕ) (writing : Bool) :
    List GCIFile → Option (List GCIFile × Option (ℕ × ℕ))
  | [] => some ([], none)
  | save :: saves =>
    if save.header.gamecode = uninitializedGamecode then
      (findBlock c files readable block writing saves).map fun r =>
        (save :: r.1, r.2.map fun p => (p.1 + 1, p.2))
    else
      (if save.usedBlocks.isEmpty then save.setUsedBlocks c else some save).bind fun save =>
        match save.usesBlock block with
        | some index => some (save.access files readable writing :: saves, some (0, index))
        | none =>
          (findBlock c files readable block writing saves).map fun r =>
            (save :: r.1, r.2.map fun p => (p.1 + 1, p.2))

namespace Folder

variable (c : Card) (s : Folder) (readable : Bool)

/-- `SaveAreaRW`, with its result in `m_last_block`. -/
def saveAreaRW (block : ℕ) (writing : Bool) : Option (Folder × Bool) :=
  (findBlock c s.files readable block writing s.saves).map fun r =>
    match r.2 with
    | some p =>
      ({ s with saves := r.1, lastBlock := some block, lastBlockAddress := .saveData p.1 p.2 }, true)
    | none => ({ s with saves := r.1, lastBlock := none }, false)

/-- The block at `m_last_block_address`; `none` if that data is not there any more. -/
def blockAtAddress : Option GCMBlock :=
  match s.lastBlockAddress with
  | .null => none
  | .system block => some (c.system block)
  | .saveData i index => (s.saves[i]?).bind fun save => save.saveData[index]?

/-- The part of `Read` before the copy. The second component tells that the block was found. -/
def locate (block : ℕ) : Option (Folder × Bool) :=
  if s.lastBlock = some block then some (s, true)
  else if block = 1 ∨ block = 2 then
    some ({ s with lastBlock := none, lastBlockAddress := .system block }, true)
  else if block < mcFstBlocks then
    some ({ s with lastBlock := some block, lastBlockAddress := .system block }, true)
  else s.saveAreaRW c readable block false

/-- `Read`: the state, the bytes at the destination, `none` where the pointer dangles, and the
returned length. -/
def read (s : Folder) (srcAddress length : ℕ) :
    Option (Folder × List (Option Byte) × ℕ) :=
  let offset := srcAddress % blockSize
  let within := min length (blockSize - offset)
  (s.locate c readable (srcAddress / blockSize)).bind fun (s, found) =>
    if found = false then some (s, List.replicate within (some 0xFF), 0)
    else
      let bytes := match s.blockAtAddress c with
        | some block => (block.bytes offset within).map some
        | none => List.replicate within none
      if _ : blockSize < offset + length then
        (read s (srcAddress + within) (length - within)).map fun (s, rest, extra) =>
          (s, bytes ++ rest, within + extra)
      else some (s, bytes, within)
termination_by length
decreasing_by
  have : srcAddress % blockSize < blockSize := Nat.mod_lt _ (by decide)
  omega

/-- The copy at the end of `Write`: nothing is changed where the pointer dangles. -/
def store (offset : ℕ) (bytes : List Byte) : Option Folder :=
  match s.lastBlockAddress with
  | .saveData i index =>
    some { s with saves := s.saves.modify i fun save =>
      { save with saveData := save.saveData.modify index fun block => block.copy offset bytes } }
  | .null | .system _ => none

/-- `Write` up to the end of the block; `none` for the system area and for a block that belongs to no
save, for which the emulator exits. -/
def writeWithin (destAddress : ℕ) (bytes : List Byte) : Option Folder :=
  let block := destAddress / blockSize
  if block < mcFstBlocks then none
  else if s.lastBlock = some block then s.store (destAddress % blockSize) bytes
  else
    (s.saveAreaRW c readable block true).bind fun (s, found) =>
      if found then s.store (destAddress % blockSize) bytes else none

/-- `Write` -/
def write (s : Folder) (destAddress : ℕ) (bytes : List Byte) : Option Folder :=
  let offset := destAddress % blockSize
  if _ : blockSize < offset + bytes.length then
    (s.writeWithin c readable destAddress (bytes.take (blockSize - offset))).bind fun s =>
      write s (destAddress + (blockSize - offset)) (bytes.drop (blockSize - offset))
  else s.writeWithin c readable destAddress bytes
termination_by bytes.length
decreasing_by
  have : destAddress % blockSize < blockSize := Nat.mod_lt _ (by decide)
  rw [List.length_drop]
  omega

/-- `ClearBlock` of a block of the save area. -/
def clearBlock (address : ℕ) : Option Folder :=
  if address % blockSize ≠ 0 then some s
  else if address / blockSize < mcFstBlocks then none
  else
    (s.saveAreaRW c readable (address / blockSize) true).bind fun (s, found) =>
      if found then s.store 0 (List.replicate blockSize 0xFF) else some s

end Folder

/-! ## Flushing -/

/-- What the host makes of writing a file. -/
inductive HostWrite where
  | good
  | notOpened
  /-- The file is left with fewer blocks. -/
  | cutShort (blocks : ℕ)
  deriving DecidableEq

/-- The loop that looks for an unused file name. -/
def freeName (files : Files) : ℕ → Path → Path
  | 0, name => name
  | j + 1, name =>
    if (files name).isSome then
      freeName files j (name.take (name.length - 4) ++ '0' :: name.drop (name.length - 4))
    else name

namespace GCIFile

variable (c : Card) (host : Path → HostWrite) (files : Files) (save : GCIFile)

/-- Opening the file truncates it, then header and data are written. -/
def writeFile : Files :=
  match host save.filename with
  | .good => Function.update files save.filename (some ⟨save.header, save.saveData⟩)
  | .notOpened => files
  | .cutShort blocks =>
    Function.update files save.filename (some ⟨save.header, save.saveData.take blocks⟩)

/-- The data of a save of another game is unloaded. -/
def unload : GCIFile :=
  if save.header.gamecode ≠ c.gameId ∧ save.header.gamecode ≠ 0xFFFFFFFF then
    { save with saveData := [] }
  else save

/-- One round of the loop in `FlushToFile`. -/
def flush : Files × GCIFile :=
  if save.dirty then
    if save.header.gamecode ≠ uninitializedGamecode then
      if save.saveData.isEmpty then (files, { save with dirty := false })
      else
        let filename := if save.filename = [] then
            freeName files 10 (c.saveDirectory ++ c.generateDefaultGCIFilename save.header)
          else save.filename
        let save := { save with dirty := false, filename := filename }
        (save.writeFile host files, save.unload c)
    else if save.filename ≠ [] then
      let deleted := Function.update files (save.filename ++ ".deleted".toList) (files save.filename)
      (Function.update deleted save.filename none,
        { save with dirty := false, filename := [], saveData := [], usedBlocks := [] })
    else (files, save.unload c)
  else (files, save.unload c)

end GCIFile

/-- The loop of `FlushToFile`. -/
def flushSaves (c : Card) (host : Path → HostWrite) :
    Files → List GCIFile → Files × List GCIFile
  | files, [] => (files, [])
  | files, save :: saves =>
    let r := save.flush c host files
    let rest := flushSaves c host r.1 saves
    (rest.1, r.2 :: rest.2)

/-- `FlushToFile` -/
def Folder.flushToFile (c : Card) (host : Path → HostWrite) (s : Folder) : Folder :=
  let r := flushSaves c host s.files s.saves
  { s with files := r.1, saves := r.2 }

end Memcard
