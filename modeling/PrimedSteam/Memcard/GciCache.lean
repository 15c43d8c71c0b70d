import PrimedSteam.Memcard.GciFolder
import Mathlib.Data.Fintype.Basic
import Mathlib.Data.List.Forall2

/-!
# The cached block of a memory card in a folder

`GCMemcardDirectory` with its system area, where each vector of save data has a generation: clearing
or loading it makes the addresses of its elements invalid.

* `read`, `write`, `clearBlock`: the accesses. `write` on a directory ends in `syncSaves`.
* `Coherent`: the cached address is that of the block which `SaveAreaRW` would find.
* `Keeps`: the condition on a step, that a flush does not unload the cached block, and that the block
  found is one of the data.
* **`cached_block_coherent`**: in a run of such steps the cache is coherent, and any other step breaks it.
* `reach_read`, `reach_write`: a whole call is a run of accesses within a block.
-/

set_option autoImplicit false

namespace Memcard.Cache

open Transition

/-! ## The layout of the system area -/

/-- The bytes of a `DEntry`. -/
abbrev Entry := Fin 0x40 → Byte

namespace Entry

variable (e : Entry)

def gamecode : BitVec 32 := e 0 ++ e 1 ++ e 2 ++ e 3

def firstBlock : BitVec 16 := e 0x36 ++ e 0x37

def blockCount : BitVec 16 := e 0x38 ++ e 0x39

/-- `DEntry()` -/
def erased : Entry := fun _ => 0xFF

/-- The game code is overwritten by `UNINITIALIZED_GAMECODE`. -/
def clearGamecode : Entry := fun i => if i < 4 then 0xFF else e i

/-- What a reader of the file looks at. -/
def dentry : DEntry := ⟨e.gamecode.toNat, e.firstBlock.toNat, e.blockCount.toNat⟩

end Entry

def uninitializedGamecode : BitVec 32 := 0xFFFFFFFF

def dirLen : ℕ := 0x7F

/-- A `BigEndianValue` at `offset`. -/
def bigEndian (b : GCMBlock) (offset : ℕ) (h : offset + 1 < blockSize) : BitVec 16 :=
  b ⟨offset, by omega⟩ ++ b ⟨offset + 1, h⟩

/-- `m_dir_entries[i]` of a directory. -/
def dirEntry (dir : GCMBlock) (i : Fin dirLen) : Entry := fun j =>
  dir ⟨i * 0x40 + j, by have := i.isLt; have := j.isLt; unfold dirLen blockSize at *; omega⟩

/-- `GetNextBlock` of an allocation table. -/
def getNextBlock (bat : GCMBlock) (block : BitVec 16) : BitVec 16 :=
  if h : block.toNat < mcFstBlocks ∨ 4091 < block.toNat then 0
  else bigEndian bat (0x0A + (block.toNat - mcFstBlocks) * 2) (by
    unfold mcFstBlocks blockSize at *
    omega)

/-! ## The saves -/

/-- A `GCIFile`, with the generation of its vector of data. -/
structure Save where
  header : Entry
  saveData : List GCMBlock
  usedBlocks : List (BitVec 16)
  dirty : Bool
  filename : Path
  generation : ℕ

namespace Save

variable (save : Save)

/-- The default value. -/
def empty : Save := ⟨.erased, [], [], false, [], 0⟩

/-- `m_save_data.clear()` -/
def clearData : Save := { save with saveData := [], generation := save.generation + 1 }

/-- `UsesBlock` -/
def usesBlock (block : BitVec 16) : Option ℕ := save.usedBlocks.findIdx? (· == block)

/-- `LoadSaveBlocks`; `readable` tells that the host opens and reads the file. -/
def loadSaveBlocks (files : Files) (readable : Bool) : Bool × Save :=
  if save.saveData.isEmpty then
    if save.filename = [] then (false, save)
    else
      match files save.filename with
      | none => (false, save)
      | some file =>
        if readable = false ∨ file.blocks.length ≠ save.header.blockCount.toNat then (false, save)
        else (true, { save with saveData := file.blocks, generation := save.generation + 1 })
  else (true, save)

/-- The blocks of the chain in `SetUsedBlocks`; `none` if it ends in 0, for which the emulator exits,
or does not end. -/
def chain (bat : GCMBlock) : ℕ → BitVec 16 → Option (List (BitVec 16))
  | 0, _ => none
  | fuel + 1, block =>
    if block = 0xFFFF then some []
    else if getNextBlock bat block = 0 then none
    else (chain bat fuel (getNextBlock bat block)).map (block :: ·)

/-- `SetUsedBlocks` -/
def setUsedBlocks (bat : GCMBlock) : Option Save :=
  (chain bat 0x10000 save.header.firstBlock).map fun blocks =>
    { save with usedBlocks := save.usedBlocks ++ blocks }

/-- `SetUsedBlocks` unless the blocks are known. -/
def fillUsedBlocks (bat : GCMBlock) : Option Save :=
  if save.usedBlocks.isEmpty then save.setUsedBlocks bat else some save

/-- The end of `SaveAreaRW`: the data is in memory, erased if it cannot be loaded. -/
def access (files : Files) (readable writing : Bool) : Save :=
  let loaded := save.loadSaveBlocks files readable
  let save := if loaded.1 then loaded.2
    else { loaded.2 with
      saveData := loaded.2.saveData ++ List.replicate loaded.2.header.blockCount.toNat .erased
      generation := loaded.2.generation + 1 }
  if writing then { save with dirty := true } else save

/-- The number of blocks of the data, loaded or not. -/
def dataLength : ℕ :=
  if save.saveData.isEmpty then save.header.blockCount.toNat else save.saveData.length

end Save

/-- The search of `SaveAreaRW`: the saves, and the save and the index of the block. -/
def search (bat : GCMBlock) (block : BitVec 16) : List Save → Option (List Save × Option (ℕ × ℕ))
  | [] => some ([], none)
  | save :: saves =>
    if save.header.gamecode = uninitializedGamecode then
      (search bat block saves).map fun r => (save :: r.1, r.2.map fun p => (p.1 + 1, p.2))
    else
      (save.fillUsedBlocks bat).bind fun save =>
        match save.usesBlock block with
        | some index => some (save :: saves, some (0, index))
        | none =>
          (search bat block saves).map fun r => (save :: r.1, r.2.map fun p => (p.1 + 1, p.2))

/-! ## The folder -/

/-- The blocks that are not save data. -/
inductive SystemBlock where
  | hdr | dir1 | dir2 | bat1 | bat2
  deriving DecidableEq

def systemBlock : ℕ → Option SystemBlock
  | 0 => some .hdr
  | 1 => some .dir1
  | 2 => some .dir2
  | 3 => some .bat1
  | 4 => some .bat2
  | _ => none

/-- What `m_last_block_address` points to: an element of a vector of save data is there as long as the
vector has the generation. -/
inductive Area where
  | null
  | system (block : SystemBlock)
  | saveData (save index generation : ℕ)
  deriving DecidableEq

/-- What does not change while the card is inserted. -/
structure Card where
  gameId : BitVec 32
  /-- For the header of a save, and whether the card is in Shift JIS. -/
  generateDefaultGCIFilename : Entry → Bool → Path

structure Folder where
  /-- `none` is -1. -/
  lastBlock : Option ℕ
  lastBlockAddress : Area
  system : SystemBlock → GCMBlock
  saves : List Save
  saveDirectory : Path
  files : Files

/-- The block of an address. -/
def blockOf (address : BitVec 32) : ℕ := address.toNat / blockSize

def offsetOf (address : BitVec 32) : ℕ := address.toNat % blockSize

namespace Folder

variable (s : Folder) (readable : Bool)

/-- The allocation table that `SetUsedBlocks` uses. -/
def currentBat : GCMBlock :=
  if (bigEndian (s.system .bat2) 4 (by decide)).toInt >
    (bigEndian (s.system .bat1) 4 (by decide)).toInt
  then s.system .bat2 else s.system .bat1

/-- The directory that `SyncSaves` uses. -/
def currentDirectory : GCMBlock :=
  if (bigEndian (s.system .dir1) 0x1FFA (by decide)).toInt >
    (bigEndian (s.system .dir2) 0x1FFA (by decide)).toInt
  then s.system .dir1 else s.system .dir2

/-- `SaveAreaRW`, with its result in `m_last_block`. -/
def saveAreaRW (block : ℕ) (writing : Bool) : Option (Folder × Bool) :=
  (search s.currentBat (BitVec.ofNat 16 block) s.saves).map fun r =>
    match r.2 with
    | some (i, index) =>
      let saves := r.1.modify i fun save => save.access s.files readable writing
      ({ s with
          saves := saves
          lastBlock := some block
          lastBlockAddress := .saveData i index ((saves[i]?).elim 0 (·.generation)) }, true)
    | none => ({ s with saves := r.1, lastBlock := none }, false)

/-- The `switch` of the accesses. The second component tells that the block was found. -/
def select (block : ℕ) (writing : Bool) : Option (Folder × Bool) :=
  match systemBlock block with
  | some b =>
    some ({ s with
      lastBlock := if b = .dir1 ∨ b = .dir2 then none else some block
      lastBlockAddress := .system b }, true)
  | none => s.saveAreaRW readable block writing

/-- The block at `m_last_block_address`; `none` if that data is not there any more. -/
def blockAtAddress : Option GCMBlock :=
  match s.lastBlockAddress with
  | .null => none
  | .system block => some (s.system block)
  | .saveData i index generation =>
    ((s.saves[i]?).filter fun save => save.generation == generation).bind fun save =>
      save.saveData[index]?

/-- A copy to `m_last_block_address`: nothing is changed where the pointer dangles. -/
def store (offset : ℕ) (bytes : List Byte) : Folder :=
  match s.lastBlockAddress with
  | .null => s
  | .system block =>
    { s with system := Function.update s.system block ((s.system block).copy offset bytes) }
  | .saveData i index generation =>
    { s with saves := s.saves.modify i fun save =>
      if save.generation = generation then
        { save with saveData := save.saveData.modify index fun block => block.copy offset bytes }
      else save }

/-- `Read` up to the end of the block, with the bytes at the destination, `none` where the pointer
dangles. The last component tells that the block was found. -/
def readWithin (address : BitVec 32) (length : ℕ) :
    Option (Folder × List (Option Byte) × Bool) :=
  (if s.lastBlock = some (blockOf address) then some (s, true)
    else s.select readable (blockOf address) false).map fun (s, found) =>
      if found then
        match s.blockAtAddress with
        | some block => (s, (block.bytes (offsetOf address) length).map some, true)
        | none => (s, List.replicate length none, true)
      else (s, List.replicate length (some 0xFF), false)

/-- `Read`, with the returned length. -/
def read (s : Folder) (readable : Bool) (address : BitVec 32) (length : ℕ) :
    Option (Folder × List (Option Byte) × ℕ) :=
  let within := min length (blockSize - offsetOf address)
  (s.readWithin readable address within).bind fun (s, bytes, found) =>
    if found = false then some (s, bytes, 0)
    else if _ : blockSize < offsetOf address + length then
      (read s readable (address + BitVec.ofNat 32 within) (length - within)).map
        fun (s, rest, extra) => (s, bytes ++ rest, within + extra)
    else some (s, bytes, within)
termination_by length
decreasing_by
  have : offsetOf address < blockSize := Nat.mod_lt _ (by decide)
  omega

/-- One round of the loop in `SyncSaves`. -/
def syncSave (i : Fin dirLen) : Option Folder :=
  let entry := dirEntry s.currentDirectory i
  if entry.gamecode ≠ uninitializedGamecode then
    let saves : List Save := s.saves ++ List.replicate (i + 1 - s.saves.length) .empty
    match saves[i.val]? with
    | none => none
    | some save =>
      if s.saves.length ≤ i ∨ save.header ≠ entry then
        let moved := save.header.firstBlock ≠ entry.firstBlock
        let save := { save with dirty := true, header := entry }
        let save := if moved then { save.clearData with usedBlocks := [] } else save
        (save.fillUsedBlocks s.currentBat).map fun save => { s with saves := saves.set i save }
      else some { s with saves := saves }
  else
    some { s with saves := s.saves.modify i fun save =>
      if save.header.gamecode ≠ uninitializedGamecode then
        { save.clearData with
          header := save.header.clearGamecode, usedBlocks := [], dirty := true }
      else save }

/-- `SyncSaves` -/
def syncSaves : Option Folder := (List.finRange dirLen).foldlM syncSave s

/-- `DirectoryWrite` to one of the directories. -/
def directoryWrite (block : SystemBlock) (offset : ℕ) (bytes : List Byte) : Option Folder :=
  let s := { s with
    system := Function.update s.system block ((s.system block).copy offset bytes) }
  if offset / 0x40 = dirLen then s.syncSaves else some s

/-- The loop of `Write` over the entries of a directory. -/
def directoryWrites (s : Folder) (block : SystemBlock) (offset : ℕ) (bytes : List Byte) :
    Option Folder :=
  if _ : 0 < bytes.length then
    (s.directoryWrite block offset (bytes.take 0x40)).bind fun s =>
      directoryWrites s block (offset + 0x40) (bytes.drop 0x40)
  else some s
termination_by bytes.length
decreasing_by
  rw [List.length_drop]
  omega

/-- `Write` up to the end of the block; `none` where the emulator exits. The second component tells
that `Write` goes on behind the block. -/
def writeWithin (address : BitVec 32) (bytes : List Byte) : Option (Folder × Bool) :=
  if s.lastBlock = some (blockOf address) then some (s.store (offsetOf address) bytes, true)
  else
    match systemBlock (blockOf address) with
    | some .dir1 =>
      ({ s with lastBlock := none }.directoryWrites .dir1 (offsetOf address) bytes).map fun s =>
        (s, false)
    | some .dir2 =>
      ({ s with lastBlock := none }.directoryWrites .dir2 (offsetOf address) bytes).map fun s =>
        (s, false)
    | _ =>
      (s.select readable (blockOf address) true).bind fun (s, found) =>
        if found then some (s.store (offsetOf address) bytes, true) else none

/-- `Write`, with the returned length. -/
def write (s : Folder) (readable : Bool) (address : BitVec 32) (bytes : List Byte) :
    Option (Folder × ℕ) :=
  let within := blockSize - offsetOf address
  (s.writeWithin readable address (bytes.take within)).bind fun (s, more) =>
    if more = false then some (s, min within bytes.length)
    else if _ : blockSize < offsetOf address + bytes.length then
      (write s readable (address + BitVec.ofNat 32 within) (bytes.drop within)).map
        fun (s, extra) => (s, within + extra)
    else some (s, bytes.length)
termination_by bytes.length
decreasing_by
  have : offsetOf address < blockSize := Nat.mod_lt _ (by decide)
  rw [List.length_drop]
  omega

/-- `ClearBlock` -/
def clearBlock (address : BitVec 32) : Option Folder :=
  if offsetOf address ≠ 0 then some s
  else
    (s.select readable (blockOf address) true).map fun (s, found) =>
      if found then s.store 0 (List.replicate blockSize 0xFF) else s

end Folder

/-! ## Flushing -/

namespace Save

variable (c : Card) (name : Entry → Path) (host : Path → HostWrite) (files : Files) (save : Save)

/-- Opening the file truncates it, then header and data are written. -/
def writeFile : Files :=
  match host save.filename with
  | .good => Function.update files save.filename (some ⟨save.header.dentry, save.saveData⟩)
  | .notOpened => files
  | .cutShort blocks =>
    Function.update files save.filename (some ⟨save.header.dentry, save.saveData.take blocks⟩)

/-- The data of a save of another game is unloaded. -/
def unload : Save :=
  if save.header.gamecode ≠ c.gameId ∧ save.header.gamecode ≠ 0xFFFFFFFF ∧ save.saveData ≠ [] then
    save.clearData
  else save

/-- One round of the loop in `FlushToFile`; `name` is the default name in the folder. -/
def flush : Files × Save :=
  if save.dirty then
    if save.header.gamecode ≠ uninitializedGamecode then
      if save.saveData.isEmpty then (files, { save with dirty := false })
      else
        let filename := if save.filename = [] then freeName files 10 (name save.header)
          else save.filename
        let save := { save with dirty := false, filename := filename }
        (save.writeFile host files, save.unload c)
    else if save.filename ≠ [] then
      let deleted := Function.update files (save.filename ++ ".deleted".toList) (files save.filename)
      (Function.update deleted save.filename none,
        { save.clearData with dirty := false, filename := [], usedBlocks := [] })
    else (files, save.unload c)
  else (files, save.unload c)

end Save

/-- The loop of `FlushToFile`. -/
def flushSaves (c : Card) (name : Entry → Path) (host : Path → HostWrite) :
    Files → List Save → Files × List Save
  | files, [] => (files, [])
  | files, save :: saves =>
    let r := save.flush c name host files
    let rest := flushSaves c name host r.1 saves
    (rest.1, r.2 :: rest.2)

namespace Folder

variable (c : Card) (s : Folder)

/-- `FlushToFile` -/
def flushToFile (host : Path → HostWrite) : Folder :=
  let isShiftJis := decide (bigEndian (s.system .hdr) 0x24 (by decide) ≠ 0)
  let name := fun e => s.saveDirectory ++ c.generateDefaultGCIFilename e isShiftJis
  let r := flushSaves c name host s.files s.saves
  { s with files := r.1, saves := r.2 }

/-- `DoState`, which loads what a save state has, or what was there. -/
def doState (loaded : Folder) : Folder :=
  { loaded with lastBlock := none, lastBlockAddress := .null, files := s.files }

end Folder

/-! ## Runs -/

/-- An access within one block, or another operation. `readable` tells that the host reads files. -/
inductive Operation where
  | read (readable : Bool) (address : BitVec 32) (length : ℕ)
  | write (readable : Bool) (address : BitVec 32) (bytes : List Byte)
  | clearBlock (readable : Bool) (address : BitVec 32)
  | flushToFile (host : Path → HostWrite)
  | doState (loaded : Folder)

/-- A step; `none` is that the emulator exits. -/
def step (c : Card) (s : Folder) : Operation → Option Folder
  | .read readable address length => (s.readWithin readable address length).map (·.1)
  | .write readable address bytes => (s.writeWithin readable address bytes).map (·.1)
  | .clearBlock readable address => s.clearBlock readable address
  | .flushToFile host => some (s.flushToFile c host)
  | .doState loaded => some (s.doState loaded)

namespace Folder

variable (s : Folder)

/-- Where `SaveAreaRW` finds a block. -/
def findBlock (block : ℕ) : Option (ℕ × ℕ) :=
  (search s.currentBat (BitVec.ofNat 16 block) s.saves).bind (·.2)

/-- **The cached address of a block of the save area is that of the element that `SaveAreaRW` would
find.** -/
def Coherent : Prop :=
  ∀ block, s.lastBlock = some block → mcFstBlocks ≤ block → ∃ i index save,
    s.findBlock block = some (i, index) ∧ s.saves[i]? = some save ∧ index < save.saveData.length ∧
      s.lastBlockAddress = .saveData i index save.generation

/-- The block is one of the data of its save. -/
def Fits (block : ℕ) : Prop :=
  block < mcFstBlocks ∨
    ∀ p ∈ s.findBlock block, ∀ save ∈ s.saves[p.1]?, p.2 < save.dataLength

/-- The cached block is in a save of the game that runs. -/
def Running (c : Card) : Prop :=
  ∀ block ∈ s.lastBlock, mcFstBlocks ≤ block →
    ∀ p ∈ s.findBlock block, ∀ save ∈ s.saves[p.1]?, save.header.gamecode = c.gameId

instance (block : ℕ) : Decidable (s.Fits block) := inferInstanceAs (Decidable (_ ∨ _))

instance (c : Card) : Decidable (s.Running c) :=
  inferInstanceAs (Decidable (∀ block ∈ s.lastBlock, mcFstBlocks ≤ block →
    ∀ p ∈ s.findBlock block, ∀ save ∈ s.saves[p.1]?, save.header.gamecode = c.gameId))

end Folder

/-- The condition on a step. -/
def Keeps (c : Card) (s : Folder) : Operation → Prop
  | .read _ address _ => s.lastBlock = some (blockOf address) ∨ s.Fits (blockOf address)
  | .write _ address _ => s.lastBlock = some (blockOf address) ∨ s.Fits (blockOf address)
  | .clearBlock _ address => offsetOf address ≠ 0 ∨ s.Fits (blockOf address)
  | .flushToFile _ => s.Running c
  | .doState _ => True

instance (c : Card) (s : Folder) : (a : Operation) → Decidable (Keeps c s a)
  | .read _ address _ =>
    inferInstanceAs (Decidable (s.lastBlock = some (blockOf address) ∨ s.Fits (blockOf address)))
  | .write _ address _ =>
    inferInstanceAs (Decidable (s.lastBlock = some (blockOf address) ∨ s.Fits (blockOf address)))
  | .clearBlock _ address =>
    inferInstanceAs (Decidable (offsetOf address ≠ 0 ∨ s.Fits (blockOf address)))
  | .flushToFile _ => inferInstanceAs (Decidable (s.Running c))
  | .doState _ => inferInstanceAs (Decidable True)

/-! ## What the search depends on -/

section Search

variable {bat : GCMBlock} {block : BitVec 16} {save save' : Save} {saves saves' : List Save}

theorem getElem?_of_forall₂ {α β : Type*} {R : α → β → Prop} {l : List α} {l' : List β}
    (h : List.Forall₂ R l l') {i : ℕ} {b : β} (hi : l'[i]? = some b) :
    ∃ a, l[i]? = some a ∧ R a b := by
  induction h generalizing i with
  | nil => simp at hi
  | cons hab _ ih =>
    cases i with
    | zero =>
      obtain rfl := Option.some_inj.mp hi
      exact ⟨_, rfl, hab⟩
    | succ i => exact ih hi

theorem forall₂_modify {α : Type*} {R : α → α → Prop} {f : α → α} (hrefl : ∀ a, R a a)
    (hf : ∀ a, R a (f a)) {l : List α} {i : ℕ} : List.Forall₂ R l (l.modify i f) := by
  induction l generalizing i with
  | nil => cases i <;> exact .nil
  | cons a l ih =>
    cases i with
    | zero => exact .cons (hf a) (List.forall₂_same.mpr fun b _ => hrefl b)
    | succ i => exact .cons (hrefl a) ih

/-- The saves do not differ in what the search looks at. -/
def Alike (save save' : Save) : Prop :=
  save'.header = save.header ∧
    (save.header.gamecode ≠ uninitializedGamecode → save'.usedBlocks = save.usedBlocks)

theorem Alike.symm (h : Alike save save') : Alike save' save :=
  ⟨h.1.symm, fun hactive => (h.2 (h.1 ▸ hactive)).symm⟩

theorem alike_fillUsedBlocks (h : Alike save save')
    (hactive : save.header.gamecode ≠ uninitializedGamecode) :
    (save'.fillUsedBlocks bat).map (·.usedBlocks) = (save.fillUsedBlocks bat).map (·.usedBlocks) := by
  unfold Save.fillUsedBlocks Save.setUsedBlocks
  rw [h.1, h.2 hactive]
  split
  · simp only [Option.map_map, Function.comp_def]
  · simp only [Option.map_some, h.2 hactive]

theorem search_alike (h : List.Forall₂ Alike saves saves') :
    (search bat block saves').map (·.2) = (search bat block saves).map (·.2) := by
  induction h with
  | nil => rfl
  | @cons save save' saves saves' hsave _ ih =>
    have hrest : ∀ keep keep' : Save,
        ((search bat block saves').map fun r => (keep' :: r.1, r.2.map fun p => (p.1 + 1, p.2))).map
            (·.2) =
          ((search bat block saves).map fun r => (keep :: r.1, r.2.map fun p => (p.1 + 1, p.2))).map
            (·.2) := by
      intro keep keep'
      have := congrArg (Option.map fun o : Option (ℕ × ℕ) => o.map fun p => (p.1 + 1, p.2)) ih
      simpa only [Option.map_map, Function.comp_def] using this
    rw [search, search, hsave.1]
    by_cases hactive : save.header.gamecode = uninitializedGamecode
    · rw [if_pos hactive, if_pos hactive]
      exact hrest save save'
    · rw [if_neg hactive, if_neg hactive]
      have hfill : (save'.fillUsedBlocks bat).map (·.usedBlocks) =
          (save.fillUsedBlocks bat).map (·.usedBlocks) := alike_fillUsedBlocks hsave hactive
      cases hfound : save.fillUsedBlocks bat with
      | none =>
        rw [hfound, Option.map_none, Option.map_eq_none_iff] at hfill
        rw [hfill]
        rfl
      | some filled =>
        rw [hfound, Option.map_some] at hfill
        obtain ⟨filled', hfound', hused⟩ := Option.map_eq_some_iff.mp hfill
        have huses : filled'.usesBlock block = filled.usesBlock block := by
          rw [Save.usesBlock, Save.usesBlock, hused]
        rw [hfound', Option.bind_some, Option.bind_some, huses]
        cases filled.usesBlock block with
        | some index => rfl
        | none => exact hrest filled filled'

/-- Only the used blocks are filled in. -/
def Filled (save save' : Save) : Prop := ∃ blocks, save' = { save with usedBlocks := blocks }

theorem fillUsedBlocks_spec (h : save.fillUsedBlocks bat = some save') :
    Filled save save' ∧ save'.fillUsedBlocks bat = some save' := by
  unfold Save.fillUsedBlocks at h ⊢
  by_cases hempty : save.usedBlocks.isEmpty = true
  · rw [if_pos hempty, Save.setUsedBlocks] at h
    obtain ⟨blocks, hchain, rfl⟩ := Option.map_eq_some_iff.mp h
    rw [List.isEmpty_iff.mp hempty, List.nil_append]
    refine ⟨⟨blocks, rfl⟩, ?_⟩
    split
    · rename_i hnil
      rw [Save.setUsedBlocks, hchain, Option.map_some, List.isEmpty_iff.mp hnil]
      rfl
    · rfl
  · rw [if_neg hempty, Option.some_inj] at h
    subst h
    exact ⟨⟨save.usedBlocks, rfl⟩, if_neg hempty⟩

/-- **The search fills in used blocks, and a second search ends as the first.** -/
theorem search_spec {r : Option (ℕ × ℕ)} (h : search bat block saves = some (saves', r)) :
    List.Forall₂ Filled saves saves' ∧ search bat block saves' = some (saves', r) ∧
      ∀ p ∈ r, ∃ save, saves'[p.1]? = some save ∧
        save.header.gamecode ≠ uninitializedGamecode := by
  induction saves generalizing saves' r with
  | nil =>
    obtain ⟨rfl, rfl⟩ := Prod.mk.inj (Option.some_inj.mp h)
    exact ⟨.nil, rfl, fun _ hp => nomatch hp⟩
  | cons save saves ih =>
    rw [search] at h
    by_cases hactive : save.header.gamecode = uninitializedGamecode
    · rw [if_pos hactive] at h
      obtain ⟨⟨rest, q⟩, hsearch, heq⟩ := Option.map_eq_some_iff.mp h
      obtain ⟨rfl, rfl⟩ := Prod.mk.inj heq
      obtain ⟨hfilled, hagain, hfound⟩ := ih hsearch
      refine ⟨.cons ⟨save.usedBlocks, rfl⟩ hfilled, ?_, fun p hp => ?_⟩
      · rw [search, if_pos hactive, hagain]
        rfl
      · obtain ⟨q, hq, rfl⟩ := Option.map_eq_some_iff.mp hp
        exact hfound q hq
    · rw [if_neg hactive] at h
      obtain ⟨filled, hfill, h⟩ := Option.bind_eq_some_iff.mp h
      obtain ⟨⟨blocks, hblocks⟩, hfillAgain⟩ := fillUsedBlocks_spec hfill
      have hactive' : filled.header.gamecode ≠ uninitializedGamecode := by
        rw [hblocks]
        exact hactive
      cases huses : filled.usesBlock block with
      | some index =>
        rw [huses] at h
        obtain ⟨rfl, rfl⟩ := Prod.mk.inj (Option.some_inj.mp h)
        refine ⟨.cons ⟨blocks, hblocks⟩ ?_, ?_, fun p hp => ?_⟩
        · exact List.forall₂_same.mpr fun other _ => ⟨other.usedBlocks, rfl⟩
        · rw [search, if_neg hactive', hfillAgain, Option.bind_some, huses]
        · obtain rfl := Option.some_inj.mp hp
          exact ⟨filled, rfl, hactive'⟩
      | none =>
        rw [huses] at h
        obtain ⟨⟨rest, q⟩, hsearch, heq⟩ := Option.map_eq_some_iff.mp h
        obtain ⟨rfl, rfl⟩ := Prod.mk.inj heq
        obtain ⟨hfilled, hagain, hfound⟩ := ih hsearch
        refine ⟨.cons ⟨blocks, hblocks⟩ hfilled, ?_, fun p hp => ?_⟩
        · rw [search, if_neg hactive', hfillAgain, Option.bind_some, huses, hagain]
          rfl
        · obtain ⟨q, hq, rfl⟩ := Option.map_eq_some_iff.mp hp
          exact hfound q hq

end Search

/-! ## The accesses -/

section Access

variable {c : Card} {s s' : Folder} {save save' : Save} {readable writing found : Bool} {block : ℕ}
  {saves saves' : List Save}

theorem loadSaveBlocks_cases (save : Save) (files : Files) (readable : Bool) :
    save.loadSaveBlocks files readable = (false, save) ∧ save.saveData = [] ∨
      ∃ data generation, save.loadSaveBlocks files readable =
          (true, { save with saveData := data, generation := generation }) ∧
        data.length = save.dataLength := by
  unfold Save.loadSaveBlocks Save.dataLength
  by_cases hempty : save.saveData.isEmpty = true
  · have hnil := List.isEmpty_iff.mp hempty
    rw [if_pos hempty, if_pos hempty]
    by_cases hname : save.filename = []
    · exact Or.inl ⟨if_pos hname, hnil⟩
    rw [if_neg hname]
    cases files save.filename with
    | none => exact Or.inl ⟨rfl, hnil⟩
    | some file =>
      by_cases hread : readable = false ∨ file.blocks.length ≠ save.header.blockCount.toNat
      · exact Or.inl ⟨if_pos hread, hnil⟩
      · refine Or.inr ⟨file.blocks, save.generation + 1, if_neg hread, ?_⟩
        push Not at hread
        exact hread.2
  · rw [if_neg hempty, if_neg hempty]
    exact Or.inr ⟨save.saveData, save.generation, rfl, rfl⟩

theorem access_spec (save : Save) (files : Files) (readable writing : Bool) :
    ∃ data generation dirty, save.access files readable writing =
        { save with saveData := data, generation := generation, dirty := dirty } ∧
      data.length = save.dataLength := by
  have hmark : ∀ other : Save, ∃ dirty,
      (if writing then { other with dirty := true } else other) = { other with dirty := dirty } := by
    intro other
    cases writing with
    | false => exact ⟨other.dirty, rfl⟩
    | true => exact ⟨true, rfl⟩
  unfold Save.access
  obtain ⟨hload, hnil⟩ | ⟨data, generation, hload, hlength⟩ :=
    loadSaveBlocks_cases save files readable
  · rw [hload]
    obtain ⟨dirty, hdirty⟩ := hmark { save with
      saveData := save.saveData ++ List.replicate save.header.blockCount.toNat .erased
      generation := save.generation + 1 }
    refine ⟨_, _, dirty, hdirty, ?_⟩
    rw [List.length_append, List.length_replicate, hnil, Save.dataLength, hnil]
    exact Nat.zero_add _
  · rw [hload]
    obtain ⟨dirty, hdirty⟩ := hmark { save with saveData := data, generation := generation }
    exact ⟨data, generation, dirty, hdirty, hlength⟩

/-- The search depends on the used blocks and the allocation table. -/
theorem findBlock_congr (hsaves : List.Forall₂ Alike s.saves s'.saves)
    (hbat : s'.currentBat = s.currentBat) : s'.findBlock block = s.findBlock block := by
  have hjoin : ∀ t : Folder, t.findBlock block =
      ((search t.currentBat (BitVec.ofNat 16 block) t.saves).map (·.2)).join := by
    intro t
    rw [Folder.findBlock]
    cases search t.currentBat (BitVec.ofNat 16 block) t.saves <;> rfl
  rw [hjoin, hjoin, hbat, search_alike hsaves]

theorem saveAreaRW_not_found (h : s.saveAreaRW readable block writing = some (s', false)) :
    s.findBlock block = none ∧ s'.lastBlock = none := by
  obtain ⟨⟨saves, r⟩, hsearch, heq⟩ := Option.map_eq_some_iff.mp h
  cases r with
  | some p => cases congrArg Prod.snd heq
  | none =>
    obtain rfl := congrArg Prod.fst heq
    rw [Folder.findBlock, hsearch]
    exact ⟨rfl, rfl⟩

theorem findBlock_active {p : ℕ × ℕ} (h : s.findBlock block = some p)
    (hi : s.saves[p.1]? = some save) : save.header.gamecode ≠ uninitializedGamecode := by
  obtain ⟨⟨saves, r⟩, hsearch, hr⟩ := Option.bind_eq_some_iff.mp h
  obtain ⟨hfilled, -, hfound⟩ := search_spec hsearch
  obtain ⟨filled, hj, hactive⟩ := hfound p hr
  obtain ⟨other, hother, blocks, rfl⟩ := getElem?_of_forall₂ hfilled hj
  obtain rfl := Option.some_inj.mp (hi.symm.trans hother)
  exact hactive

/-- **`SaveAreaRW` points to the block that it finds**, with the data in memory. -/
theorem saveAreaRW_found (h : s.saveAreaRW readable block writing = some (s', true)) :
    ∃ i index save save', s.findBlock block = some (i, index) ∧ s.saves[i]? = some save ∧
      s'.findBlock block = some (i, index) ∧ s'.saves[i]? = some save' ∧
      save'.saveData.length = save.dataLength ∧ s'.lastBlock = some block ∧
      s'.lastBlockAddress = .saveData i index save'.generation := by
  obtain ⟨⟨saves, r⟩, hsearch, heq⟩ := Option.map_eq_some_iff.mp h
  cases r with
  | none => cases congrArg Prod.snd heq
  | some p =>
    obtain ⟨i, index⟩ := p
    obtain rfl := congrArg Prod.fst heq
    obtain ⟨hfilled, hagain, hfound⟩ := search_spec hsearch
    obtain ⟨filled, hi, -⟩ := hfound _ rfl
    obtain ⟨save, hsave, blocks, rfl⟩ := getElem?_of_forall₂ hfilled hi
    obtain ⟨data, generation, dirty, haccess, hlength⟩ :=
      access_spec { save with usedBlocks := blocks } s.files readable writing
    have hi' : (saves.modify i fun save => save.access s.files readable writing)[i]? =
        some { save with
          usedBlocks := blocks, saveData := data, generation := generation, dirty := dirty } := by
      rw [List.getElem?_modify_eq, hi, ← haccess]
      rfl
    refine ⟨i, index, save, _, ?_, hsave, ?_, hi', hlength, rfl, ?_⟩
    · rw [Folder.findBlock, hsearch]
      rfl
    · have halike : List.Forall₂ Alike saves
          (saves.modify i fun save => save.access s.files readable writing) := by
        refine forall₂_modify (fun _ => ⟨rfl, fun _ => rfl⟩) fun save => ?_
        obtain ⟨_, _, _, haccess, -⟩ := access_spec save s.files readable writing
        rw [haccess]
        exact ⟨rfl, fun _ => rfl⟩
      refine Eq.trans (findBlock_congr (s := { s with saves := saves }) ?_ rfl) ?_
      · exact halike
      · exact congrArg (Option.bind · (·.2)) hagain
    · exact congrArg (Area.saveData i index) (by rw [hi']; rfl)

theorem systemBlock_eq_none_iff : systemBlock block = none ↔ mcFstBlocks ≤ block := by
  unfold mcFstBlocks
  match block with
  | 0 | 1 | 2 | 3 | 4 => simp [systemBlock]
  | n + 5 => exact ⟨fun _ => Nat.le_add_left 5 n, fun _ => rfl⟩

theorem lt_of_systemBlock {b : SystemBlock} (h : systemBlock block = some b) :
    block < mcFstBlocks := by
  by_contra hge
  rw [systemBlock_eq_none_iff.mpr (not_lt.mp hge)] at h
  cases h

/-- Without a cached block of the save area the cache is coherent. -/
theorem coherent_of_lastBlock (h : ∀ block, s.lastBlock = some block → block < mcFstBlocks) :
    s.Coherent := by
  intro block hblock hge
  have := h block hblock
  omega

/-- **Which block is looked up decides whether the cache is coherent.** -/
theorem coherent_select_iff (h : s.select readable block writing = some (s', found)) :
    s'.Coherent ↔ s.Fits block := by
  unfold Folder.select at h
  cases hsystem : systemBlock block with
  | some b =>
    have hlt := lt_of_systemBlock hsystem
    rw [hsystem] at h
    obtain ⟨rfl, -⟩ := Prod.mk.inj (Option.some_inj.mp h)
    refine iff_of_true (coherent_of_lastBlock fun other hother => ?_) (Or.inl hlt)
    obtain ⟨-, hother⟩ := Option.ite_none_left_eq_some.mp hother
    obtain rfl := Option.some_inj.mp hother
    exact hlt
  | none =>
    rw [hsystem] at h
    have hge := systemBlock_eq_none_iff.mp hsystem
    cases found with
    | false =>
      obtain ⟨hfind, hlast⟩ := saveAreaRW_not_found h
      refine iff_of_true (coherent_of_lastBlock fun _ hother => ?_) (Or.inr fun _ hp => ?_)
      · rw [hlast] at hother
        cases hother
      · rw [hfind] at hp
        cases hp
    | true =>
      obtain ⟨i, index, save, save', hfind, hi, hfind', hi', hlength, hlast, haddress⟩ :=
        saveAreaRW_found h
      constructor
      · intro hcoherent
        obtain ⟨j, index', other, hfound, hj, hlt, -⟩ := hcoherent block hlast hge
        obtain ⟨rfl, rfl⟩ := Prod.mk.inj (Option.some_inj.mp (hfind'.symm.trans hfound))
        obtain rfl := Option.some_inj.mp (hi'.symm.trans hj)
        refine Or.inr fun p hp => ?_
        obtain rfl := Option.some_inj.mp (hfind.symm.trans hp)
        intro other hother
        obtain rfl := Option.some_inj.mp (hi.symm.trans hother)
        rwa [hlength] at hlt
      · intro hfits other hother _
        obtain rfl := Option.some_inj.mp (hlast.symm.trans hother)
        have hlt := (hfits.resolve_left (not_lt.mpr hge)) _ hfind save hi
        exact ⟨i, index, save', hfind', hi', hlength ▸ hlt, haddress⟩

/-- What a copy into a block keeps. -/
def SameData (save save' : Save) : Prop :=
  Alike save save' ∧ save'.generation = save.generation ∧
    save'.saveData.length = save.saveData.length

theorem SameData.symm (h : SameData save save') : SameData save' save :=
  ⟨h.1.symm, h.2.1.symm, h.2.2.symm⟩

theorem coherent_of_sameData (h : s.Coherent) (hsaves : List.Forall₂ SameData s.saves s'.saves)
    (hbat : s'.currentBat = s.currentBat) (hlast : s'.lastBlock = s.lastBlock)
    (haddress : s'.lastBlockAddress = s.lastBlockAddress) : s'.Coherent := by
  intro block hblock hge
  obtain ⟨i, index, save, hfind, hi, hlt, hpoint⟩ := h block (hlast ▸ hblock) hge
  obtain ⟨save', hi', halike, hgeneration, hlength⟩ :=
    getElem?_of_forall₂ (hsaves.flip) hi
  refine ⟨i, index, save', ?_, hi', hlength ▸ hlt, ?_⟩
  · rw [findBlock_congr (hsaves.imp fun _ _ hdata => hdata.1) hbat]
    exact hfind
  · rw [haddress, hpoint, hgeneration]

theorem store_spec (s : Folder) (offset : ℕ) (bytes : List Byte) :
    (s.store offset bytes).lastBlock = s.lastBlock ∧
      (s.store offset bytes).lastBlockAddress = s.lastBlockAddress ∧
      List.Forall₂ SameData s.saves (s.store offset bytes).saves := by
  have hrefl : ∀ save, SameData save save := fun _ => ⟨⟨rfl, fun _ => rfl⟩, rfl, rfl⟩
  unfold Folder.store
  split
  · exact ⟨rfl, rfl, List.forall₂_same.mpr fun save _ => hrefl save⟩
  · exact ⟨rfl, rfl, List.forall₂_same.mpr fun save _ => hrefl save⟩
  · refine ⟨rfl, rfl, forall₂_modify hrefl fun save => ?_⟩
    split
    · exact ⟨⟨rfl, fun _ => rfl⟩, rfl, List.length_modify _ _ _⟩
    · exact hrefl save

theorem coherent_store_iff {offset : ℕ} {bytes : List Byte} :
    (s.store offset bytes).Coherent ↔ s.Coherent := by
  obtain ⟨hlast, haddress, hsaves⟩ := store_spec s offset bytes
  -- where the address is in the system area, neither is coherent with a block of the save area
  have hbat : ∀ i index generation, s.lastBlockAddress = .saveData i index generation →
      (s.store offset bytes).currentBat = s.currentBat := by
    intro i index generation hpoint
    unfold Folder.store
    rw [hpoint]
    rfl
  constructor
  · intro h block hblock hge
    obtain ⟨i, index, save, -, -, -, hpoint⟩ := h block (hlast.trans hblock) hge
    exact coherent_of_sameData h ((hsaves.imp fun _ _ => SameData.symm).flip)
      (hbat i index _ (haddress.symm.trans hpoint)).symm hlast.symm haddress.symm block hblock hge
  · intro h block hblock hge
    obtain ⟨i, index, save, -, -, -, hpoint⟩ := h block (hlast.symm.trans hblock) hge
    exact coherent_of_sameData h hsaves (hbat i index _ hpoint) hlast haddress block hblock hge

/-! ## Directories -/

theorem syncSave_lastBlock {i : Fin dirLen} (h : s.syncSave i = some s') :
    s'.lastBlock = s.lastBlock := by
  unfold Folder.syncSave at h
  dsimp only at h
  split at h
  · split at h
    · cases h
    · split at h
      · obtain ⟨_, -, rfl⟩ := Option.map_eq_some_iff.mp h
        rfl
      · obtain rfl := Option.some_inj.mp h
        rfl
  · obtain rfl := Option.some_inj.mp h
    rfl

theorem syncSaves_lastBlock (h : s.syncSaves = some s') : s'.lastBlock = s.lastBlock :=
  foldlM_invariant (P := fun t => t.lastBlock = s.lastBlock)
    (fun _ _ _ _ ht hsync => (syncSave_lastBlock hsync).trans ht) rfl h

theorem directoryWrite_lastBlock {b : SystemBlock} {offset : ℕ} {bytes : List Byte}
    (h : s.directoryWrite b offset bytes = some s') : s'.lastBlock = s.lastBlock := by
  rw [Folder.directoryWrite] at h
  by_cases hlast : offset / 0x40 = dirLen
  · rw [if_pos hlast] at h
    rw [syncSaves_lastBlock h]
  · rw [if_neg hlast, Option.some_inj] at h
    rw [← h]

theorem directoryWrites_lastBlock {b : SystemBlock} {offset : ℕ} {bytes : List Byte}
    (h : s.directoryWrites b offset bytes = some s') : s'.lastBlock = s.lastBlock := by
  fun_induction Folder.directoryWrites s b offset bytes with
  | case1 s offset bytes hpos ih =>
    obtain ⟨t, hwrite, hrest⟩ := Option.bind_eq_some_iff.mp h
    exact (ih t hrest).trans (directoryWrite_lastBlock hwrite)
  | case2 s offset bytes hnone =>
    obtain rfl := Option.some_inj.mp h
    rfl

end Access

/-! ## Flushing -/

section Flush

variable {c : Card} {s s' : Folder} {name : Entry → Path} {host : Path → HostWrite} {files : Files}
  {save save' : Save} {saves : List Save}

variable (c name host files) in
theorem flush_active (h : save.header.gamecode ≠ uninitializedGamecode) :
    Alike save (save.flush c name host files).2 ∧
      (save.header.gamecode = c.gameId →
        (save.flush c name host files).2.saveData = save.saveData ∧
          (save.flush c name host files).2.generation = save.generation) ∧
      (save.header.gamecode ≠ c.gameId → (save.flush c name host files).2.saveData = []) := by
  have hunload : ∀ other : Save, other.header = save.header → Alike other (other.unload c) ∧
      (save.header.gamecode = c.gameId → other.unload c = other) ∧
      (save.header.gamecode ≠ c.gameId → (other.unload c).saveData = []) := by
    intro other hother
    unfold Save.unload
    rw [hother]
    by_cases hother' : save.header.gamecode ≠ c.gameId ∧ save.header.gamecode ≠ 0xFFFFFFFF ∧
        other.saveData ≠ []
    · rw [if_pos hother']
      exact ⟨⟨rfl, fun _ => rfl⟩, fun heq => absurd heq hother'.1, fun _ => rfl⟩
    · rw [if_neg hother']
      refine ⟨⟨rfl, fun _ => rfl⟩, fun _ => rfl, fun hne => ?_⟩
      by_contra hdata
      exact hother' ⟨hne, h, hdata⟩
  unfold Save.flush
  by_cases hdirty : save.dirty = true
  · rw [if_pos hdirty, if_pos h]
    by_cases hempty : save.saveData.isEmpty = true
    · rw [if_pos hempty]
      exact ⟨⟨rfl, fun _ => rfl⟩, fun _ => ⟨rfl, rfl⟩, fun _ => List.isEmpty_iff.mp hempty⟩
    · rw [if_neg hempty]
      obtain ⟨halike, hkept, hgone⟩ := hunload { save with
        dirty := false
        filename := if save.filename = [] then freeName files 10 (name save.header)
          else save.filename } rfl
      refine ⟨halike, fun heq => ?_, hgone⟩
      dsimp only
      rw [hkept heq]
      exact ⟨rfl, rfl⟩
  · rw [if_neg hdirty]
    obtain ⟨halike, hkept, hgone⟩ := hunload save rfl
    refine ⟨halike, fun heq => ?_, hgone⟩
    dsimp only
    rw [hkept heq]
    exact ⟨rfl, rfl⟩

theorem flush_inactive (h : save.header.gamecode = uninitializedGamecode) :
    (save.flush c name host files).2.header = save.header := by
  unfold Save.flush
  have hunload : save.unload c = save := by
    unfold Save.unload
    exact if_neg fun hne => hne.2.1 h
  rw [hunload]
  split
  · rw [if_neg (not_not.mpr h)]
    split
    · rfl
    · rfl
  · rfl

theorem flushSaves_forall₂ (files : Files) (saves : List Save) :
    List.Forall₂ (fun save save' => ∃ files, save' = (save.flush c name host files).2) saves
      (flushSaves c name host files saves).2 := by
  induction saves generalizing files with
  | nil => exact .nil
  | cons save saves ih => exact .cons ⟨files, rfl⟩ (ih _)

theorem alike_flush : Alike save (save.flush c name host files).2 := by
  by_cases h : save.header.gamecode = uninitializedGamecode
  · exact ⟨flush_inactive h, fun hactive => absurd h hactive⟩
  · exact (flush_active c name host files h).1

/-- **A flush keeps the cache coherent iff it does not unload the cached block.** -/
theorem coherent_flushToFile_iff (h : s.Coherent) :
    (s.flushToFile c host).Coherent ↔ s.Running c := by
  have hsaves : List.Forall₂ (fun save save' => ∃ files name,
      save' = (save.flush c name host files).2) s.saves (s.flushToFile c host).saves :=
    (flushSaves_forall₂ s.files s.saves).imp fun _ _ ⟨files, heq⟩ => ⟨files, _, heq⟩
  have halike : List.Forall₂ Alike s.saves (s.flushToFile c host).saves := by
    refine hsaves.imp fun save save' hflush => ?_
    obtain ⟨files, name, rfl⟩ := hflush
    exact alike_flush
  have hfind : ∀ block, (s.flushToFile c host).findBlock block = s.findBlock block :=
    fun block => findBlock_congr halike rfl
  constructor
  · intro hafter block hblock hge p hp save hi
    obtain ⟨i, index, other, hother, hj, hlt, -⟩ := hafter block hblock hge
    obtain rfl := Option.some_inj.mp (hp.symm.trans ((hfind block).symm.trans hother))
    obtain ⟨before, hbefore, files, name, rfl⟩ := getElem?_of_forall₂ hsaves hj
    obtain rfl := Option.some_inj.mp (hi.symm.trans hbefore)
    have hactive : save.header.gamecode ≠ uninitializedGamecode := findBlock_active hp hi
    by_contra hne
    rw [(flush_active c name host files hactive).2.2 hne] at hlt
    exact absurd hlt (Nat.not_lt_zero _)
  · intro hrunning block hblock hge
    obtain ⟨i, index, save, hfound, hi, hlt, hpoint⟩ := h block hblock hge
    have hcode := hrunning block hblock hge _ hfound save hi
    have hactive := findBlock_active hfound hi
    obtain ⟨save', hi', files, name, rfl⟩ := getElem?_of_forall₂ hsaves.flip hi
    obtain ⟨hdata, hgeneration⟩ := (flush_active c name host files hactive).2.1 hcode
    refine ⟨i, index, _, (hfind block).trans hfound, hi', ?_, ?_⟩
    · rw [hdata]
      exact hlt
    · rw [hgeneration]
      exact hpoint

end Flush

/-! ## Runs -/

section Runs

variable {c : Card} {s s' : Folder} {readable : Bool} {address : BitVec 32}

theorem coherent_directoryWrites {b : SystemBlock} {offset : ℕ} {bytes : List Byte} {r : Folder × Bool}
    (h : (({ s with lastBlock := none }.directoryWrites b offset bytes).map fun s => (s, false)) =
      some r) : r.1.Coherent := by
  obtain ⟨t, hwrites, rfl⟩ := Option.map_eq_some_iff.mp h
  refine coherent_of_lastBlock fun block hblock => ?_
  rw [directoryWrites_lastBlock hwrites] at hblock
  cases hblock

theorem coherent_writeWithin_iff (h : s.Coherent) {bytes : List Byte} {r : Folder × Bool}
    (hwrite : s.writeWithin readable address bytes = some r) :
    r.1.Coherent ↔ s.lastBlock = some (blockOf address) ∨ s.Fits (blockOf address) := by
  have hselect : ((s.select readable (blockOf address) true).bind fun (s, found) =>
      if found then some (s.store (offsetOf address) bytes, true) else none) = some r →
        (r.1.Coherent ↔ s.Fits (blockOf address)) := by
    intro hbind
    obtain ⟨⟨t, found⟩, hselect, hstore⟩ := Option.bind_eq_some_iff.mp hbind
    obtain ⟨-, hr⟩ := Option.ite_none_right_eq_some.mp hstore
    obtain rfl := Option.some_inj.mp hr
    exact coherent_store_iff.trans (coherent_select_iff hselect)
  unfold Folder.writeWithin at hwrite
  by_cases hcached : s.lastBlock = some (blockOf address)
  · rw [if_pos hcached, Option.some_inj] at hwrite
    subst hwrite
    exact iff_of_true (coherent_store_iff.mpr h) (Or.inl hcached)
  · rw [if_neg hcached] at hwrite
    refine Iff.trans ?_ (or_iff_right hcached).symm
    cases hsystem : systemBlock (blockOf address) with
    | none =>
      rw [hsystem] at hwrite
      exact hselect hwrite
    | some b =>
      rw [hsystem] at hwrite
      cases b with
      | hdr => exact hselect hwrite
      | bat1 => exact hselect hwrite
      | bat2 => exact hselect hwrite
      | dir1 =>
        exact iff_of_true (coherent_directoryWrites hwrite) (Or.inl (lt_of_systemBlock hsystem))
      | dir2 =>
        exact iff_of_true (coherent_directoryWrites hwrite) (Or.inl (lt_of_systemBlock hsystem))

theorem coherent_step_iff (h : s.Coherent) {a : Operation} (hs : step c s a = some s') :
    s'.Coherent ↔ Keeps c s a := by
  cases a with
  | read readable address length =>
    obtain ⟨⟨t, bytes, found⟩, hread, rfl⟩ := Option.map_eq_some_iff.mp hs
    obtain ⟨⟨t', found'⟩, hlocate, heq⟩ := Option.map_eq_some_iff.mp hread
    have ht : t = t' := by
      cases found' with
      | false => exact (congrArg Prod.fst heq).symm
      | true =>
        dsimp only at heq
        rw [if_pos rfl] at heq
        split at heq
        · exact (congrArg Prod.fst heq).symm
        · exact (congrArg Prod.fst heq).symm
    subst ht
    by_cases hcached : s.lastBlock = some (blockOf address)
    · rw [if_pos hcached, Option.some_inj] at hlocate
      obtain ⟨rfl, -⟩ := Prod.mk.inj hlocate
      exact iff_of_true h (Or.inl hcached)
    · rw [if_neg hcached] at hlocate
      exact (coherent_select_iff hlocate).trans (or_iff_right hcached).symm
  | write readable address bytes =>
    obtain ⟨⟨t, more⟩, hwrite, rfl⟩ := Option.map_eq_some_iff.mp hs
    exact coherent_writeWithin_iff h hwrite
  | clearBlock readable address =>
    rw [step, Folder.clearBlock] at hs
    by_cases hoffset : offsetOf address ≠ 0
    · rw [if_pos hoffset, Option.some_inj] at hs
      subst hs
      exact iff_of_true h (Or.inl hoffset)
    · rw [if_neg hoffset] at hs
      obtain ⟨⟨t, found⟩, hselect, rfl⟩ := Option.map_eq_some_iff.mp hs
      refine Iff.trans ?_ ((coherent_select_iff hselect).trans (or_iff_right hoffset).symm)
      dsimp only
      split
      · exact coherent_store_iff
      · exact Iff.rfl
  | flushToFile host =>
    obtain rfl := Option.some_inj.mp hs
    exact coherent_flushToFile_iff h
  | doState loaded =>
    obtain rfl := Option.some_inj.mp hs
    exact iff_of_true (coherent_of_lastBlock fun _ hblock => (Option.some_ne_none _ hblock.symm).elim) trivial

/-- **The cache is coherent as long as each step keeps it so.** -/
theorem cached_block_coherent {s₀ : Folder} (h₀ : s₀.lastBlock = none)
    (h : Reach (step c) (Keeps c) s₀ s) :
    s.Coherent ∧ ∀ a s', step c s a = some s' → (s'.Coherent ↔ Keeps c s a) := by
  have hcoherent : s.Coherent := by
    refine h.invariant (coherent_of_lastBlock fun block hblock => ?_) fun t a t' ht hkeeps hs => ?_
    · rw [h₀] at hblock
      cases hblock
    · exact (coherent_step_iff ht hs).mpr hkeeps
  exact ⟨hcoherent, fun a s' hs => coherent_step_iff hcoherent hs⟩

/-- **A call of `Read` is a run** of its portions within the blocks. -/
theorem reach_read {readable : Bool} {address : BitVec 32} {length n : ℕ} {bytes : List (Option Byte)}
    (h : s.read readable address length = some (s', bytes, n)) : Reach (step c) anyStep s s' := by
  induction length using Nat.strong_induction_on generalizing s address bytes n with
  | _ length ih =>
    rw [Folder.read] at h
    obtain ⟨⟨t, portion, found⟩, hportion, h⟩ := Option.bind_eq_some_iff.mp h
    have hstep : Reach (step c) anyStep s t := Reach.refl.tail
      (.read readable address (min length (blockSize - offsetOf address))) trivial (by rw [step, hportion]; rfl)
    dsimp only at h
    split_ifs at h with hfound hmore
    · cases h
      exact hstep
    · obtain ⟨⟨t', rest, extra⟩, hrest, h⟩ := Option.map_eq_some_iff.mp h
      cases h
      have hoffset : offsetOf address < blockSize := Nat.mod_lt _ (by decide)
      exact hstep.trans (ih _ (by omega) hrest)
    · cases h
      exact hstep

/-- **A call of `Write` is a run** of its portions within the blocks. -/
theorem reach_write {readable : Bool} {address : BitVec 32} {bytes : List Byte} {n : ℕ}
    (h : s.write readable address bytes = some (s', n)) : Reach (step c) anyStep s s' := by
  induction hlength : bytes.length using Nat.strong_induction_on generalizing s address bytes n with
  | _ length ih =>
    rw [Folder.write] at h
    obtain ⟨⟨t, more⟩, hportion, h⟩ := Option.bind_eq_some_iff.mp h
    have hstep : Reach (step c) anyStep s t := Reach.refl.tail
      (.write readable address (bytes.take (blockSize - offsetOf address))) trivial (by rw [step, hportion]; rfl)
    dsimp only at h
    split_ifs at h with hfound hmore
    · cases h
      exact hstep
    · obtain ⟨⟨t', extra⟩, hrest, h⟩ := Option.map_eq_some_iff.mp h
      cases h
      have hoffset : offsetOf address < blockSize := Nat.mod_lt _ (by decide)
      exact hstep.trans (ih _ (by rw [List.length_drop]; omega) hrest rfl)
    · cases h
      exact hstep

/-- A card of a game, and the header of a save of a game with one block, block 5. -/
def sampleCard : Card := ⟨0x47474747, fun _ _ => []⟩

def sampleHeader (game : Byte) : Entry := fun i =>
  if i < 4 then game else if i = 0x37 then 5 else if i = 0x39 then 1 else 0

def sampleFolder (game : Byte) : Folder where
  lastBlock := none
  lastBlockAddress := .null
  system := fun _ _ => 0
  saves := [⟨sampleHeader game, [.erased], [5], false, ['a'], 0⟩]
  saveDirectory := []
  files := fun _ => none

theorem cached_block_coherent_flushed :
    ∃ s, Reach (step sampleCard) (Keeps sampleCard) (sampleFolder 0x47) s ∧
      s.lastBlock = some 5 ∧ s.Coherent := by
  obtain ⟨s, hrun, hlast⟩ := Option.map_eq_some_iff.mp
    (show (run (step sampleCard) (Keeps sampleCard) (sampleFolder 0x47)
        [.read true 0xA000 1, .flushToFile fun _ => .good]).map (·.lastBlock) = some (some 5) by
      decide +kernel)
  have hreach := run_reach .refl hrun
  exact ⟨s, hreach, hlast, (cached_block_coherent rfl hreach).1⟩

/-- **A flush unloads the cached block of another game**, and the address stays. -/
theorem flush_not_coherent :
    (sampleFolder 0x58).lastBlock = none ∧
      ∃ s, Reach (step sampleCard) anyStep (sampleFolder 0x58) s ∧ ¬ s.Coherent := by
  obtain ⟨s, hrun, hs⟩ := Option.map_eq_some_iff.mp
    (show (run (step sampleCard) anyStep (sampleFolder 0x58)
        [.read true 0xA000 1, .flushToFile fun _ => .good]).map
          (fun s => (s.lastBlock, s.saves.map (·.saveData.length))) = some (some 5, [0]) by
      decide +kernel)
  obtain ⟨hlast, hsaves⟩ := Prod.mk.inj hs
  refine ⟨rfl, s, run_reach .refl hrun, fun hcoherent => ?_⟩
  obtain ⟨i, index, save, -, hi, hlt, -⟩ := hcoherent 5 hlast (by decide)
  have hlength := List.mem_map_of_mem (f := (·.saveData.length)) (List.mem_of_getElem? hi)
  rw [hsaves, List.mem_singleton] at hlength
  omega

end Runs

end Memcard.Cache
