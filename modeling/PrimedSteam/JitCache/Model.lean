import PrimedSteam.Lib.OrderedMap
import PrimedSteam.Lib.Transition
import Mathlib.Data.List.Sort

/-!
# The block cache of the JIT

`Cache` is a `JitBaseBlockCache`: the multimap of the live blocks and the four indexes into it. A
block is known by its address, `BlockPtr`; an operation that follows a pointer to a block that is
not live is undefined, `none`.

* `allocateBlock`, `finalizeBlock`: a new block and its registration.
* `linkBlock`, `unlinkBlock`, `destroyBlock`: the exits of blocks that jump to other blocks.
* `erasePhysicalRange`, `invalidateICache`, `invalidateICacheLine`, `eraseSingleBlock`, `clear`.
* `moveBlockIntoFastCache`, `dispatch`: the lookups.
* `step`: the runs of a cache.

Addresses are `u32`; the sums that can wrap do. The address sets of the JIT that an invalidation also
trims are not part of the cache.
-/

set_option autoImplicit false

namespace JitCache

open Transition

abbrev BlockPtr := ℕ

/-- What `JitCache_TranslateAddress` returns. -/
structure TranslateResult where
  valid : Bool
  translated : Bool
  fromBat : Bool
  address : ℕ
  deriving DecidableEq, Repr

/-- The address translation at the time of a call. -/
abbrev Translation := ℕ → TranslateResult

/-- An exit to a known address. `target` is a ghost: the block that `WriteLinkBlock` last made the
exit jump to. -/
structure LinkData where
  exitAddress : ℕ
  linkStatus : Bool
  target : Option BlockPtr
  deriving DecidableEq, Repr

structure JitBlock where
  ptr : BlockPtr
  normalEntry : ℕ
  featureFlags : ℕ
  effectiveAddress : ℕ
  physicalAddress : ℕ
  fastBlockMapIndex : ℕ
  linkData : List LinkData
  /-- an ordered set -/
  physicalAddresses : List ℕ
  deriving DecidableEq, Repr

structure Cache where
  blockMap : List JitBlock
  blockRangeMap : OrderedMap ℕ (List BlockPtr)
  linksTo : ℕ → List BlockPtr
  validBlock : ℕ → Bool
  /-- holds entry points or blocks, see `slot` -/
  fastBlockMap : ℕ → Option ℕ

/-- The order in which an unordered set is iterated. -/
structure HashOrder where
  order : List BlockPtr → List BlockPtr
  perm : ∀ l, (order l).Perm l

/-- `FEATURE_FLAG_MSR_IR` is set. -/
def msrIR (featureFlags : ℕ) : Bool := featureFlags.testBit 1

/-- `addr & BLOCK_RANGE_MAP_MASK` -/
def macroBlock (addr : ℕ) : ℕ := addr / 0x100 * 0x100

def wrap (x : ℕ) : ℕ := x % 2 ^ 32

namespace JitBlock

/-- The first of the block's physical addresses that is not below `address`. -/
def lowerBound (b : JitBlock) (address : ℕ) : Option ℕ := b.physicalAddresses.find? (address ≤ ·)

def overlapsPhysicalRange (b : JitBlock) (address length : ℕ) : Bool :=
  b.lowerBound address != b.lowerBound (wrap (address + length))

end JitBlock

namespace Cache

/-! ## Blocks -/

def init : Cache := ⟨[], .empty, fun _ => [], fun _ => false, fun _ => none⟩

variable (s : Cache)

def block? (p : BlockPtr) : Option JitBlock := s.blockMap.find? fun b => b.ptr = p

def mapBlocks (f : JitBlock → JitBlock) : Cache := { s with blockMap := s.blockMap.map f }

def modifyBlock (p : BlockPtr) (f : JitBlock → JitBlock) : Cache :=
  s.mapBlocks fun b => if b.ptr = p then f b else b

/-- `AllocateBlock`, which puts the block after the others with its physical address. -/
def allocateBlock (tr : Translation) (emAddress featureFlags : ℕ) (p : BlockPtr) : Cache :=
  let physicalAddress := (tr emAddress).address
  { s with
    blockMap := s.blockMap.orderedInsert (fun a b => a.physicalAddress < b.physicalAddress)
      ⟨p, 0, featureFlags, emAddress, physicalAddress, 0, [], []⟩ }

def getBlockFromStartAddress (tr : Translation) (addr featureFlags : ℕ) : Option JitBlock :=
  if msrIR featureFlags ∧ (tr addr).valid = false then none
  else
    let translatedAddr := if msrIR featureFlags then (tr addr).address else addr
    (s.blockMap.filter fun b => b.physicalAddress = translatedAddr).find? fun b =>
      b.effectiveAddress = addr ∧ b.featureFlags = featureFlags

/-! ## Links -/

def linkBlockExits (tr : Translation) (b : JitBlock) : JitBlock :=
  { b with
    linkData := b.linkData.map fun e =>
      if e.linkStatus then e
      else match s.getBlockFromStartAddress tr e.exitAddress b.featureFlags with
        | some destinationBlock =>
          { e with linkStatus := true, target := some destinationBlock.ptr }
        | none => e }

/-- The blocks in `links_to` under an address, each of which is looked at. -/
def sources (addr : ℕ) : Option (List JitBlock) := (s.linksTo addr).mapM s.block?

/-- Links the exits of `b`, if it is the block or a source of the block with the same flags. -/
def linkSources (tr : Translation) (block b : JitBlock) : JitBlock :=
  if b.ptr = block.ptr ∨
      b.ptr ∈ s.linksTo block.effectiveAddress ∧ b.featureFlags = block.featureFlags then
    s.linkBlockExits tr b
  else b

/-- `LinkBlock`. What an exit is linked to does not depend on the other links. -/
def linkBlock (tr : Translation) (block : JitBlock) : Option Cache :=
  (s.sources block.effectiveAddress).map fun _ => s.mapBlocks (s.linkSources tr block)

/-- Unlinks the exits of the source `b` that lead to `block`. -/
def unlinkSource (block b : JitBlock) : JitBlock :=
  if b.ptr ∈ s.linksTo block.effectiveAddress ∧ b.featureFlags = block.featureFlags then
    { b with
      linkData := b.linkData.map fun e =>
        if e.exitAddress = block.effectiveAddress then
          { e with linkStatus := false, target := none }
        else e }
  else b

/-- `UnlinkBlock`: the exits of the block jump nowhere from now on, and those of its sources that
lead to it are unlinked. -/
def unlinkBlock (block : JitBlock) : Option Cache :=
  (s.sources block.effectiveAddress).map fun _ =>
    (s.modifyBlock block.ptr fun b =>
      { b with linkData := b.linkData.map fun e => { e with target := none } }
      ).mapBlocks (s.unlinkSource block)

/-! ## The fast block map -/

variable (entryPoints : Bool)

/-- What a block leaves in the fast map: its entry point when the large map of entry points is in
use, and the block itself in the fallback. -/
def slot (b : JitBlock) : ℕ := if entryPoints then b.normalEntry else b.ptr

def fastLookupIndexForAddress (address featureFlags : ℕ) : ℕ :=
  if entryPoints then featureFlags <<< 30 ||| address >>> 2
  else address >>> 2 &&& 0xFFFF

/-- Clears the block's entry in the fast map, if it has it. -/
def dropFastEntry (b : JitBlock) : Cache :=
  if s.fastBlockMap b.fastBlockMapIndex = some (slot entryPoints b) then
    { s with fastBlockMap := Function.update s.fastBlockMap b.fastBlockMapIndex none }
  else s

/-- Makes the block's entry in the fast map. -/
def putFastEntry (b : JitBlock) (index : ℕ) : Cache :=
  ({ s with fastBlockMap := Function.update s.fastBlockMap index (some (slot entryPoints b)) }
    ).modifyBlock b.ptr fun b => { b with fastBlockMapIndex := index }

/-! ## Creation -/

/-- What the compiler makes of a block. -/
structure Compiled where
  normalEntry : ℕ
  exits : List ℕ
  physicalAddresses : List ℕ

/-- Registers a block under its physical addresses. -/
def addPhysicalAddresses (p : BlockPtr) (addrs : List ℕ) : Cache :=
  { s with
    validBlock := addrs.foldl (fun v addr => Function.update v (addr / 32) true) s.validBlock
    blockRangeMap :=
      addrs.foldl (fun m addr => m.modify (macroBlock addr) (List.insert p)) s.blockRangeMap }

/-- Registers a block as a source under its exits. -/
def addLinksTo (p : BlockPtr) (exits : List ℕ) : Cache :=
  { s with
    linksTo := exits.foldl (fun l exit => Function.update l exit ((l exit).insert p)) s.linksTo }

/-- `FinalizeBlock`, with what the compiler has stored in the block before. -/
def finalizeBlock (tr : Translation) (p : BlockPtr) (blockLink : Bool) (code : Compiled) :
    Option Cache := do
  let s := s.modifyBlock p fun b =>
    { b with
      normalEntry := code.normalEntry
      linkData := code.exits.map fun exit => ⟨exit, false, none⟩ }
  let block ← s.block? p
  let index := fastLookupIndexForAddress entryPoints block.effectiveAddress block.featureFlags
  let s := s.putFastEntry entryPoints block index
  let s := s.modifyBlock p fun b => { b with physicalAddresses := code.physicalAddresses }
  let s := s.addPhysicalAddresses p code.physicalAddresses
  if blockLink then (s.addLinksTo p code.exits).linkBlock tr block else some s

/-! ## Destruction -/

/-- Removes a block from the sources under its exits. -/
def removeLinksTo (block : JitBlock) : Cache :=
  { s with
    linksTo := block.linkData.foldl (fun l e =>
      Function.update l e.exitAddress ((l e.exitAddress).filter (· ≠ block.ptr))) s.linksTo }

def destroyBlock (block : JitBlock) : Option Cache :=
  ((s.dropFastEntry entryPoints block).unlinkBlock block).map fun s => s.removeLinksTo block

def eraseFromBlockMap (p : BlockPtr) : Cache :=
  { s with blockMap := s.blockMap.filter fun b => b.ptr ≠ p }

/-- Removes a block from the macro blocks of the given addresses. -/
def removeFromRangeMap (p : BlockPtr) (addrs : List ℕ) : Cache :=
  { s with
    blockRangeMap := addrs.foldl (fun m addr =>
      m.modify (macroBlock addr) fun l => l.filter (· ≠ p)) s.blockRangeMap }

/-- One block of the macro block `key`: it is destroyed if it overlaps the range. -/
def eraseOverlapping (address length key : ℕ) (s : Cache) (p : BlockPtr) : Option Cache := do
  let block ← s.block? p
  if block.overlapsPhysicalRange address length then
    let s := s.removeFromRangeMap p (block.physicalAddresses.filter fun addr => macroBlock addr ≠ key)
    let s ← s.destroyBlock entryPoints block
    let s := s.eraseFromBlockMap p
    some { s with blockRangeMap := s.blockRangeMap.modify key fun l => l.filter (· ≠ p) }
  else some s

variable (H : HashOrder)

/-- All blocks of the macro block `key`, which is dropped if it is empty then. -/
def eraseMacroBlock (address length key : ℕ) : Option Cache :=
  ((H.order (s.blockRangeMap.get key)).foldlM (eraseOverlapping entryPoints address length key) s).map
    fun s =>
      if s.blockRangeMap.get key = [] then { s with blockRangeMap := s.blockRangeMap.erase key }
      else s

/-- The loop over the macro blocks from `start` to `last`. An iterator that runs past the end of
the map is undefined. -/
def eraseMacroBlocks (address length : ℕ) (last : Option ℕ) : ℕ → Cache → Option ℕ → Option Cache
  | 0, _, _ => none
  | fuel + 1, s, start =>
    if start = last then some s
    else match start with
      | none => none
      | some key =>
        (s.eraseMacroBlock entryPoints H address length key).bind fun s =>
          eraseMacroBlocks address length last fuel s (s.blockRangeMap.next key)

def erasePhysicalRange (address length : ℕ) : Option Cache :=
  eraseMacroBlocks entryPoints H address length
    (s.blockRangeMap.lowerBound (wrap (address + length)))
    (s.blockRangeMap.keys.length + 1) s (s.blockRangeMap.lowerBound (macroBlock address))

def eraseSingleBlock (block : JitBlock) : Option Cache :=
  let s := s.removeFromRangeMap block.ptr block.physicalAddresses
  (s.destroyBlock entryPoints block).map fun s => s.eraseFromBlockMap block.ptr

/-- `Clear` destroys each block while the others are still in the map. -/
def clear : Option Cache :=
  (s.blockMap.foldlM
    (fun (s : Cache) b => (s.block? b.ptr).bind (s.destroyBlock entryPoints)) s).map fun s =>
    { s with
      blockMap := []
      linksTo := fun _ => []
      blockRangeMap := .empty
      validBlock := fun _ => false
      fastBlockMap := if entryPoints then fun _ => none else s.fastBlockMap }

/-! ## Invalidation -/

/-- `InvalidateICacheInternal` on a physical range. -/
def invalidateICacheInternal (physicalAddress length : ℕ) : Option Cache :=
  if length = 32 ∧ physicalAddress % 32 = 0 then
    if s.validBlock (physicalAddress / 32) = false then some s
    else
      ({ s with validBlock := Function.update s.validBlock (physicalAddress / 32) false }
        ).erasePhysicalRange entryPoints H physicalAddress length
  else if 32 < length then
    let coveredBlockStart := wrap (physicalAddress + 0x1f) / 32
    let coveredBlockEnd := wrap (physicalAddress + length) / 32
    ({ s with
      validBlock := fun i =>
        if coveredBlockStart ≤ i ∧ i < coveredBlockEnd then false else s.validBlock i }
      ).erasePhysicalRange entryPoints H physicalAddress length
  else s.erasePhysicalRange entryPoints H physicalAddress length

def batIndexShift : ℕ := 17
def hwPageIndexShift : ℕ := 12

/-- The loop of `InvalidateICache`: the physical ranges, page by page, that it passes on. -/
def pageRanges (tr : Translation) : ℕ → ℕ → ℕ → List (ℕ × ℕ)
  | 0, _, _ => []
  | fuel + 1, address, length =>
    if length = 0 then [] else
      let translated := tr address
      let addressFromBat := translated.valid && translated.translated && translated.fromBat
      let pageSize := 2 ^ (if addressFromBat then batIndexShift else hwPageIndexShift)
      let lastAddress := wrap (address + (length - 1))
      if address / pageSize = lastAddress / pageSize then
        if translated.valid then [(translated.address, length)] else []
      else
        let endOfPage := wrap (address + pageSize) / pageSize * pageSize
        let lengthThisPage := wrap (endOfPage + (2 ^ 32 - address))
        (if translated.valid then [(translated.address, lengthThisPage)] else []) ++
          pageRanges tr fuel (wrap (address + lengthThisPage)) (length - lengthThisPage)

/-- The physical ranges of an effective range. Each page takes at least one byte of it. -/
def icacheRanges (tr : Translation) (address length : ℕ) : List (ℕ × ℕ) :=
  pageRanges tr length address length

def invalidateICache (tr : Translation) (address length : ℕ) : Option Cache :=
  (icacheRanges tr address length).foldlM
    (fun s r => s.invalidateICacheInternal entryPoints H r.1 r.2) s

/-- The physical range of a cache line, if it is mapped. -/
def lineRange (tr : Translation) (address : ℕ) : List (ℕ × ℕ) :=
  let translated := tr (address / 32 * 32)
  if translated.valid then [(translated.address, 32)] else []

def invalidateICacheLine (tr : Translation) (address : ℕ) : Option Cache :=
  (lineRange tr address).foldlM (fun s r => s.invalidateICacheInternal entryPoints H r.1 r.2) s

/-! ## Lookup -/

def moveBlockIntoFastCache (tr : Translation) (addr featureFlags : ℕ) : Cache × Option JitBlock :=
  match s.getBlockFromStartAddress tr addr featureFlags with
  | none => (s, none)
  | some block =>
    let index := fastLookupIndexForAddress entryPoints addr featureFlags
    ((s.dropFastEntry entryPoints block).putFastEntry entryPoints block index, some block)

/-- `Dispatch`: the entry point that it returns, with the new state. -/
def dispatch (tr : Translation) (pc featureFlags : ℕ) : Option (Cache × Option ℕ) :=
  let slow := s.moveBlockIntoFastCache entryPoints tr pc featureFlags
  match s.fastBlockMap (fastLookupIndexForAddress entryPoints pc featureFlags) with
  | none => some (slow.1, slow.2.map JitBlock.normalEntry)
  | some v =>
    if entryPoints then some (s, some v)
    else (s.block? v).map fun block =>
      if block.effectiveAddress ≠ pc ∨ block.featureFlags ≠ featureFlags then
        (slow.1, slow.2.map JitBlock.normalEntry)
      else (s, some block.normalEntry)

end Cache

/-! ## Runs -/

inductive Action where
  /-- `AllocateBlock`, compilation, `FinalizeBlock`. The allocator picks `ptr`. -/
  | compile (tr : Translation) (emAddress featureFlags : ℕ) (ptr : BlockPtr) (blockLink : Bool)
      (code : Cache.Compiled)
  | invalidateICache (tr : Translation) (address length : ℕ)
  | invalidateICacheLine (tr : Translation) (address : ℕ)
  | erasePhysicalRange (address length : ℕ)
  | eraseSingleBlock (ptr : BlockPtr)
  | dispatch (tr : Translation) (pc featureFlags : ℕ)
  | clear

/-- The allocator does not hand out the address of a live block, the compiler gives the physical
addresses as an ordered set, and `EraseSingleBlock` is called on a live block. -/
def Possible (s : Cache) : Action → Prop
  | .compile _ _ _ ptr _ code =>
    s.block? ptr = none ∧ code.physicalAddresses.Pairwise (· < ·)
  | .eraseSingleBlock ptr => (s.block? ptr).isSome
  | _ => True

instance (s : Cache) (a : Action) : Decidable (Possible s a) := by
  cases a <;> unfold Possible <;> infer_instance

variable (entryPoints : Bool) (H : HashOrder)

/-- The state after an action that is possible, unless its behaviour is undefined. -/
def step (s : Cache) (a : Action) : Option Cache :=
  if Possible s a then
    match a with
    | .compile tr emAddress featureFlags ptr blockLink code =>
      (s.allocateBlock tr emAddress featureFlags ptr).finalizeBlock entryPoints tr ptr blockLink code
    | .invalidateICache tr address length => s.invalidateICache entryPoints H tr address length
    | .invalidateICacheLine tr address => s.invalidateICacheLine entryPoints H tr address
    | .erasePhysicalRange address length => s.erasePhysicalRange entryPoints H address length
    | .eraseSingleBlock ptr => (s.block? ptr).bind (s.eraseSingleBlock entryPoints)
    | .dispatch tr pc featureFlags => (s.dispatch entryPoints tr pc featureFlags).map Prod.fst
    | .clear => s.clear entryPoints
  else none

end JitCache
