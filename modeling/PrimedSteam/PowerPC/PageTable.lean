import Mathlib.Data.List.Basic
import Mathlib.Logic.Function.Basic
import Mathlib.Data.BitVec

/-!
# The page table

* `Mmu.tableUpdated`: `PageTableUpdated`, which scans a page table for what has changed since the last
  scan, and keeps the page mappings.
* `Mmu.findPte`: the walk of `TranslatePageAddress`.
-/

set_option autoImplicit false

namespace PowerPC

/-- `UPTE_Lo` -/
structure PteLo where
  v : Bool
  vsid : BitVec 24
  h : Bool
  api : BitVec 6
  deriving DecidableEq

/-- `UPTE_Hi` -/
structure PteHi where
  rpn : BitVec 20
  reserved2 : BitVec 3
  r : Bool
  c : Bool
  wimg : BitVec 4
  reserved1 : Bool
  pp : BitVec 2
  deriving DecidableEq

structure Pte where
  lo : PteLo
  hi : PteHi
  deriving DecidableEq

def PteLo.ofHex (hex : BitVec 32) : PteLo where
  v := hex.getLsbD 31
  vsid := hex.extractLsb' 7 24
  h := hex.getLsbD 6
  api := hex.extractLsb' 0 6

def PteHi.ofHex (hex : BitVec 32) : PteHi where
  rpn := hex.extractLsb' 12 20
  reserved2 := hex.extractLsb' 9 3
  r := hex.getLsbD 8
  c := hex.getLsbD 7
  wimg := hex.extractLsb' 3 4
  reserved1 := hex.getLsbD 2
  pp := hex.extractLsb' 0 2

/-- Eight zero bytes. -/
def Pte.zero : Pte := ⟨.ofHex 0, .ofHex 0⟩

/-- The bytes of a page table, eight at a time. -/
structure TableBytes where
  size : ℕ
  slot : ℕ → Pte

/-- A logical address with `offset` 0. -/
structure LogicalPage where
  sr : Fin 16
  pageIndex : BitVec 16
  deriving DecidableEq

def LogicalPage.hex (page : LogicalPage) : BitVec 32 :=
  BitVec.ofNat 4 page.sr ++ page.pageIndex ++ (0 : BitVec 12)

structure PageMapping where
  rpn : BitVec 20
  hostMapping : Bool
  priority : ℕ
  deriving DecidableEq

/-- What the scan and the walk read. -/
structure Mmu where
  pagetableBase : BitVec 32
  pagetableMask : BitVec 32
  /-- the segment registers -/
  sr : Fin 16 → BitVec 32
  /-- `BAT_MAPPED_BIT` in the data BAT table -/
  dbatMapped : BitVec 32 → Bool
  /-- `OverlapsMemcheck` for the bytes of a page -/
  overlapsMemcheck : BitVec 32 → Bool

def pageTableMinSize : ℕ := 0x10000

/-- `BAT_INDEX_SHIFT` -/
def batIndexShift : ℕ := 17

namespace Mmu

variable (mmu : Mmu)

/-- `UReg_SR` -/
def srVsid (i : Fin 16) : BitVec 24 := (mmu.sr i).extractLsb' 0 24

def srT (i : Fin 16) : Bool := (mmu.sr i).getLsbD 31

/-- `SDRUpdated` -/
def sdrUpdated (sdr : BitVec 32) : Mmu :=
  { mmu with
    pagetableBase := (sdr.extractLsb' 16 16).setWidth 32 <<< 16
    pagetableMask := ((sdr.extractLsb' 0 9).setWidth 32 <<< 16) ||| 0xFFC0 }

/-- `get_page_index` -/
def getPageIndex (pte1 : PteLo) (hash : BitVec 32) : Option (BitVec 16) :=
  let pageIndexFromHash :=
    if pte1.h then ~~~(hash ^^^ pte1.vsid.setWidth 32) else hash ^^^ pte1.vsid.setWidth 32
  let apiMask := ((mmu.pagetableMask &&& ~~~mmu.pagetableBase) >>> 16) &&& 0x3F
  if pte1.api.setWidth 32 &&& apiMask ≠ (pageIndexFromHash >>> 10) &&& apiMask then none
  else some (pte1.api ++ pageIndexFromHash.extractLsb' 0 10)

/-- The state of a scan. -/
structure Scan where
  /-- `m_page_table` -/
  oldTable : ℕ → Pte
  pageMappings : LogicalPage → Option PageMapping
  removedMappings : LogicalPage → Bool
  addedReadonlyMappings : LogicalPage → Option (BitVec 32)
  addedReadwriteMappings : LogicalPage → Option (BitVec 32)
  runPass2 : Bool

/-- The reserved bit of an entry is flipped if the entry has not changed. -/
def touch (newTable : ℕ → Pte) (slot : ℕ) (switchedToSecondary : Bool) (s : Scan) : Scan :=
  if s.oldTable slot = newTable slot then
    let pte := s.oldTable slot
    { s with
      oldTable := Function.update s.oldTable slot
        { pte with hi := { pte.hi with reserved1 := !pte.hi.reserved1 } }
      runPass2 := s.runPass2 || switchedToSecondary }
  else s

/-- The entries of a group from one on that are `pte1`. -/
def findShadowed (newTable : ℕ → Pte) (pte1 : PteLo) (slot : ℕ) : Option ℕ :=
  (List.range' slot (8 - slot % 8)).find? fun i => (newTable i).lo = pte1

/-- `fixup_shadowed_mappings` -/
def fixupShadowedMappings (newTable : ℕ → Pte) (pte1 : PteLo) (slot : ℕ) (s : Scan) : Scan :=
  match findShadowed newTable pte1 slot with
  | some i => touch newTable i false s
  | none =>
    if pte1.h then s
    else
      let ptegStart := BitVec.ofNat 32 (slot / 8 * 64)
      let pageTableOffset :=
        ((~~~ptegStart &&& mmu.pagetableMask) ||| mmu.pagetableBase) - mmu.pagetableBase
      match findShadowed newTable { pte1 with h := true } (pageTableOffset.toNat / 8) with
      | some i => touch newTable i true s
      | none => s

/-- Whether there is a host mapping for a page: not for uncached memory, not where a block address is
translated and not where memory is checked. -/
def hostMapping (pte2 : PteHi) (page : LogicalPage) : Bool :=
  if pte2.wimg &&& 0b1100 ≠ 0 then false
  else if mmu.dbatMapped (page.hex >>> batIndexShift) then false
  else if mmu.overlapsMemcheck page.hex then false
  else true

/-- A page that is in the map already keeps its address. -/
def emplace (map : LogicalPage → Option (BitVec 32)) (page : LogicalPage) (address : BitVec 32) :
    LogicalPage → Option (BitVec 32) :=
  Function.update map page ((map page).or (some address))

/-- `priority`; a small one wins. -/
def entryPriority (pte1 : PteLo) (slot : ℕ) : ℕ := slot % 8 ||| (if pte1.h then 8 else 0)

/-- A mapping is put into the maps. If the page was referenced, it is mapped on the host too. -/
def putMapping (pte2 : PteHi) (page : LogicalPage) (mapping : PageMapping) (s : Scan) : Scan :=
  let s := { s with pageMappings := Function.update s.pageMappings page (some mapping) }
  if mapping.hostMapping && pte2.r then
    let physicalAddress := pte2.rpn.setWidth 32 <<< 12
    if pte2.c then
      { s with addedReadwriteMappings := emplace s.addedReadwriteMappings page physicalAddress }
    else { s with addedReadonlyMappings := emplace s.addedReadonlyMappings page physicalAddress }
  else s

/-- The body of the loop of `try_add_mapping` over the segment registers. -/
def addMapping (pte : Pte) (slot : ℕ) (pageIndex : BitVec 16) (s : Scan) (i : Fin 16) : Scan :=
  if mmu.srVsid i ≠ pte.lo.vsid ∨ mmu.srT i then s
  else
    let page : LogicalPage := ⟨i, pageIndex⟩
    let mapping : PageMapping :=
      ⟨pte.hi.rpn, mmu.hostMapping pte.hi page, entryPriority pte.lo slot⟩
    match s.pageMappings page with
    | none => putMapping pte.hi page mapping s
    | some existing =>
      if existing.priority < mapping.priority then s
      else if existing.hostMapping then
        putMapping pte.hi page mapping
          { s with removedMappings := Function.update s.removedMappings page true }
      else putMapping pte.hi page mapping s

/-- `try_add_mapping` -/
def tryAddMapping (pte : Pte) (slot : ℕ) (s : Scan) : Scan :=
  match mmu.getPageIndex pte.lo (BitVec.ofNat 32 (slot / 8)) with
  | none => s
  | some pageIndex => (List.finRange 16).foldl (mmu.addMapping pte slot pageIndex) s

/-- The body of the loop over the segment registers that removes old mappings. -/
def removeMapping (newTable : ℕ → Pte) (pte1 : PteLo) (slot : ℕ) (pageIndex : BitVec 16) (s : Scan)
    (i : Fin 16) : Scan :=
  if mmu.srVsid i ≠ pte1.vsid ∨ mmu.srT i then s
  else
    let page : LogicalPage := ⟨i, pageIndex⟩
    match s.pageMappings page with
    | none => s
    | some existing =>
      if existing.priority = entryPriority pte1 slot then
        mmu.fixupShadowedMappings newTable pte1 slot
          { s with
            removedMappings :=
              if existing.hostMapping then Function.update s.removedMappings page true
              else s.removedMappings
            pageMappings := Function.update s.pageMappings page none }
      else s

/-- The removal of the old mappings of an entry; `none` where the loop goes on with the next entry. -/
def removeOld (newTable : ℕ → Pte) (slot : ℕ) (s : Scan) : Option Scan :=
  let oldPte1 := (s.oldTable slot).lo
  if oldPte1.v then
    (mmu.getPageIndex oldPte1 (BitVec.ofNat 32 (slot / 8))).map fun pageIndex =>
      (List.finRange 16).foldl (mmu.removeMapping newTable oldPte1 slot pageIndex) s
  else some s

/-- The copy of an entry is updated. -/
def copySlot (newTable : ℕ → Pte) (slot : ℕ) (s : Scan) : Scan :=
  { s with oldTable := Function.update s.oldTable slot (newTable slot) }

/-- Pass 1 for an entry. -/
def pass1Slot (newTable : ℕ → Pte) (s : Scan) (slot : ℕ) : Scan :=
  if s.oldTable slot = newTable slot then s
  else
    match mmu.removeOld newTable slot s with
    | none => s
    | some s =>
      let new := newTable slot
      if new.lo.v then
        if new.lo.h then { s with runPass2 := true }
        else copySlot newTable slot (mmu.tryAddMapping new slot s)
      else copySlot newTable slot s

/-- Pass 2 for an entry. -/
def pass2Slot (newTable : ℕ → Pte) (s : Scan) (slot : ℕ) : Scan :=
  if s.oldTable slot = newTable slot then s
  else copySlot newTable slot (mmu.tryAddMapping (newTable slot) slot s)

/-- The loop over a group of eight entries, which is left out if none has changed. -/
def scanGroup (newTable : ℕ → Pte) (pass : Scan → ℕ → Scan) (s : Scan) (group : ℕ) : Scan :=
  if ∀ k < 8, s.oldTable (8 * group + k) = newTable (8 * group + k) then s
  else (List.range' (8 * group) 8).foldl pass s

/-- The loops look at the 64 KiB from `i` on. -/
def Visits (i : ℕ) : Prop :=
  BitVec.ofNat 32 i &&& mmu.pagetableMask = BitVec.ofNat 32 i ∧
    BitVec.ofNat 32 i &&& mmu.pagetableBase = 0

instance (i : ℕ) : Decidable (mmu.Visits i) := inferInstanceAs (Decidable (_ ∧ _))

/-- The groups in the order in which the loops visit them. -/
def groups (size : ℕ) : List ℕ :=
  ((List.range (size / pageTableMinSize)).filter fun a => mmu.Visits (a * pageTableMinSize)).flatMap
    fun a => List.range' (a * 1024) 1024

/-- The two passes. -/
def scan (table : TableBytes) (s : Scan) : Scan :=
  let s := (mmu.groups table.size).foldl (scanGroup table.slot (mmu.pass1Slot table.slot)) s
  if s.runPass2 then
    (mmu.groups table.size).foldl (scanGroup table.slot (mmu.pass2Slot table.slot)) s
  else s

end Mmu

/-- `m_page_table` and `m_page_mappings`. -/
structure PageTables where
  pageTable : TableBytes
  pageMappings : LogicalPage → Option PageMapping

/-- `ClearPageTable` -/
def PageTables.cleared : PageTables := ⟨⟨0, fun _ => .zero⟩, fun _ => none⟩

namespace Mmu

variable (mmu : Mmu)

/-- `PageTableUpdated` for the bytes of a page table. -/
def tableUpdated (table : TableBytes) (t : PageTables) : PageTables :=
  if table.size % pageTableMinSize ≠ 0 then .cleared
  else
    let t := if t.pageTable.size = table.size then t
      else ⟨⟨table.size, fun _ => .zero⟩, fun _ => none⟩
    let s := mmu.scan table
      { oldTable := t.pageTable.slot
        pageMappings := t.pageMappings
        removedMappings := fun _ => false
        addedReadonlyMappings := fun _ => none
        addedReadwriteMappings := fun _ => none
        runPass2 := false }
    ⟨⟨table.size, s.oldTable⟩, s.pageMappings⟩

/-- The size of the page table in memory. -/
def tableSize : BitVec 32 :=
  let pageTableEnd := ((mmu.pagetableBase ||| mmu.pagetableMask) + 0xFFFF) &&& ~~~0xFFFF
  pageTableEnd - mmu.pagetableBase

/-- The words of memory. -/
abbrev Words := BitVec 32 → BitVec 32

/-- The page table that `PageTableUpdated` reads from memory. -/
def tableInMemory (memory : Words) : TableBytes where
  size := mmu.tableSize.toNat
  slot i :=
    ⟨.ofHex (memory (mmu.pagetableBase + BitVec.ofNat 32 (8 * i))),
      .ofHex (memory (mmu.pagetableBase + BitVec.ofNat 32 (8 * i) + 4))⟩

/-- The walk over a group; the address of the entry that is found, with the entry. -/
def searchGroup (memory : Words) (pte1 : PteLo) : ℕ → BitVec 32 → Option (BitVec 32 × PteHi)
  | 0, _ => none
  | n + 1, ptegAddr =>
    if pte1 = .ofHex (memory ptegAddr) then some (ptegAddr, .ofHex (memory (ptegAddr + 4)))
    else searchGroup memory pte1 n (ptegAddr + 8)

/-- `pteg_addr` -/
def ptegAddr (hash : BitVec 32) : BitVec 32 :=
  ((hash <<< 6) &&& mmu.pagetableMask) ||| mmu.pagetableBase

/-- The walk of `TranslatePageAddress` for a page: the entry that is found and its priority. The second
hash function is used if the first one finds no entry. -/
def findPte (memory : Words) (page : LogicalPage) : Option (PteHi × ℕ) :=
  let vsid := mmu.srVsid page.sr
  let hash := vsid.setWidth 32 ^^^ page.pageIndex.setWidth 32
  let pte1 : PteLo := ⟨true, vsid, false, page.pageIndex.extractLsb' 10 6⟩
  let first := searchGroup memory pte1 8 (mmu.ptegAddr hash)
  let second := searchGroup memory { pte1 with h := true } 8 (mmu.ptegAddr (~~~hash))
  (first.map fun (ptegAddr, pte2) => (pte2, ptegAddr.toNat % 64 / 8)).or
    (second.map fun (ptegAddr, pte2) => (pte2, ptegAddr.toNat % 64 / 8 ||| 8))

end Mmu

end PowerPC
