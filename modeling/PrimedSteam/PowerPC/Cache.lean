import Mathlib.Algebra.Order.Group.Multiset
import Mathlib.Tactic.Abel
import Mathlib.Logic.Function.Basic

/-!
# The cache of the emulated PowerPC

`Cache` of `PPCCache.cpp`: 128 sets of eight ways with lines of 32 bytes, pseudo-LRU replacement, and
three tables that say in which way a line is.

The bits of a byte of `valid` and of `modified` are given one by one, and a table entry of `0xff` is
`none`. The last fields of a state are its history, which no operation reads: the writes to a byte, newest
first, that are only in the cache, those that are in memory, and the last way used in a set.
-/

set_option autoImplicit false

namespace PowerPC.Cache

abbrev Byte := BitVec 8

def cacheSets : ℕ := 128
def cacheWays : ℕ := 8
def lineSize : ℕ := 32

/-! ## Addresses -/

/-- The sizes of the memories, in whole lines, and of the powers of two that are allocated for them. -/
structure Layout where
  ramSize : ℕ
  ramBits : ℕ
  exRamSize : ℕ
  exRamBits : ℕ
  ram_lines : 32 ∣ ramSize
  ram_le : ramSize ≤ 2 ^ ramBits
  ramBits_le : ramBits ≤ 28
  exRam_lines : 32 ∣ exRamSize
  exRam_le : exRamSize ≤ 2 ^ exRamBits
  exRamBits_le : exRamBits ≤ 28

inductive Table where
  | ram | exRam | vMem
  deriving DecidableEq

/-- The bits `CACHE_VMEM_BIT` and `CACHE_EXRAM_BIT`. -/
def tableOf (addr : ℕ) : Table :=
  if addr / 2 ^ 29 % 2 = 1 then .vMem else if addr / 2 ^ 28 % 2 = 1 then .exRam else .ram

def Layout.bits (layout : Layout) : Table → ℕ
  | .ram => layout.ramBits
  | .exRam => layout.exRamBits
  | .vMem => 25

/-- The table entry of an address; the masks of the memories are one less than their sizes. -/
def Layout.key (layout : Layout) (addr : ℕ) : Table × ℕ :=
  (tableOf addr, addr % 2 ^ layout.bits (tableOf addr) / lineSize)

def Layout.InRam (layout : Layout) (addr : ℕ) : Prop :=
  addr < layout.ramSize ∨ (2 ^ 28 ≤ addr ∧ addr < 2 ^ 28 + layout.exRamSize)

def InFakeVMem (addr : ℕ) : Prop := 0x7E000000 ≤ addr ∧ addr < 0x80000000

/-- `GetSpanForAddress` has memory for the address. -/
def Layout.mapped (layout : Layout) (addr : ℕ) : Bool :=
  addr % 2 ^ 30 < layout.ramSize ||
    (addr % 2 ^ 30 / 2 ^ 28 == 1 && addr % 2 ^ 28 < layout.exRamSize)

def lineAddr (addr : ℕ) : ℕ := addr / lineSize * lineSize

def setOf (addr : ℕ) : ℕ := addr / lineSize % cacheSets

/-! ## Replacement -/

def plruMask (way : ℕ) : BitVec 8 := [11, 11, 19, 19, 37, 37, 69, 69].getD way 0

def plruValue (way : ℕ) : BitVec 8 := [11, 3, 17, 1, 36, 4, 64, 0].getD way 0

/-- `s_way_from_plru` -/
def wayFromPlru (plru : BitVec 8) : ℕ :=
  if plru.getLsbD 0 then
    if plru.getLsbD 2 then if plru.getLsbD 6 then 7 else 6 else if plru.getLsbD 5 then 5 else 4
  else if plru.getLsbD 1 then if plru.getLsbD 4 then 3 else 2
  else if plru.getLsbD 3 then 1 else 0

def nextPlru (plru : BitVec 8) (way : ℕ) : BitVec 8 := plru &&& ~~~plruMask way ||| plruValue way

/-! ## States -/

structure State where
  data : ℕ → ℕ → ℕ → Byte
  addrs : ℕ → ℕ → ℕ
  plru : ℕ → BitVec 8
  valid : ℕ → ℕ → Bool
  modified : ℕ → ℕ → Bool
  lookup : Table × ℕ → Option ℕ
  memory : ℕ → Byte
  unsaved : ℕ → List Byte
  saved : ℕ → List Byte
  recent : ℕ → Option ℕ

/-- A new value at a place of an array of sets and ways. -/
def setAt {α : Type*} (f : ℕ → ℕ → α) (set way : ℕ) (x : α) : ℕ → ℕ → α :=
  fun s w => if s = set ∧ w = way then x else f s w

namespace State

variable (layout : Layout) (m : State)

/-- `Reset` -/
def reset : State :=
  { m with
    valid := fun _ _ => false, plru := fun _ => 0, modified := fun _ _ => false,
    lookup := fun _ => none, recent := fun _ => none }

/-- `CopyToEmu` of a line, which does nothing if there is no memory for it. -/
def copyToEmu (addr : ℕ) (line : ℕ → Byte) : State :=
  if layout.mapped addr then
    { m with
      memory := fun a => if lineAddr a = addr then line (a % lineSize) else m.memory a
      saved := fun a => if lineAddr a = addr then m.unsaved a ++ m.saved a else m.saved a
      unsaved := fun a => if lineAddr a = addr then [] else m.unsaved a }
  else m

def clearLookup (addr : ℕ) : State :=
  { m with lookup := Function.update m.lookup (layout.key addr) none }

/-- The lowest way that is not valid, else the one of the pseudo-LRU bits. -/
def selectWay (set : ℕ) : ℕ :=
  ((List.range cacheWays).find? fun way => !m.valid set way).getD (wayFromPlru (m.plru set))

/-- Makes room in a way. -/
def evict (set way : ℕ) : State :=
  if m.valid set way then
    let m := if m.modified set way then m.copyToEmu layout (m.addrs set way) (m.data set way) else m
    m.clearLookup layout (m.addrs set way)
  else m

def load (addr set way : ℕ) : State :=
  { m with
    data :=
      if layout.mapped addr then setAt m.data set way fun offset => m.memory (addr + offset) else m.data
    lookup := Function.update m.lookup (layout.key addr) (some way)
    addrs := setAt m.addrs set way addr
    valid := setAt m.valid set way true
    modified := setAt m.modified set way false }

def updatePlru (set way : ℕ) : State :=
  { m with
    plru := Function.update m.plru set (nextPlru (m.plru set) way)
    recent := Function.update m.recent set (some way) }

/-- `GetCache`, with the address of the line. -/
def getCache (addr : ℕ) (locked : Bool) : Option ℕ × State :=
  let addr := lineAddr addr
  let set := setOf addr
  match m.lookup (layout.key addr) with
  | some way => (some way, m.updatePlru set way)
  | none =>
    if locked then (none, m)
    else
      let way := m.selectWay set
      (some way, ((m.evict layout set way).load layout addr set way).updatePlru set way)

/-- `Store` -/
def store (addr : ℕ) : State :=
  let set := setOf addr
  match m.getCache layout addr true with
  | (none, m) => m
  | (some way, m) =>
    let m :=
      if m.valid set way && m.modified set way then m.copyToEmu layout (lineAddr addr) (m.data set way) else m
    { m with modified := setAt m.modified set way false }

/-- The way is no longer valid. -/
def dropWay (set way : ℕ) : State :=
  { m.clearLookup layout (m.addrs set way) with
    valid := setAt m.valid set way false
    modified := setAt m.modified set way false }

/-- The writes to a line that are only in the cache are lost. -/
def discard (addr : ℕ) : State :=
  { m with unsaved := fun a => if lineAddr a = addr then [] else m.unsaved a }

/-- `Invalidate` -/
def invalidate (addr : ℕ) : State :=
  let set := setOf addr
  match m.getCache layout addr true with
  | (none, m) => m
  | (some way, m) =>
    if m.valid set way then (m.dropWay layout set way).discard (m.addrs set way) else m

/-- `Flush` -/
def flush (addr : ℕ) : State :=
  let set := setOf addr
  match m.getCache layout addr true with
  | (none, m) => m
  | (some way, m) =>
    if m.valid set way then
      let m := if m.modified set way then m.copyToEmu layout (lineAddr addr) (m.data set way) else m
      m.dropWay layout set way
    else m

/-- `Touch` -/
def touch (addr : ℕ) : State := (m.getCache layout addr false).2

/-- All sets and ways, in the order of the loops. -/
def slots : List (ℕ × ℕ) :=
  (List.range cacheSets).flatMap fun set => (List.range cacheWays).map fun way => (set, way)

/-- One iteration of `FlushAll`. -/
def flushSlot (slot : ℕ × ℕ) : State :=
  if m.valid slot.1 slot.2 && m.modified slot.1 slot.2 then
    m.copyToEmu layout (m.addrs slot.1 slot.2) (m.data slot.1 slot.2)
  else m

/-- `FlushAll` -/
def flushAll : State := (slots.foldl (flushSlot layout) m).reset

/-- The bytes of one iteration of `Read`. Where there is no memory, the buffer keeps what it has. -/
def readLine (addr len : ℕ) (locked : Bool) : List Byte × State :=
  match m.getCache layout addr locked with
  | (some way, m) =>
    ((List.range len).map fun i => m.data (setOf addr) way (addr % lineSize + i), m)
  | (none, m) =>
    ((List.range len).map fun i => if layout.mapped addr then m.memory (addr + i) else 0, m)

def writeSlot (set way addr : ℕ) (bytes : List Byte) : State :=
  { m with
    data := setAt m.data set way fun offset =>
      if addr % lineSize ≤ offset ∧ offset < addr % lineSize + bytes.length then
        bytes.getD (offset - addr % lineSize) 0
      else m.data set way offset
    modified := setAt m.modified set way true
    unsaved := fun a =>
      if addr ≤ a ∧ a < addr + bytes.length then bytes.getD (a - addr) 0 :: m.unsaved a
      else m.unsaved a }

def writeMemory (addr : ℕ) (bytes : List Byte) : State :=
  if layout.mapped addr then
    { m with
      memory := fun a =>
        if addr ≤ a ∧ a < addr + bytes.length then bytes.getD (a - addr) 0 else m.memory a
      saved := fun a =>
        if addr ≤ a ∧ a < addr + bytes.length then bytes.getD (a - addr) 0 :: m.saved a
        else m.saved a }
  else m

/-- One iteration of `Write`. -/
def writeLine (addr : ℕ) (bytes : List Byte) (locked : Bool) : State :=
  match m.getCache layout addr locked with
  | (some way, m) => m.writeSlot (setOf addr) way addr bytes
  | (none, m) => m.writeMemory layout addr bytes

end State

/-- What is left of a line from an address on. -/
def restOfLine (addr : ℕ) : ℕ := lineSize - addr % lineSize

/-- `Read`. Each iteration reads a byte or more. -/
def read (layout : Layout) : (fuel addr len : ℕ) → Bool → State → List Byte × State
  | 0, _, _, _, m => ([], m)
  | fuel + 1, addr, len, locked, m =>
    if len = 0 then ([], m)
    else
      let count := min len (restOfLine addr)
      let (bytes, m) := m.readLine layout addr count locked
      let (rest, m) := read layout fuel (addr + count) (len - count) locked m
      (bytes ++ rest, m)

/-- `Write` -/
def write (layout : Layout) : (fuel addr : ℕ) → List Byte → Bool → State → State
  | 0, _, _, _, m => m
  | fuel + 1, addr, bytes, locked, m =>
    if bytes = [] then m
    else
      let count := min bytes.length (restOfLine addr)
      write layout fuel (addr + count) (bytes.drop count) locked
        (m.writeLine layout addr (bytes.take count) locked)

/-- `DoState` when a state is loaded: the table entries of the valid ways are cleared, the arrays are
replaced, and the entries are made again. The memory comes from the same state. -/
def loadState (layout : Layout) (m saved : State) : State :=
  let cleared := State.slots.foldl (fun lookup slot =>
    if m.valid slot.1 slot.2 then Function.update lookup (layout.key (m.addrs slot.1 slot.2)) none
    else lookup) m.lookup
  { saved with
    lookup := State.slots.foldl (fun lookup slot =>
      if saved.valid slot.1 slot.2 then
        Function.update lookup (layout.key (saved.addrs slot.1 slot.2)) (some slot.2)
      else lookup) cleared }

/-! ## Runs -/

inductive Operation where
  | read (addr len : ℕ) (locked : Bool)
  | write (addr : ℕ) (bytes : List Byte) (locked : Bool)
  | store (addr : ℕ)
  | flush (addr : ℕ)
  | invalidate (addr : ℕ)
  | touch (addr : ℕ)
  | flushAll
  | saveState
  | loadState

/-- The system: the cache with the memory, and a saved state. -/
structure System where
  state : State
  savedState : Option State

def step (layout : Layout) (s : System) : Operation → Option System
  | .read addr len locked => some { s with state := (read layout len addr len locked s.state).2 }
  | .write addr bytes locked =>
    some { s with state := write layout bytes.length addr bytes locked s.state }
  | .store addr => some { s with state := s.state.store layout addr }
  | .flush addr => some { s with state := s.state.flush layout addr }
  | .invalidate addr => some { s with state := s.state.invalidate layout addr }
  | .touch addr => some { s with state := s.state.touch layout addr }
  | .flushAll => some { s with state := s.state.flushAll layout }
  | .saveState => some { s with savedState := some s.state }
  | .loadState => s.savedState.map fun saved => { s with state := loadState layout s.state saved }

/-- The addresses of the operation are in RAM, EXRAM or FakeVMEM. -/
def InsideMemory (layout : Layout) (_ : System) : Operation → Prop
  | .read addr len _ => ∀ i < len, layout.InRam (addr + i) ∨ InFakeVMem (addr + i)
  | .write addr bytes _ => ∀ i < bytes.length, layout.InRam (addr + i) ∨ InFakeVMem (addr + i)
  | .store addr | .flush addr | .invalidate addr | .touch addr => layout.InRam addr ∨ InFakeVMem addr
  | .flushAll | .saveState | .loadState => True

/-- What may bring a line into the cache is in RAM or EXRAM. -/
def AvoidsFakeVMem (layout : Layout) (_ : System) : Operation → Prop
  | .read addr len _ => ∀ i < len, layout.InRam (addr + i)
  | .write addr bytes _ => ∀ i < bytes.length, layout.InRam (addr + i)
  | .touch addr => layout.InRam addr
  | .store addr | .flush addr | .invalidate addr => layout.InRam addr ∨ InFakeVMem addr
  | .flushAll | .saveState | .loadState => True

/-- After `Init`, with some memory. -/
def start (memory : ℕ → Byte) : System :=
  ⟨State.reset ⟨fun _ _ _ => 0, fun _ _ => 0, fun _ => 0, fun _ _ => false, fun _ _ => false,
    fun _ => none, memory, fun _ => [], fun _ => [], fun _ => none⟩, none⟩

end PowerPC.Cache
