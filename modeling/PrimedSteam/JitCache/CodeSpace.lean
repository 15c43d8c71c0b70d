import Mathlib.Algebra.GroupWithZero.Nat
import PrimedSteam.Lib.Transition
import PrimedSteam.JitCache.RangeSizeSet

/-!
# Code space

Compiled blocks take memory from the free ranges of a code region. The memory of a destroyed block is kept back until
the next block is compiled, since it may still be running.

* `Pool`: the free ranges of a region and the ranges kept back. `Pool.Accounted`: every byte of the region is free,
  kept back or in a block, and is so once.
* `Jit64`: the recompiler, which has a near and a far region.
* **`Jit64.reach_once`**: the accounts in every state reached.
* **`Jit64.reach_writes_free`**: what is written while a block is compiled is in no other block.
* **`Jit64.reach_attempt_eq_false_iff`**, **`Jit64.jit_eq_none_iff`**: when a block is not compiled.
-/

set_option autoImplicit false

namespace CodeSpace

open HyoutaUtilities HyoutaUtilities.RangeSizeSet

/-- `region` and `region + region_size` -/
structure Region where
  start : ℕ
  stop : ℕ

def calcSize (start stop : ℕ) : ℕ := stop - start

/-- The free ranges, and the ranges that are free from the next compilation on. -/
structure Pool where
  freeRanges : RangeSizeSet ℕ
  rangesToFree : List (ℕ × ℕ)

namespace Pool

variable (p : Pool)

def clearRangesToFree : Pool := { p with rangesToFree := [] }

def resetFreeMemoryRanges (region : Region) : Pool :=
  { p with freeRanges := (RangeSizeSet.empty : RangeSizeSet ℕ).insert calcSize region.start region.stop }

/-- `FreeRanges` -/
def freeKept : Pool := ⟨p.rangesToFree.foldl (fun free range =>
    free.insert calcSize range.1 range.2) p.freeRanges, []⟩

/-- `DestroyBlock` -/
def destroy (range : ℕ × ℕ) : Pool :=
  if range.1 ≠ range.2 then { p with rangesToFree := p.rangesToFree ++ [range] } else p

/-- The range of a new block -/
def use (range : ℕ × ℕ) : Pool :=
  if range.1 ≠ range.2 then { p with freeRanges := p.freeRanges.erase calcSize range.1 range.2 } else p

/-- `by_size_begin` -/
def largest : Option (ℕ × ℕ) := p.freeRanges.sizes.head?.map fun entry => (entry.2, p.freeRanges.map.get entry.2)

/-- A free range has room for some bytes. -/
def HasRoom (bytes : ℕ) : Prop := ∃ k ∈ p.freeRanges.map.keys, bytes ≤ p.freeRanges.map.get k - k

end Pool

/-! ## Accounts -/

def holds (address : ℕ) (range : ℕ × ℕ) : Bool := decide (range.1 ≤ address ∧ address < range.2)

/-- The holders of an address among the free ranges, those kept back and the blocks. -/
def Pool.holders (p : Pool) (live : List (ℕ × ℕ)) (address : ℕ) : ℕ :=
  (if p.freeRanges.contains address then 1 else 0) + p.rangesToFree.countP (holds address) +
    live.countP (holds address)

/-- Every address of the region has one holder, and no other address has one. -/
structure Pool.Accounted (region : Region) (p : Pool) (live : List (ℕ × ℕ)) : Prop where
  apart : Apart p.freeRanges.map
  indexed : Indexed calcSize p.freeRanges
  once : ∀ address, p.holders live address = if region.start ≤ address ∧ address < region.stop then 1 else 0

namespace Pool

variable {region : Region} {p : Pool} {live live' : List (ℕ × ℕ)} {range : ℕ × ℕ}

theorem countP_holds_cons (address : ℕ) (range : ℕ × ℕ) (ranges : List (ℕ × ℕ)) :
    (range :: ranges).countP (holds address) =
      (if range.1 ≤ address ∧ address < range.2 then 1 else 0) + ranges.countP (holds address) := by
  rw [List.countP_cons, add_comm]
  simp only [holds, decide_eq_true_eq]

theorem accounted_reset (region : Region) (p : Pool) :
    Accounted region (p.clearRangesToFree.resetFreeMemoryRanges region) [] := by
  have hempty : Represents calcSize (empty : RangeSizeSet ℕ) ∅ := represents_empty
  have hadds := insert_spec calcSize hempty.apart hempty.indexed region.start region.stop
  refine ⟨hadds.apart, hadds.indexed, fun address => ?_⟩
  have hiff : (RangeSizeSet.insert calcSize empty region.start region.stop).contains address = true ↔
      region.start ≤ address ∧ address < region.stop := by
    rw [contains_iff hadds.apart, hadds.covers_iff, hempty.covers_iff]
    exact or_iff_right (Set.notMem_empty address)
  change (if (RangeSizeSet.insert calcSize empty region.start region.stop).contains address = true then 1 else 0) + 0
    + 0 = _
  simp only [hiff, add_zero]

theorem Accounted.insert {kept : List (ℕ × ℕ)} {free : RangeSizeSet ℕ}
    (h : Accounted region ⟨free, range :: kept⟩ live) :
    Accounted region ⟨free.insert calcSize range.1 range.2, kept⟩ live := by
  have hadds := insert_spec calcSize h.apart h.indexed range.1 range.2
  refine ⟨hadds.apart, hadds.indexed, fun address => ?_⟩
  have honce := h.once address
  rw [holders, countP_holds_cons] at honce
  rw [holders, ← honce]
  have hiff : (free.insert calcSize range.1 range.2).contains address = true ↔
      free.contains address = true ∨ (range.1 ≤ address ∧ address < range.2) := by
    rw [contains_iff hadds.apart, hadds.covers_iff, contains_iff h.apart]
  -- an address of the range was not free before
  have hle : (if free.contains address = true then 1 else 0) +
    ((if range.1 ≤ address ∧ address < range.2 then 1 else 0) +
      kept.countP (holds address)) + live.countP (holds address) ≤ 1 := by
    rw [honce]
    split_ifs <;> omega
  dsimp only
  simp only [hiff]
  split_ifs at hle ⊢ <;> first | omega | tauto

theorem Accounted.freeKept (h : Accounted region p live) : Accounted region p.freeKept live := by
  obtain ⟨free, kept⟩ := p
  rw [Pool.freeKept]
  induction kept generalizing free with
  | nil => exact h
  | cons range kept ih => exact ih _ h.insert

theorem Accounted.destroy (h : Accounted region p live)
    (hlive : ∀ address, live.countP (holds address) = (range :: live').countP (holds address)) :
    Accounted region (p.destroy range) live' := by
  rw [Pool.destroy]
  split_ifs with hne
  · refine ⟨h.apart, h.indexed, fun address => ?_⟩
    rw [← h.once address, holders, holders, hlive, List.countP_append, List.countP_singleton, countP_holds_cons]
    simp only [holds, decide_eq_true_eq]
    omega
  · refine ⟨h.apart, h.indexed, fun address => ?_⟩
    have hout : ¬(range.1 ≤ address ∧ address < range.2) := by omega
    rw [← h.once address, holders, holders, hlive, countP_holds_cons, if_neg hout, zero_add]

theorem Accounted.use (h : Accounted region p live)
    (hfree : ∀ address, range.1 ≤ address → address < range.2 → p.freeRanges.contains address = true) :
    Accounted region (p.use range) (range :: live) := by
  rw [Pool.use]
  split_ifs with hne
  · have hremoves := erase_spec h.apart h.indexed range.1 range.2
    refine ⟨hremoves.apart, hremoves.indexed, fun address => ?_⟩
    have hiff : (p.freeRanges.erase calcSize range.1 range.2).contains address = true ↔
        p.freeRanges.contains address = true ∧ ¬(range.1 ≤ address ∧ address < range.2) := by
      rw [contains_iff hremoves.apart, hremoves.covers_iff, contains_iff h.apart]
    rw [← h.once address, holders, holders, countP_holds_cons]
    dsimp only
    simp only [hiff]
    by_cases hin : range.1 ≤ address ∧ address < range.2
    · rw [if_neg fun hand => hand.2 hin, if_pos hin, if_pos (hfree address hin.1 hin.2)]
      omega
    · simp only [hin, not_false_eq_true, and_true, if_false, zero_add]
  · refine ⟨h.apart, h.indexed, fun address => ?_⟩
    have hout : ¬(range.1 ≤ address ∧ address < range.2) := by omega
    rw [← h.once address, holders, holders, countP_holds_cons, if_neg hout, zero_add]

theorem Accounted.of_free (h : Accounted region p live) {address : ℕ}
    (hfree : p.freeRanges.contains address = true) :
    (region.start ≤ address ∧ address < region.stop) ∧
      (∀ range ∈ live, ¬(range.1 ≤ address ∧ address < range.2)) := by
  have honce := h.once address
  rw [holders, if_pos hfree] at honce
  have hregion : region.start ≤ address ∧ address < region.stop := by
    by_contra hout
    rw [if_neg hout] at honce
    omega
  rw [if_pos hregion] at honce
  have hnone : live.countP (holds address) = 0 := by omega
  refine ⟨hregion, fun range hrange hin => ?_⟩
  exact absurd (decide_eq_true hin) (by simpa [holds] using List.countP_eq_zero.mp hnone range hrange)

/-- The range the index has first is free, and no free range is larger. -/
theorem Accounted.largest_spec (h : Accounted region p live) (hlargest : p.largest = some range) :
    range.1 < range.2 ∧ (∀ address, range.1 ≤ address → address < range.2 → p.freeRanges.contains address = true) ∧
      ∀ k ∈ p.freeRanges.map.keys, p.freeRanges.map.get k - k ≤ range.2 - range.1 := by
  rw [largest, Option.map_eq_some_iff] at hlargest
  obtain ⟨entry, hhead, rfl⟩ := hlargest
  obtain ⟨rest, hsizes⟩ := List.head?_eq_some_iff.mp hhead
  obtain ⟨hmem, hsize⟩ := (h.indexed.mem_iff entry.1 entry.2).mp (by rw [hsizes]; exact List.mem_cons_self)
  have hsorted := h.indexed.sorted
  rw [hsizes] at hsorted
  refine ⟨h.apart.nonempty entry.2 hmem, fun address hle hlt => ?_, fun k hk => ?_⟩
  · exact (contains_iff h.apart address).mpr ⟨entry.2, hmem, hle, hlt⟩
  · have hentry := (h.indexed.mem_iff _ k).mpr ⟨hk, rfl⟩
    rw [hsizes] at hentry
    change calcSize k (p.freeRanges.map.get k) ≤ calcSize entry.2 (p.freeRanges.map.get entry.2)
    rw [← hsize]
    rcases List.mem_cons.mp hentry with heq | hrest
    · rw [← heq]
    · exact (List.pairwise_cons.mp hsorted).1 _ hrest

theorem Accounted.hasRoom_iff (h : Accounted region p live) (hlargest : p.largest = some range) (bytes : ℕ) :
    p.HasRoom bytes ↔ bytes ≤ range.2 - range.1 := by
  refine ⟨fun ⟨k, hk, hle⟩ => hle.trans ((h.largest_spec hlargest).2.2 k hk), fun hle => ?_⟩
  rw [largest, Option.map_eq_some_iff] at hlargest
  obtain ⟨entry, hhead, rfl⟩ := hlargest
  exact ⟨entry.2, ((h.indexed.mem_iff entry.1 entry.2).mp (List.mem_of_mem_head? hhead)).1, hle⟩

theorem Accounted.largest_eq_none (h : Accounted region p live) :
    p.largest = none ↔ p.freeRanges.map.keys = [] := by
  rw [largest, Option.map_eq_none_iff, List.head?_eq_none_iff]
  constructor
  · intro hsizes
    refine List.eq_nil_iff_forall_not_mem.mpr fun k hk => ?_
    have hentry := (h.indexed.mem_iff _ k).mpr ⟨hk, rfl⟩
    rw [hsizes] at hentry
    exact List.not_mem_nil hentry
  · intro hkeys
    refine List.eq_nil_iff_forall_not_mem.mpr fun entry hentry => ?_
    have hk := ((h.indexed.mem_iff entry.1 entry.2).mp hentry).1
    rw [hkeys] at hk
    exact List.not_mem_nil hk

/-- The only free range of a region that was reset is the whole region. -/
theorem largest_reset (h : region.start < region.stop) (p : Pool) :
    (p.clearRangesToFree.resetFreeMemoryRanges region).largest = some (region.start, region.stop) := by
  have hinsert : RangeSizeSet.insert calcSize (empty : RangeSizeSet ℕ) region.start region.stop =
      RangeSizeSet.insertRange calcSize empty region.start region.stop := by
    rw [RangeSizeSet.insert, if_neg (not_le.mpr h)]
    rfl
  change ((RangeSizeSet.insert calcSize (empty : RangeSizeSet ℕ) region.start region.stop).sizes.head?.map
    fun entry =>
    (entry.2, (RangeSizeSet.insert calcSize (empty : RangeSizeSet ℕ) region.start region.stop).map.get entry.2)) = _
  rw [hinsert]
  change some (region.start, (OrderedMap.empty.emplace region.start region.stop).get region.start) = _
  rw [OrderedMap.get_emplace, if_pos ⟨rfl, List.not_mem_nil⟩]

end Pool

theorem perm_eraseP_of_find? {β : Type*} {l : List β} {q : β → Bool} {b : β} (h : l.find? q = some b) :
    l.Perm (b :: l.eraseP q) := by
  obtain ⟨hb, before, rest, hl, hbefore⟩ := List.find?_eq_some_iff_append.mp h
  have herase : l.eraseP q = before ++ rest := by
    rw [hl, List.eraseP_append_right _ (by simpa using hbefore), List.eraseP_cons_of_pos hb]
  rw [herase, hl]
  exact List.perm_middle

/-! ## Writing code -/

structure XEmitter where
  code : ℕ
  codeEnd : ℕ
  writeFailed : Bool

namespace XEmitter

def setCodePtr (range : ℕ × ℕ) : XEmitter := ⟨range.1, range.2, false⟩

variable (e : XEmitter)

/-- `Write8`, `Write16`, `Write32`, `Write64`, `ReserveCodeSpace` -/
def write (bytes : ℕ) : XEmitter :=
  if e.codeEnd < e.code + bytes then ⟨e.codeEnd, e.codeEnd, true⟩ else { e with code := e.code + bytes }

def writes (sizes : List ℕ) : XEmitter := sizes.foldl write e

variable {e}

theorem writes_spec (h : e.code ≤ e.codeEnd) (sizes : List ℕ) :
    e.code ≤ (e.writes sizes).code ∧ (e.writes sizes).code ≤ e.codeEnd ∧
      ((e.writes sizes).writeFailed = true ↔ e.writeFailed = true ∨ e.codeEnd < e.code + sizes.sum) := by
  induction sizes generalizing e with
  | nil => exact ⟨le_rfl, h, ⟨Or.inl, fun hor => hor.resolve_right (not_lt.mpr h)⟩⟩
  | cons bytes sizes ih =>
    change e.code ≤ ((e.write bytes).writes sizes).code ∧ ((e.write bytes).writes sizes).code ≤ e.codeEnd ∧
      (((e.write bytes).writes sizes).writeFailed = true ↔ _)
    rw [write, List.sum_cons]
    split_ifs with hfull
    · obtain ⟨hcode, hend, hfailed⟩ := ih (e := ⟨e.codeEnd, e.codeEnd, true⟩) le_rfl
      exact ⟨h.trans hcode, hend, iff_of_true (hfailed.mpr (Or.inl rfl)) (Or.inr (by omega))⟩
    · obtain ⟨hcode, hend, hfailed⟩ := ih (e := { e with code := e.code + bytes }) (not_lt.mp hfull)
      refine ⟨(Nat.le_add_right _ _).trans hcode, hend, hfailed.trans (or_congr_right ?_)⟩
      change e.codeEnd < e.code + bytes + sizes.sum ↔ _
      rw [add_assoc]

end XEmitter

/-! ## The recompiler -/

namespace Jit64

structure JitBlock where
  ptr : ℕ
  near : ℕ × ℕ
  far : ℕ × ℕ

structure State where
  near : Pool
  far : Pool
  blocks : List JitBlock

structure Regions where
  near : Region
  far : Region

/-- What the compilation of a block meets: whether the caches are to be cleared first, whether the address is not
translated, and the sizes of what is written from the code pointers on. -/
structure Attempt where
  almostFull : Bool
  memoryException : Bool
  emit : ℕ → ℕ → List ℕ × List ℕ

inductive Action where
  | jit (ptr : ℕ) (first second : Attempt)
  | destroyBlock (ptr : ℕ)
  | eraseSingleBlock (ptr : ℕ)
  | clearCache

section Steps

variable (regions : Regions) (s : State)

/-- `FreeRanges` -/
def freeRanges : State := { s with near := s.near.freeKept, far := s.far.freeKept }

/-- `DestroyBlock` for every block of the block map -/
def clearBlocks : State :=
  ⟨s.blocks.foldl (fun p b => p.destroy b.near) s.near, s.blocks.foldl (fun p b => p.destroy b.far) s.far, []⟩

def clearCache : State :=
  { clearBlocks s with
    near := (clearBlocks s).near.clearRangesToFree.resetFreeMemoryRanges regions.near
    far := (clearBlocks s).far.clearRangesToFree.resetFreeMemoryRanges regions.far }

/-- A block that is erased by an invalidation. -/
def destroyBlock (ptr : ℕ) : State :=
  match s.blocks.find? (·.ptr = ptr) with
  | none => s
  | some b => ⟨s.near.destroy b.near, s.far.destroy b.far, s.blocks.eraseP (·.ptr = ptr)⟩

def eraseSingleBlock (ptr : ℕ) : State := freeRanges (destroyBlock s ptr)

def setEmitterStateToFreeCodeRegion : Option (XEmitter × XEmitter) := do
  let near ← s.near.largest
  let far ← s.far.largest
  return (.setCodePtr near, .setCodePtr far)

/-- The block of an attempt that fails is not kept: the caches are cleared next. -/
def compile (ptr : ℕ) (emit : ℕ → ℕ → List ℕ × List ℕ) : State × Bool :=
  match setEmitterStateToFreeCodeRegion s with
  | none => (s, false)
  | some (near, far) =>
    let nearEnd := near.writes (emit near.code far.code).1
    let farEnd := far.writes (emit near.code far.code).2
    if nearEnd.writeFailed || farEnd.writeFailed then (s, false)
    else (⟨s.near.use (near.code, nearEnd.code), s.far.use (far.code, farEnd.code),
      ⟨ptr, (near.code, nearEnd.code), (far.code, farEnd.code)⟩ :: s.blocks⟩, true)

/-- The state in which a block is compiled. -/
def prepare (a : Attempt) : State := freeRanges (if a.almostFull then clearCache regions s else s)

def attempt (ptr : ℕ) (a : Attempt) : State × Bool :=
  if a.memoryException then (prepare regions s a, true) else compile (prepare regions s a) ptr a.emit

/-- `Jit`, which exits when the second attempt fails. -/
def jit (ptr : ℕ) (first second : Attempt) : Option State :=
  if (attempt regions s ptr first).2 then some (attempt regions s ptr first).1
  else if (attempt regions (clearCache regions (attempt regions s ptr first).1) ptr second).2 then
    some (attempt regions (clearCache regions (attempt regions s ptr first).1) ptr second).1
  else none

def step : Action → Option State
  | .jit ptr first second => jit regions s ptr first second
  | .destroyBlock ptr => some (destroyBlock s ptr)
  | .eraseSingleBlock ptr => some (eraseSingleBlock s ptr)
  | .clearCache => some (clearCache regions s)

/-- After `Init` -/
def init : State := clearCache regions ⟨⟨.empty, []⟩, ⟨.empty, []⟩, []⟩

end Steps

/-! ### Accounts -/

variable {regions : Regions} {s : State}

structure Accounted (regions : Regions) (s : State) : Prop where
  near : s.near.Accounted regions.near (s.blocks.map (·.near))
  far : s.far.Accounted regions.far (s.blocks.map (·.far))

theorem accounted_clearCache (regions : Regions) (s : State) : Accounted regions (clearCache regions s) :=
  ⟨Pool.accounted_reset _ _, Pool.accounted_reset _ _⟩

theorem Accounted.freeRanges (h : Accounted regions s) : Accounted regions (freeRanges s) :=
  ⟨h.near.freeKept, h.far.freeKept⟩

theorem Accounted.destroyBlock (h : Accounted regions s) (ptr : ℕ) : Accounted regions (destroyBlock s ptr) := by
  rw [Jit64.destroyBlock]
  cases hfind : s.blocks.find? (·.ptr = ptr) with
  | none => exact h
  | some b =>
    have hperm := perm_eraseP_of_find? hfind
    exact ⟨h.near.destroy fun address => (hperm.map (·.near)).countP_eq _,
      h.far.destroy fun address => (hperm.map (·.far)).countP_eq _⟩

theorem setEmitterState_eq_some {near far : XEmitter} :
    setEmitterStateToFreeCodeRegion s = some (near, far) ↔
      ∃ nearRange farRange, s.near.largest = some nearRange ∧ s.far.largest = some farRange ∧
        near = .setCodePtr nearRange ∧ far = .setCodePtr farRange := by
  rw [setEmitterStateToFreeCodeRegion]
  cases s.near.largest with
  | none => simp
  | some nearRange =>
    cases s.far.largest with
    | none => simp
    | some farRange =>
      simp only [Option.bind_eq_bind, Option.bind_some, Option.pure_def, Option.some.injEq, Prod.mk.injEq]
      constructor
      · rintro ⟨rfl, rfl⟩
        exact ⟨_, _, rfl, rfl, rfl, rfl⟩
      · rintro ⟨_, _, rfl, rfl, rfl, rfl⟩
        exact ⟨rfl, rfl⟩

theorem Accounted.compile (h : Accounted regions s) (ptr : ℕ) (emit : ℕ → ℕ → List ℕ × List ℕ) :
    Accounted regions (compile s ptr emit).1 := by
  rw [Jit64.compile]
  cases hset : setEmitterStateToFreeCodeRegion s with
  | none => exact h
  | some emitters =>
    obtain ⟨nearRange, farRange, hnear, hfar, hn, hf⟩ := setEmitterState_eq_some.mp hset
    obtain ⟨near, far⟩ := emitters
    dsimp only at hn hf ⊢
    split_ifs with hfailed
    · exact h
    · -- what is written lies in the largest free ranges
      obtain ⟨hnearlt, hnearfree, -⟩ := h.near.largest_spec hnear
      obtain ⟨hfarlt, hfarfree, -⟩ := h.far.largest_spec hfar
      subst hn hf
      have hnearend := (XEmitter.writes_spec (e := .setCodePtr nearRange) hnearlt.le
        (emit nearRange.1 farRange.1).1).2.1
      have hfarend := (XEmitter.writes_spec (e := .setCodePtr farRange) hfarlt.le
        (emit nearRange.1 farRange.1).2).2.1
      exact ⟨h.near.use fun address hle hlt => hnearfree address hle (hlt.trans_le hnearend),
        h.far.use fun address hle hlt => hfarfree address hle (hlt.trans_le hfarend)⟩

theorem Accounted.prepare (h : Accounted regions s) (a : Attempt) : Accounted regions (prepare regions s a) := by
  rw [Jit64.prepare]
  split_ifs
  · exact (accounted_clearCache regions s).freeRanges
  · exact h.freeRanges

theorem Accounted.attempt (h : Accounted regions s) (ptr : ℕ) (a : Attempt) :
    Accounted regions (attempt regions s ptr a).1 := by
  rw [Jit64.attempt]
  split_ifs
  · exact h.prepare a
  · exact (h.prepare a).compile ptr a.emit

theorem Accounted.step (h : Accounted regions s) {a : Action} {s' : State} (hstep : step regions s a = some s') :
    Accounted regions s' := by
  cases a with
  | jit ptr first second =>
    change Jit64.jit regions s ptr first second = some s' at hstep
    rw [Jit64.jit] at hstep
    split_ifs at hstep
    · rw [← Option.some.inj hstep]
      exact h.attempt ptr first
    · rw [← Option.some.inj hstep]
      exact (accounted_clearCache regions _).attempt ptr second
  | destroyBlock ptr =>
    rw [← Option.some.inj hstep]
    exact h.destroyBlock ptr
  | eraseSingleBlock ptr =>
    rw [← Option.some.inj hstep]
    exact (h.destroyBlock ptr).freeRanges
  | clearCache =>
    rw [← Option.some.inj hstep]
    exact accounted_clearCache regions s

/-- A state that is reached from `Init`. -/
abbrev Reached (regions : Regions) (s : State) : Prop :=
  Transition.Reach (step regions) Transition.anyStep (init regions) s

theorem reach_accounted (h : Reached regions s) : Accounted regions s :=
  h.invariant (accounted_clearCache regions _) fun _ _ _ hs _ hstep => hs.step hstep

/-- **Every byte has one holder** in every state reached: it is free, kept back until the next block is
compiled, or in
one block. -/
theorem reach_once (h : Reached regions s) (address : ℕ) :
    s.near.holders (s.blocks.map (·.near)) address =
        (if regions.near.start ≤ address ∧ address < regions.near.stop then 1 else 0) ∧
      s.far.holders (s.blocks.map (·.far)) address =
        if regions.far.start ≤ address ∧ address < regions.far.stop then 1 else 0 :=
  ⟨(reach_accounted h).near.once address, (reach_accounted h).far.once address⟩

theorem step_jit_of_fits {ptr : ℕ} {first : Attempt} (h : (attempt regions s ptr first).2 = true)
    (second : Attempt) :
    step regions s (.jit ptr first second) = some (attempt regions s ptr first).1 := by
  change jit regions s ptr first second = _
  rw [jit, if_pos h]

def sampleRegions : Regions := ⟨⟨0x1000, 0x2000⟩, ⟨0x5000, 0x5800⟩⟩

def sampleAttempt : Attempt := ⟨false, false, fun _ _ => ([4, 8], [3])⟩

/-- The first block is destroyed when the second one has been compiled. -/
def sampleState : State :=
  destroyBlock (attempt sampleRegions (attempt sampleRegions (init sampleRegions) 1 sampleAttempt).1 2
    sampleAttempt).1 1

theorem reached_sample : Reached sampleRegions sampleState := by
  have hfits : (attempt sampleRegions (init sampleRegions) 1 sampleAttempt).2 = true := by decide
  have hfirst := step_jit_of_fits hfits sampleAttempt
  have hfits' : (attempt sampleRegions (attempt sampleRegions (init sampleRegions) 1 sampleAttempt).1 2
      sampleAttempt).2 = true := by decide
  have hsecond := step_jit_of_fits hfits' sampleAttempt
  exact ((Transition.Reach.refl.tail _ trivial hfirst).tail _ trivial hsecond).tail (.destroyBlock 1) trivial rfl

theorem reach_once_sample : sampleState.near.holders (sampleState.blocks.map (·.near)) 0x1010 =
      (if sampleRegions.near.start ≤ 0x1010 ∧ 0x1010 < sampleRegions.near.stop then 1 else 0) ∧
    sampleState.far.holders (sampleState.blocks.map (·.far)) 0x1010 =
      if sampleRegions.far.start ≤ 0x1010 ∧ 0x1010 < sampleRegions.far.stop then 1 else 0 :=
  reach_once reached_sample 0x1010

/-! ### Writing -/

theorem compile_eq_false_iff {nearRange farRange : ℕ × ℕ} (hnear : s.near.largest = some nearRange)
    (hfar : s.far.largest = some farRange) (hnearlt : nearRange.1 < nearRange.2) (hfarlt : farRange.1 < farRange.2)
    (ptr : ℕ) (emit : ℕ → ℕ → List ℕ × List ℕ) :
    (compile s ptr emit).2 = false ↔ nearRange.2 - nearRange.1 < (emit nearRange.1 farRange.1).1.sum ∨
      farRange.2 - farRange.1 < (emit nearRange.1 farRange.1).2.sum := by
  have hset : setEmitterStateToFreeCodeRegion s = some (.setCodePtr nearRange, .setCodePtr farRange) :=
    setEmitterState_eq_some.mpr ⟨_, _, hnear, hfar, rfl, rfl⟩
  have hn := (XEmitter.writes_spec (e := .setCodePtr nearRange) hnearlt.le (emit nearRange.1 farRange.1).1).2.2
  have hf := (XEmitter.writes_spec (e := .setCodePtr farRange) hfarlt.le (emit nearRange.1 farRange.1).2).2.2
  rw [compile, hset]
  change (if ((XEmitter.setCodePtr nearRange).writes (emit nearRange.1 farRange.1).1).writeFailed ||
    ((XEmitter.setCodePtr farRange).writes (emit nearRange.1 farRange.1).2).writeFailed
      then (s, false) else _).2 = false ↔ _
  have hnear' : nearRange.2 < nearRange.1 + (emit nearRange.1 farRange.1).1.sum ↔
      nearRange.2 - nearRange.1 < (emit nearRange.1 farRange.1).1.sum := by omega
  have hfar' : farRange.2 < farRange.1 + (emit nearRange.1 farRange.1).2.sum ↔
      farRange.2 - farRange.1 < (emit nearRange.1 farRange.1).2.sum := by omega
  rw [← hnear', ← hfar']
  split_ifs with hfailed
  · rw [Bool.or_eq_true, hn, hf] at hfailed
    exact iff_of_true rfl (hfailed.imp (·.resolve_left Bool.false_ne_true) (·.resolve_left Bool.false_ne_true))
  · rw [Bool.or_eq_true, hn, hf] at hfailed
    exact iff_of_false (by simp) fun hor => hfailed (hor.imp Or.inr Or.inr)

/-- **An attempt fails** only where no free near range, or no free far range, has room for what it writes there. -/
theorem reach_attempt_eq_false_iff (h : Reached regions s) (ptr : ℕ) {a : Attempt} {near far : List ℕ}
    (hexception : a.memoryException = false) (hemit : ∀ x y, a.emit x y = (near, far)) :
    (attempt regions s ptr a).2 = false ↔
      ¬((prepare regions s a).near.HasRoom near.sum ∧ (prepare regions s a).far.HasRoom far.sum) := by
  have hs := (reach_accounted h).prepare a
  rw [attempt, hexception, if_neg Bool.false_ne_true]
  generalize prepare regions s a = t at hs ⊢
  cases hnear : t.near.largest with
  | none =>
    refine iff_of_true ?_ fun ⟨⟨k, hk, _⟩, _⟩ => ?_
    · rw [compile, setEmitterStateToFreeCodeRegion, hnear]
      rfl
    · rw [hs.near.largest_eq_none.mp hnear] at hk
      exact absurd hk List.not_mem_nil
  | some nearRange =>
    cases hfar : t.far.largest with
    | none =>
      refine iff_of_true ?_ fun ⟨_, k, hk, _⟩ => ?_
      · rw [compile, setEmitterStateToFreeCodeRegion, hnear, hfar]
        rfl
      · rw [hs.far.largest_eq_none.mp hfar] at hk
        exact absurd hk List.not_mem_nil
    | some farRange =>
      rw [compile_eq_false_iff hnear hfar (hs.near.largest_spec hnear).1 (hs.far.largest_spec hfar).1, hemit,
        hs.near.hasRoom_iff hnear, hs.far.hasRoom_iff hfar, not_and_or, not_le, not_le]

/-- Both regions have room. -/
theorem reach_attempt_eq_false_iff_sample :
    (prepare sampleRegions sampleState sampleAttempt).near.HasRoom [4, 8].sum ∧
    (prepare sampleRegions sampleState sampleAttempt).far.HasRoom [3].sum := by
  by_contra hroom
  have hfails : (attempt sampleRegions sampleState 3 sampleAttempt).2 = false :=
    (reach_attempt_eq_false_iff reached_sample 3 rfl fun _ _ => rfl).mpr hroom
  exact absurd hfails (by decide)

theorem prepare_clearCache (a : Attempt) :
    prepare regions (clearCache regions s) a = clearCache regions s := by
  rw [prepare]
  split_ifs
  · rfl
  · rfl

/-- **No block is compiled** only if the first attempt fails and the second one writes more than a whole region. -/
theorem jit_eq_none_iff (hnear : regions.near.start < regions.near.stop)
    (hfar : regions.far.start < regions.far.stop)
    (s : State) (ptr : ℕ) (first second : Attempt) :
    jit regions s ptr first second = none ↔
      (attempt regions s ptr first).2 = false ∧ second.memoryException = false ∧
        (regions.near.stop - regions.near.start < (second.emit regions.near.start regions.far.start).1.sum ∨
          regions.far.stop - regions.far.start < (second.emit regions.near.start regions.far.start).2.sum) := by
  have hretry : (attempt regions (clearCache regions (attempt regions s ptr first).1) ptr second).2 = false ↔
      second.memoryException = false ∧
        (regions.near.stop - regions.near.start < (second.emit regions.near.start regions.far.start).1.sum ∨
          regions.far.stop - regions.far.start < (second.emit regions.near.start regions.far.start).2.sum) := by
    rw [attempt, prepare_clearCache]
    split_ifs with hexception
    · exact iff_of_false (by simp) fun hand => by simp [hexception] at hand
    · rw [compile_eq_false_iff (Pool.largest_reset hnear _) (Pool.largest_reset hfar _) hnear hfar]
      exact (and_iff_right (Bool.eq_false_of_not_eq_true hexception)).symm
  rw [← hretry, jit]
  split_ifs with hfirst hsecond
  · exact iff_of_false (by simp) fun hand => by simp [hfirst] at hand
  · exact iff_of_false (by simp) fun hand => by simp [hsecond] at hand
  · exact iff_of_true rfl ⟨Bool.eq_false_of_not_eq_true hfirst, Bool.eq_false_of_not_eq_true hsecond⟩

/-- A block that is larger than the near region. -/
def largeAttempt : Attempt := ⟨false, false, fun _ _ => ([0x1001], [])⟩

theorem jit_eq_none_iff_sample : jit sampleRegions sampleState 3 largeAttempt largeAttempt = none :=
  (jit_eq_none_iff (show sampleRegions.near.start < sampleRegions.near.stop by decide)
    (show sampleRegions.far.start < sampleRegions.far.stop by decide) sampleState 3 largeAttempt largeAttempt).mpr
    ⟨by decide, rfl, Or.inl (by decide)⟩

end Jit64

end CodeSpace
