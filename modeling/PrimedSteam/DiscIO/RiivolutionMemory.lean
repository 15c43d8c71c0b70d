import PrimedSteam.DiscIO.RiivolutionPatcher
import PrimedSteam.Lib.While

/-!
# Memory patches that search

`ApplySearchMemoryPatch` goes through a region in steps of `m_align` and patches the first place at which
the original bytes are. The bound and the counter of its loop are numbers of 32 bits.

* `searchLoop`: the loop, with the addresses that it tests.
* `searchLoop_spec`: without a wrap of the bound it tests the steps that fit into the region.
* `searches_iff`: when the loop ends, stays in the region and finds the lowest place.
-/

set_option autoImplicit false

namespace Riivolution

abbrev Word := BitVec 32

/-- What `HostTryRead` gives; `none` is an address that cannot be accessed. -/
abbrev HostMemory := Word → Option Byte

/-! ## Patches -/

/-- `MemoryMatchesAt` -/
def memoryMatchesAt (m : HostMemory) (offset : Word) : List Byte → Bool
  | [] => true
  | v :: value => m offset == some v && memoryMatchesAt m (offset + 1) value

/-- `HostTryWrite` -/
def hostTryWrite (m : HostMemory) (v : Byte) (address : Word) : HostMemory :=
  if (m address).isSome then Function.update m address (some v) else m

/-- The loop over the bytes that are written. -/
def writeBytes (m : HostMemory) (offset : Word) : List Byte → HostMemory
  | [] => m
  | v :: value => writeBytes (hostTryWrite m v offset) (offset + 1) value

/-- `ApplyMemoryPatch` at an address; the hooks that it overlaps are left out. -/
def applyMemoryPatch (hardcore : Bool) (m : HostMemory) (offset : Word) (value original : List Byte) :
    HostMemory :=
  if hardcore then m
  else if value = [] then m
  else if original ≠ [] ∧ !memoryMatchesAt m offset original then m
  else writeBytes m offset value

/-- A memory patch, with the value that `GetMemoryPatchValue` gives. -/
structure MemoryPatch where
  value : List Byte
  original : List Byte
  align : Word

/-! ## Searching -/

structure SearchState where
  i : Word
  /-- the addresses that were tested -/
  probes : List Word
  /-- the address at which the loop was left -/
  found : Option Word

/-- The loop of `ApplySearchMemoryPatch`. `none` means that the fuel is used up. -/
def searchLoop (m : HostMemory) (original : List Byte) (ramStart stride bound : Word) (fuel : ℕ)
    (s : SearchState) : Option (Except Unit SearchState) :=
  While.whileLoop (fun s => s.found.isNone && decide (s.i < bound))
    (fun s =>
      let address := ramStart + s.i
      let probes := s.probes ++ [address]
      if memoryMatchesAt m address original then .ok ⟨s.i, probes, some address⟩
      else .ok ⟨s.i + stride, probes, none⟩) fuel s

/-- `ApplySearchMemoryPatch`: the addresses that are tested, where the patch is applied, and the memory. -/
def applySearchMemoryPatch (hardcore : Bool) (m : HostMemory) (patch : MemoryPatch)
    (ramStart length : Word) (fuel : ℕ) : Option (List Word × Option Word × HostMemory) :=
  if patch.original = [] ∨ patch.align = 0 then some ([], none, m)
  else
    match searchLoop m patch.original ramStart patch.align (length - (patch.align - 1)) fuel
        ⟨0, [], none⟩ with
    | some (.ok s) =>
      some (s.probes, s.found,
        match s.found with
        | some address => applyMemoryPatch hardcore m address patch.value []
        | none => m)
    | _ => none

/-! ## Places -/

section Places

variable (m : HostMemory) (original : List Byte) (ramStart length align : Word)

/-- The `k`th step. -/
def place (k : ℕ) : Word := ramStart + BitVec.ofNat 32 (k * align.toNat)

/-- The original bytes are at the `k`th step. -/
def MatchAt (k : ℕ) : Prop := memoryMatchesAt m (place ramStart align k) original = true

/-- The `k`th step is in the region. -/
def InRegion (k : ℕ) : Prop := k * align.toNat < length.toNat

/-- The lowest place of the region with the original bytes, if there is one. -/
def IsLowest : Option Word → Prop
  | some address => ∃ k, InRegion length align k ∧ address = place ramStart align k ∧
      MatchAt m original ramStart align k ∧ ∀ j < k, ¬MatchAt m original ramStart align j
  | none => ∀ k, InRegion length align k → ¬MatchAt m original ramStart align k

end Places

/-- The search ends, tests steps of the region, and patches the lowest place only. -/
def Searches (hardcore : Bool) (m : HostMemory) (patch : MemoryPatch) (ramStart length : Word) : Prop :=
  ∃ fuel probes found, applySearchMemoryPatch hardcore m patch ramStart length fuel =
      some (probes, found, match found with
        | some address => applyMemoryPatch hardcore m address patch.value []
        | none => m) ∧
    (∀ address ∈ probes, ∃ k, InRegion length patch.align k ∧ address = place ramStart patch.align k) ∧
    IsLowest m patch.original ramStart length patch.align found

/-- When the search does so: where the bound does not wrap, the last step is a whole one, or an earlier
place is found, or the original bytes are not at the last step; where the bound wraps, the first step is
the only one that is tested. -/
def SearchFits (m : HostMemory) (patch : MemoryPatch) (ramStart length : Word) : Prop :=
  (patch.align.toNat ≤ length.toNat + 1 ∧
    (patch.align.toNat ∣ length.toNat ∨
      (∃ k < length.toNat / patch.align.toNat, MatchAt m patch.original ramStart patch.align k) ∨
      ¬MatchAt m patch.original ramStart patch.align (length.toNat / patch.align.toNat))) ∨
  (length.toNat + 1 < patch.align.toNat ∧ 0 < length.toNat ∧
    (MatchAt m patch.original ramStart patch.align 0 ∨ 2 ^ 32 + length.toNat < 2 * patch.align.toNat))

/-! ## The loop -/

section Loop

variable {m : HostMemory} {original : List Byte} {ramStart stride bound : Word}

theorem probes_searchLoop {fuel : ℕ} {s s' : SearchState} {address : Word} (h₀ : address ∈ s.probes)
    (h : searchLoop m original ramStart stride bound fuel s = some (.ok s')) : address ∈ s'.probes := by
  refine (While.whileLoop_invariant (I := fun s => address ∈ s.probes) ?_ h₀ h).1
  intro s s' hs _ hbody
  dsimp only at hbody
  split at hbody
  · cases hbody
    exact List.mem_append_left _ hs
  · cases hbody
    exact List.mem_append_left _ hs

/-- The states of the loop: the first `n` steps were tested. -/
structure Probed (m : HostMemory) (original : List Byte) (ramStart stride : Word) (limit n : ℕ)
    (s : SearchState) : Prop where
  i : s.i.toNat = n * stride.toNat
  le : n ≤ limit
  probes : s.probes = (List.range (n + if s.found.isSome then 1 else 0)).map (place ramStart stride)
  before : ∀ j < n, ¬MatchAt m original ramStart stride j
  found : ∀ address, s.found = some address →
    n < limit ∧ address = place ramStart stride n ∧ MatchAt m original ramStart stride n

theorem toNat_pred (hstride : 0 < stride.toNat) :
    (stride - 1).toNat = stride.toNat - 1 := by
  have hone : (1 : Word).toNat = 1 := rfl
  rw [BitVec.toNat_sub_of_le (BitVec.le_def.mpr (by rw [hone]; exact hstride)), hone]

theorem toNat_bound {length : Word} (hstride : 0 < stride.toNat)
    (hle : stride.toNat ≤ length.toNat + 1) :
    (length - (stride - 1)).toNat = length.toNat + 1 - stride.toNat := by
  have hpred := toNat_pred hstride
  rw [BitVec.toNat_sub_of_le (BitVec.le_def.mpr (by rw [hpred]; omega)), hpred]
  omega

theorem toNat_bound_wrap {length : Word} (hle : length.toNat + 1 < stride.toNat) :
    (length - (stride - 1)).toNat = 2 ^ 32 + length.toNat + 1 - stride.toNat := by
  have hpred := @toNat_pred stride (by omega)
  have hlength := length.isLt
  have hlt := stride.isLt
  rw [BitVec.toNat_sub, hpred]
  omega

/-- Without a wrap: the loop tests the whole steps up to the first one with the original bytes. -/
theorem searchLoop_spec {length : Word} (hstride : 0 < stride.toNat)
    (hle : stride.toNat ≤ length.toNat + 1) :
    ∃ s n, searchLoop m original ramStart stride (length - (stride - 1)) (2 * 2 ^ 32 + 2) ⟨0, [], none⟩ =
        some (.ok s) ∧
      Probed m original ramStart stride (length.toNat / stride.toNat) n s ∧
      (s.found = none → n = length.toNat / stride.toNat) := by
  have hlength := length.isLt
  have hbound := toNat_bound hstride hle
  -- a step that is whole is below the bound
  have hcond : ∀ n, n * stride.toNat < length.toNat + 1 - stride.toNat ↔
      n < length.toNat / stride.toNat := by
    intro n
    rw [Nat.lt_div_iff_mul_lt hstride]
    omega
  have hbody : ∀ s : SearchState, (∃ n, Probed m original ramStart stride
      (length.toNat / stride.toNat) n s) →
      (s.found.isNone && decide (s.i < length - (stride - 1))) = true → ∃ s',
      (if memoryMatchesAt m (ramStart + s.i) original then
          (.ok ⟨s.i, s.probes ++ [ramStart + s.i], some (ramStart + s.i)⟩ : Except Unit SearchState)
        else .ok ⟨s.i + stride, s.probes ++ [ramStart + s.i], none⟩) = .ok s' ∧
      (∃ n, Probed m original ramStart stride (length.toNat / stride.toNat) n s') ∧
      (if s'.found.isSome then 0 else 2 ^ 32 + 1 - s'.i.toNat) <
        if s.found.isSome then 0 else 2 ^ 32 + 1 - s.i.toNat := by
    rintro s ⟨n, h⟩ hc
    rw [Bool.and_eq_true, decide_eq_true_iff, BitVec.lt_def, hbound, h.i, hcond] at hc
    obtain ⟨hnone, hn⟩ := hc
    have hfound : s.found = none := Option.isNone_iff_eq_none.mp hnone
    have haddress : ramStart + s.i = place ramStart stride n := by
      rw [place, ← h.i, BitVec.ofNat_toNat, BitVec.setWidth_eq]
    have hprobes : s.probes ++ [ramStart + s.i] = (List.range (n + 1)).map (place ramStart stride) := by
      rw [h.probes, hfound, haddress, List.range_succ, List.map_append]
      rfl
    have hi := s.i.isLt
    rw [haddress] at hprobes ⊢
    by_cases hmatch : memoryMatchesAt m (place ramStart stride n) original = true
    · rw [if_pos hmatch]
      refine ⟨_, rfl, ⟨n, h.i, h.le, hprobes, h.before, ?_⟩, ?_⟩
      · rintro address ⟨⟩
        exact ⟨hn, rfl, hmatch⟩
      · rw [hfound]
        simp only [Option.isSome_some, Option.isSome_none, if_true, Bool.false_eq_true, if_false]
        omega
    · rw [if_neg hmatch]
      have hwhole := (hcond n).mpr hn
      have hnext : (s.i + stride).toNat = (n + 1) * stride.toNat := by
        rw [BitVec.toNat_add, h.i, Nat.succ_mul, Nat.mod_eq_of_lt (by omega)]
      refine ⟨_, rfl, ⟨n + 1, hnext, hn, hprobes, fun j hj => ?_, fun address h => by cases h⟩, ?_⟩
      · obtain hlt | rfl := Nat.lt_succ_iff_lt_or_eq.mp hj
        · exact h.before j hlt
        · exact hmatch
      · rw [hfound, hnext, h.i, Nat.succ_mul]
        simp only [Option.isSome_none, Bool.false_eq_true, if_false]
        omega
  have hstart : Probed m original ramStart stride (length.toNat / stride.toNat) 0 ⟨0, [], none⟩ :=
    ⟨(Nat.zero_mul _).symm, Nat.zero_le _, rfl, fun j hj => absurd hj (Nat.not_lt_zero j),
      fun address h => by cases h⟩
  obtain ⟨s, hs⟩ := @While.whileLoop_terminates _ _ _ _ _ _ hbody (2 * 2 ^ 32 + 2) ⟨0, [], none⟩
    ⟨0, hstart⟩ (by simp)
  obtain ⟨⟨n, h⟩, hc⟩ := While.whileLoop_invariant
    (I := fun s => ∃ n, Probed m original ramStart stride (length.toNat / stride.toNat) n s)
    (fun s s' hI hc hb => by
      obtain ⟨s₁, hs₁, hI', -⟩ := hbody s hI hc
      rw [hs₁] at hb
      cases hb
      exact hI') ⟨0, hstart⟩ hs
  refine ⟨s, n, hs, h, fun hfound => ?_⟩
  rw [hfound, Option.isNone_none, Bool.true_and, decide_eq_false_iff_not, BitVec.lt_def, hbound, h.i,
    hcond] at hc
  exact Nat.le_antisymm h.le (Nat.le_of_not_lt hc)

theorem searchLoop_succ (fuel : ℕ) (s : SearchState) :
    searchLoop m original ramStart stride bound (fuel + 1) s =
      if s.found.isNone && decide (s.i < bound) then
        searchLoop m original ramStart stride bound fuel
          (if memoryMatchesAt m (ramStart + s.i) original then
            ⟨s.i, s.probes ++ [ramStart + s.i], some (ramStart + s.i)⟩
          else ⟨s.i + stride, s.probes ++ [ramStart + s.i], none⟩)
      else some (.ok s) := by
  rw [searchLoop, While.whileLoop]
  by_cases hmatch : memoryMatchesAt m (ramStart + s.i) original = true
  · simp only [hmatch, if_true]
    rfl
  · simp only [hmatch]
    rfl

theorem place_zero : place ramStart stride 0 = ramStart := by
  simp [place]

theorem place_one : place ramStart stride 1 = ramStart + stride := by
  simp [place]

theorem searchLoop_wrap_first {length : Word} (hle : length.toNat + 1 < stride.toNat) (fuel : ℕ) :
    searchLoop m original ramStart stride (length - (stride - 1)) (fuel + 1) ⟨0, [], none⟩ =
      searchLoop m original ramStart stride (length - (stride - 1)) fuel
        (if memoryMatchesAt m (place ramStart stride 0) original then
          ⟨0, [place ramStart stride 0], some (place ramStart stride 0)⟩
        else ⟨stride, [place ramStart stride 0], none⟩) := by
  have hbound := toNat_bound_wrap hle
  have hstride := stride.isLt
  have hzero : (0 : Word) < length - (stride - 1) := by
    have hnat : (0 : Word).toNat = 0 := rfl
    rw [BitVec.lt_def, hbound, hnat]
    omega
  have hramStart : ramStart + 0 = ramStart := BitVec.add_zero ramStart
  have hnext : 0 + stride = stride := BitVec.zero_add stride
  rw [searchLoop_succ]
  simp only [Option.isNone_none, Bool.true_and, decide_eq_true hzero, if_true, List.nil_append,
    place_zero, hramStart, hnext]

theorem place_zero_mem {length : Word} (hle : length.toNat + 1 < stride.toNat) {fuel : ℕ}
    {s : SearchState}
    (h : searchLoop m original ramStart stride (length - (stride - 1)) fuel ⟨0, [], none⟩ =
      some (.ok s)) : place ramStart stride 0 ∈ s.probes := by
  cases fuel with
  | zero => cases h
  | succ fuel =>
    rw [searchLoop_wrap_first hle] at h
    refine probes_searchLoop ?_ h
    split
    · simp
    · simp

/-- With a wrap, the second step is tested if the first one fails and the bound is large enough. -/
theorem searchLoop_wrap_second {length : Word} (hle : length.toNat + 1 < stride.toNat) {fuel : ℕ}
    {s : SearchState} (hnot : ¬MatchAt m original ramStart stride 0)
    (hsum : 2 * stride.toNat ≤ 2 ^ 32 + length.toNat)
    (h : searchLoop m original ramStart stride (length - (stride - 1)) fuel ⟨0, [], none⟩ =
      some (.ok s)) : place ramStart stride 1 ∈ s.probes := by
  have hbound := toNat_bound_wrap hle
  have hsecond : stride < length - (stride - 1) := by
    rw [BitVec.lt_def, hbound]
    omega
  cases fuel with
  | zero => cases h
  | succ fuel =>
    have hfirst : memoryMatchesAt m (place ramStart stride 0) original = false := by
      simpa [MatchAt] using hnot
    rw [searchLoop_wrap_first hle, hfirst, if_neg Bool.false_ne_true] at h
    cases fuel with
    | zero => cases h
    | succ fuel =>
      rw [searchLoop_succ] at h
      simp only [Option.isNone_none, Bool.true_and, decide_eq_true hsecond, if_true] at h
      refine probes_searchLoop ?_ h
      rw [place_one]
      split
      · simp
      · simp

end Loop

/-! ## Meeting the purpose -/

section Main

variable {hardcore : Bool} {m : HostMemory} {patch : MemoryPatch} {ramStart length : Word}

theorem applySearch_eq (horiginal : patch.original ≠ []) (halign : patch.align ≠ 0) {fuel : ℕ}
    {s : SearchState} (h : searchLoop m patch.original ramStart patch.align
      (length - (patch.align - 1)) fuel ⟨0, [], none⟩ = some (.ok s)) :
    applySearchMemoryPatch hardcore m patch ramStart length fuel = some (s.probes, s.found,
      match s.found with
      | some address => applyMemoryPatch hardcore m address patch.value []
      | none => m) := by
  rw [applySearchMemoryPatch, if_neg (not_or.mpr ⟨horiginal, halign⟩), h]

theorem searchLoop_of_applySearch (horiginal : patch.original ≠ []) (halign : patch.align ≠ 0) {fuel : ℕ}
    {probes : List Word} {found : Option Word} {m' : HostMemory}
    (h : applySearchMemoryPatch hardcore m patch ramStart length fuel = some (probes, found, m')) :
    ∃ s : SearchState, searchLoop m patch.original ramStart patch.align
      (length - (patch.align - 1)) fuel ⟨0, [], none⟩ = some (.ok s) ∧ s.probes = probes ∧
        s.found = found := by
  rw [applySearchMemoryPatch, if_neg (not_or.mpr ⟨horiginal, halign⟩)] at h
  split at h
  · next s hs =>
    cases h
    exact ⟨s, hs, rfl, rfl⟩
  · cases h

theorem align_pos (halign : patch.align ≠ 0) : 0 < patch.align.toNat :=
  Nat.pos_of_ne_zero fun h => halign (BitVec.eq_of_toNat_eq h)

theorem searchLoop_unique {original : List Byte} {stride bound : Word} {fuel fuel' : ℕ} {s s₁ s₂ : SearchState}
    (h : searchLoop m original ramStart stride bound fuel s = some (.ok s₁))
    (h' : searchLoop m original ramStart stride bound fuel' s = some (.ok s₂)) : s₁ = s₂ := by
  induction fuel generalizing s fuel' with
  | zero => cases h
  | succ fuel ih =>
    cases fuel' with
    | zero => cases h'
    | succ fuel' =>
      rw [searchLoop_succ] at h h'
      split at h
      · next hc =>
        rw [if_pos hc] at h'
        exact ih h h'
      · next hc =>
        rw [if_neg hc] at h'
        cases h
        cases h'
        rfl

theorem inRegion_of_lt (halign : patch.align ≠ 0) {k : ℕ} (hlt : k < length.toNat / patch.align.toNat) :
    InRegion length patch.align k := by
  have hpos := align_pos halign
  have hmul := Nat.mul_le_of_le_div _ _ _ (Nat.succ_le_of_lt hlt)
  rw [Nat.succ_mul] at hmul
  rw [InRegion]
  omega

theorem inRegion_of_probed {n : ℕ} {s : SearchState} (halign : patch.align ≠ 0)
    (h : Probed m patch.original ramStart patch.align (length.toNat / patch.align.toNat) n s)
    {address : Word} (haddress : address ∈ s.probes) :
    ∃ k, InRegion length patch.align k ∧ address = place ramStart patch.align k := by
  rw [h.probes] at haddress
  obtain ⟨k, hk, rfl⟩ := List.mem_map.mp haddress
  refine ⟨k, inRegion_of_lt halign ?_, rfl⟩
  have hk' := List.mem_range.mp hk
  cases hfound : s.found with
  | none =>
    rw [hfound] at hk'
    exact lt_of_lt_of_le hk' h.le
  | some address =>
    rw [hfound] at hk'
    have hn := (h.found address hfound).1
    simp only [Option.isSome_some, if_true] at hk'
    omega

theorem searches_first (horiginal : patch.original ≠ []) (halign : patch.align ≠ 0)
    (hwrap : length.toNat + 1 < patch.align.toNat) (hlength : 0 < length.toNat)
    (hfirst : MatchAt m patch.original ramStart patch.align 0 ∨
      2 ^ 32 + length.toNat < 2 * patch.align.toNat) :
    Searches hardcore m patch ramStart length := by
  have hin : InRegion length patch.align 0 := by
    rw [InRegion, Nat.zero_mul]
    exact hlength
  by_cases hmatch : memoryMatchesAt m (place ramStart patch.align 0) patch.original = true
  · have hs : searchLoop m patch.original ramStart patch.align (length - (patch.align - 1)) 2
        ⟨0, [], none⟩ = some (.ok ⟨0, [place ramStart patch.align 0], some (place ramStart patch.align 0)⟩) := by
      rw [searchLoop_wrap_first hwrap, if_pos hmatch]
      rfl
    refine ⟨_, _, _, applySearch_eq horiginal halign hs, fun address h => ?_, ?_⟩
    · exact ⟨0, hin, List.mem_singleton.mp h⟩
    · exact ⟨0, hin, rfl, hmatch, fun j hj => absurd hj (Nat.not_lt_zero j)⟩
  · have hsum : 2 ^ 32 + length.toNat < 2 * patch.align.toNat := hfirst.resolve_left hmatch
    have hend : ¬patch.align < length - (patch.align - 1) := by
      rw [BitVec.lt_def, toNat_bound_wrap hwrap]
      omega
    have hs : searchLoop m patch.original ramStart patch.align (length - (patch.align - 1)) 2
        ⟨0, [], none⟩ = some (.ok ⟨patch.align, [place ramStart patch.align 0], none⟩) := by
      rw [searchLoop_wrap_first hwrap, if_neg hmatch, searchLoop_succ]
      simp only [decide_eq_false hend, Bool.and_false, Bool.false_eq_true, if_false]
    refine ⟨_, _, _, applySearch_eq horiginal halign hs, fun address h => ?_, fun k hk hmatch' => ?_⟩
    · exact ⟨0, hin, List.mem_singleton.mp h⟩
    · rw [InRegion] at hk
      obtain rfl | hne := Nat.eq_zero_or_pos k
      · exact hmatch hmatch'
      · have hmul := Nat.le_mul_of_pos_left patch.align.toNat hne
        omega

/-- **When the search does what it is for.** -/
theorem searches_iff (horiginal : patch.original ≠ []) (halign : patch.align ≠ 0) :
    Searches hardcore m patch ramStart length ↔ SearchFits m patch ramStart length := by
  have hpos := align_pos halign
  have hlt := patch.align.isLt
  rcases Nat.lt_or_ge (length.toNat + 1) patch.align.toNat with hwrap | hle
  · constructor
    · rintro ⟨fuel, probes, found, hrun, hregion, hlowest⟩
      obtain ⟨s, hs, rfl, rfl⟩ := searchLoop_of_applySearch horiginal halign hrun
      have hzero : ∀ k, InRegion length patch.align k → k = 0 := by
        intro k hk
        rw [InRegion] at hk
        by_contra hne
        have hmul := Nat.le_mul_of_pos_left patch.align.toNat (Nat.pos_of_ne_zero hne)
        omega
      refine .inr ⟨hwrap, ?_, ?_⟩
      · obtain ⟨k, hk, -⟩ := hregion _ (place_zero_mem hwrap hs)
        exact Nat.pos_of_ne_zero fun h => by
          rw [InRegion, h] at hk
          exact Nat.not_lt_zero _ hk
      · by_contra hnone
        rw [not_or, not_lt] at hnone
        obtain ⟨k, hk, hplace⟩ := hregion _ (searchLoop_wrap_second hwrap hnone.1 hnone.2 hs)
        rw [hzero k hk, place_one, place_zero] at hplace
        exact halign (by simpa using hplace)
    · rintro (⟨hle, -⟩ | ⟨-, hlength, hfirst⟩)
      · omega
      · exact searches_first horiginal halign hwrap hlength hfirst
  · obtain ⟨s, n, hs, h, hend⟩ := @searchLoop_spec m patch.original ramStart patch.align length hpos hle
    constructor
    · rintro ⟨fuel, probes, found, hrun, hregion, hlowest⟩
      obtain ⟨s', hs', rfl, rfl⟩ := searchLoop_of_applySearch horiginal halign hrun
      obtain rfl := searchLoop_unique hs hs'
      refine .inl ⟨hle, ?_⟩
      by_contra hnone
      rw [not_or, not_or, not_not] at hnone
      obtain ⟨hdvd, hbefore, hlast⟩ := hnone
      have hin : InRegion length patch.align (length.toNat / patch.align.toNat) :=
        lt_of_le_of_ne (Nat.div_mul_le_self _ _) fun h => hdvd ⟨_, by rw [Nat.mul_comm, h]⟩
      cases hfound : s.found with
      | none =>
        rw [hfound] at hlowest
        exact hlowest _ hin hlast
      | some address =>
        obtain ⟨hn, -, hmatch⟩ := h.found address hfound
        exact hbefore ⟨n, hn, hmatch⟩
    · rintro (⟨-, hlast⟩ | ⟨hwrap, -⟩)
      · refine ⟨_, _, _, applySearch_eq horiginal halign hs, fun address => inRegion_of_probed halign h, ?_⟩
        cases hfound : s.found with
        | some address =>
          obtain ⟨hn, haddress, hmatch⟩ := h.found address hfound
          exact ⟨n, inRegion_of_lt halign hn, haddress, hmatch, h.before⟩
        | none =>
          have hbefore := h.before
          rw [hend hfound] at hbefore
          intro k hk hmatch
          have hle : k ≤ length.toNat / patch.align.toNat :=
            (Nat.le_div_iff_mul_le hpos).mpr (le_of_lt hk)
          obtain hlt | rfl := Nat.lt_or_eq_of_le hle
          · exact hbefore k hlt hmatch
          · rcases hlast with hdvd | ⟨j, hj, hmatch'⟩ | hnot
            · rw [InRegion, Nat.div_mul_cancel hdvd] at hk
              exact lt_irrefl _ hk
            · exact hbefore j hj hmatch'
            · exact hnot hmatch
      · omega

/-- A region of 64 bytes, of which the third whole step has the original byte. -/
theorem searches_sample : Searches false (fun a => some (if a = 0x80000020 then 1 else 0))
    ⟨[2], [1], 16⟩ 0x80000000 64 :=
  (searches_iff (by decide) (by decide)).mpr (.inl ⟨by decide, .inl (by decide)⟩)

/-- An alignment that is larger than the region: the second step is outside of it. -/
theorem not_searches_large_align : ¬Searches false (fun _ => some 0) ⟨[2], [1], 0x40⟩ 0x80000000 0x10 := by
  rintro ⟨fuel, probes, found, hrun, hregion, -⟩
  obtain ⟨s, hs, rfl, rfl⟩ := searchLoop_of_applySearch (by decide) (by decide) hrun
  have hmem := searchLoop_wrap_second (by decide) (by simp [MatchAt, memoryMatchesAt]) (by decide) hs
  obtain ⟨k, hk, hplace⟩ := hregion _ hmem
  have hk' : k * 64 < 16 := hk
  obtain rfl : k = 0 := by omega
  exact absurd hplace (by decide)

end Main

end Riivolution
