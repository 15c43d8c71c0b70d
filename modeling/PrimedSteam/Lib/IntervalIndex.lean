import PrimedSteam.Lib.OrderedMap
import Mathlib.Order.CompletePartialOrder
import Mathlib.Order.Interval.Set.Disjoint

/-!
# Intervals indexed by their ends

Intervals with labels are kept in an ordered map, each under its end; of intervals that end together
the first is kept. A point is looked up as the first end after it.

* `Found m e`: the look-up of the start of `e` yields `e`.
* **`found_iff_disjoint`**: all intervals are found from their starts if and only if each of them ends
  after its start and no two of them meet.
* `Found.next_eq`: then the look-up of every point of an interval yields that interval.
-/

set_option autoImplicit false

/-- A half-open interval. -/
structure Extent (κ ν : Type*) where
  start : κ
  stop : κ
  label : ν

namespace Extent

variable {κ ν : Type*} [LinearOrder κ] [Inhabited ν]

/-- One interval ends before the other starts. -/
def Apart (a b : Extent κ ν) : Prop := a.stop ≤ b.start ∨ b.stop ≤ a.start

/-- The map of the ends. -/
def byEnd (l : List (Extent κ ν)) : OrderedMap κ ν :=
  l.foldl (fun m e => m.emplace e.stop e.label) .empty

/-- The look-up of the start yields the interval. -/
def Found (m : OrderedMap κ ν) (e : Extent κ ν) : Prop :=
  ∃ k, m.next e.start = some k ∧ m.get k = e.label

omit [Inhabited ν] in
instance : Std.Symm (Apart : Extent κ ν → Extent κ ν → Prop) := ⟨fun _ _ => Or.symm⟩

omit [Inhabited ν] in
theorem apart_iff_disjoint {a b : Extent κ ν} (ha : a.start < a.stop) (hb : b.start < b.stop) :
    Apart a b ↔ Disjoint (Set.Ico a.start a.stop) (Set.Ico b.start b.stop) := by
  rw [Set.Ico_disjoint_Ico, min_le_iff, le_max_iff, le_max_iff, Apart]
  constructor
  · rintro (h | h)
    · exact .inl (.inr h)
    · exact .inr (.inl h)
  · rintro ((h | h) | (h | h))
    · exact absurd ha (not_lt.mpr h)
    · exact .inl h
    · exact .inr h
    · exact absurd hb (not_lt.mpr h)

theorem mem_keys_foldl {l : List (Extent κ ν)} {m : OrderedMap κ ν} {k : κ} :
    k ∈ (l.foldl (fun m e => m.emplace e.stop e.label) m).keys ↔
      k ∈ m.keys ∨ ∃ e ∈ l, e.stop = k := by
  induction l generalizing m with
  | nil => simp
  | cons e l ih =>
    rw [List.foldl_cons, ih, OrderedMap.mem_keys_emplace, List.exists_mem_cons_iff]
    tauto

theorem get_foldl {l : List (Extent κ ν)} {m : OrderedMap κ ν} {k : κ}
    (hk : k ∈ (l.foldl (fun m e => m.emplace e.stop e.label) m).keys) :
    (k ∈ m.keys ∧ (l.foldl (fun m e => m.emplace e.stop e.label) m).get k = m.get k) ∨
      ∃ e ∈ l, e.stop = k ∧ (l.foldl (fun m e => m.emplace e.stop e.label) m).get k = e.label := by
  induction l generalizing m with
  | nil => exact .inl ⟨hk, rfl⟩
  | cons e l ih =>
    rcases ih hk with ⟨hmem, hget⟩ | ⟨e', he', hstop, hget⟩
    · rw [List.foldl_cons, hget, OrderedMap.get_emplace]
      rw [OrderedMap.mem_keys_emplace] at hmem
      by_cases hnew : k = e.stop ∧ e.stop ∉ m.keys
      · exact .inr ⟨e, List.mem_cons_self, hnew.1.symm, if_pos hnew⟩
      · refine .inl ⟨?_, if_neg hnew⟩
        rcases hmem with heq | hmem
        · by_contra hk'
          exact hnew ⟨heq, heq ▸ hk'⟩
        · exact hmem
    · exact .inr ⟨e', List.mem_cons_of_mem e he', hstop, hget⟩

section

variable {l : List (Extent κ ν)}

theorem mem_keys_byEnd {k : κ} : k ∈ (byEnd l).keys ↔ ∃ e ∈ l, e.stop = k := by
  rw [byEnd, mem_keys_foldl]
  simp

theorem get_byEnd {k : κ} (hk : k ∈ (byEnd l).keys) :
    ∃ e ∈ l, e.stop = k ∧ (byEnd l).get k = e.label := by
  rcases get_foldl hk with ⟨hmem, -⟩ | h
  · cases hmem
  · exact h

/-- **An interval that is found from its start is found under its end**, which is the first one after
the start. -/
theorem found_iff (hl : (l.map label).Nodup) {e : Extent κ ν} (he : e ∈ l) :
    Found (byEnd l) e ↔
      (byEnd l).get e.stop = e.label ∧ e.start < e.stop ∧
        ∀ e' ∈ l, e.start < e'.stop → e.stop ≤ e'.stop := by
  constructor
  · rintro ⟨k, hnext, hget⟩
    obtain ⟨hk, hlt, hle⟩ := (OrderedMap.next_eq_some_iff _).mp hnext
    obtain ⟨e', he', hstop, hget'⟩ := get_byEnd hk
    -- the labels tell that the interval under `k` is this one
    obtain rfl : e' = e := List.inj_on_of_nodup_map hl he' he (hget'.symm.trans hget)
    subst hstop
    exact ⟨hget, hlt, fun e'' he'' => hle _ (mem_keys_byEnd.mpr ⟨e'', he'', rfl⟩)⟩
  · rintro ⟨hget, hlt, hle⟩
    refine ⟨e.stop, (OrderedMap.next_eq_some_iff _).mpr
      ⟨mem_keys_byEnd.mpr ⟨e, he, rfl⟩, hlt, fun y hy hy' => ?_⟩, hget⟩
    obtain ⟨e', he', rfl⟩ := mem_keys_byEnd.mp hy
    exact hle e' he' hy'

/-- **Every interval is found if and only if they do not meet.** -/
theorem found_iff_disjoint (hl : (l.map label).Nodup) :
    (∀ e ∈ l, Found (byEnd l) e) ↔ (∀ e ∈ l, e.start < e.stop) ∧ l.Pairwise Apart := by
  constructor
  · intro hfound
    have hspec := fun e he => (found_iff hl he).mp (hfound e he)
    refine ⟨fun e he => (hspec e he).2.1, ?_⟩
    refine (List.Nodup.of_map label hl).pairwise_of_forall_ne fun a ha b hb hne => ?_
    obtain ⟨hgetA, -, hleA⟩ := hspec a ha
    obtain ⟨hgetB, -, hleB⟩ := hspec b hb
    rcases lt_trichotomy a.stop b.stop with hlt | heq | hgt
    · exact .inl (le_of_not_gt fun h => absurd (hleB a ha h) (not_le.mpr hlt))
    · rw [heq, hgetB] at hgetA
      exact absurd (List.inj_on_of_nodup_map hl hb ha hgetA).symm hne
    · exact .inr (le_of_not_gt fun h => absurd (hleA b hb h) (not_le.mpr hgt))
  · rintro ⟨hproper, hapart⟩ e he
    have hapart' : ∀ e' ∈ l, e' ≠ e → Apart e' e := fun e' he' hne =>
      hapart.forall he' he hne
    refine (found_iff hl he).mpr ⟨?_, hproper e he, fun e' he' hlt => ?_⟩
    · obtain ⟨e', he', hstop, hget⟩ := get_byEnd (mem_keys_byEnd.mpr ⟨e, he, rfl⟩)
      by_cases hne : e' = e
      · rw [hget, hne]
      · rcases hapart' e' he' hne with h | h
        · exact absurd (hproper e he) (not_lt.mpr (hstop ▸ h))
        · exact absurd (hproper e' he') (not_lt.mpr (hstop ▸ h))
    · by_cases hne : e' = e
      · rw [hne]
      · rcases hapart' e' he' hne with h | h
        · exact absurd hlt (not_lt.mpr h)
        · exact h.trans (hproper e' he').le

/-- **Every point of an interval that is found from its start is found.** -/
theorem Found.next_eq (hl : (l.map label).Nodup) {e : Extent κ ν} (he : e ∈ l)
    (hfound : Found (byEnd l) e) {x : κ} (hstart : e.start ≤ x) (hstop : x < e.stop) :
    (byEnd l).next x = some e.stop ∧ (byEnd l).get e.stop = e.label := by
  obtain ⟨hget, -, hle⟩ := (found_iff hl he).mp hfound
  refine ⟨(OrderedMap.next_eq_some_iff _).mpr
    ⟨mem_keys_byEnd.mpr ⟨e, he, rfl⟩, hstop, fun y hy hy' => ?_⟩, hget⟩
  obtain ⟨e', he', rfl⟩ := mem_keys_byEnd.mp hy
  exact hle e' he' (hstart.trans_lt hy')

end

end Extent
