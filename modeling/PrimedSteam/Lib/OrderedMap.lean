import Mathlib.Algebra.Order.Group.Multiset
import Mathlib.Data.List.Pairwise
import Mathlib.Logic.Function.Basic

/-!
# Maps with ordered keys

`OrderedMap κ ν` is a finite map whose keys are kept in increasing order. A key that is not in the
map reads as `default`. An iterator is the key it points to, or `none` at the end.

* `modify k f`: inserts `k` if it is not there, then applies `f` to its value.
* `emplace k v`: inserts `k` with the value `v` if it is not there.
* `erase k`, `lowerBound k`, `next k`.
* `lowerBound_eq_some_iff`, `next_eq_some_iff`: what the iterators point to.
-/

set_option autoImplicit false

/-- A finite map with its keys in increasing order. -/
structure OrderedMap (κ ν : Type*) [LinearOrder κ] [Inhabited ν] where
  keys : List κ
  get : κ → ν
  sorted : keys.Pairwise (· < ·)
  get_of_notMem : ∀ k, k ∉ keys → get k = default

namespace OrderedMap

variable {κ ν : Type*} [LinearOrder κ] [Inhabited ν]

def empty : OrderedMap κ ν := ⟨[], fun _ => default, .nil, fun _ _ => rfl⟩

variable (m : OrderedMap κ ν)

/-- The element under `k`, made if there is none, is changed by `f`. -/
def modify (k : κ) (f : ν → ν) : OrderedMap κ ν where
  keys := m.keys.filter (· < k) ++ k :: m.keys.filter (k < ·)
  get := Function.update m.get k (f (m.get k))
  sorted := by
    refine List.pairwise_append.mpr ⟨m.sorted.filter _, ?_, ?_⟩
    · refine List.Pairwise.cons (fun x hx => ?_) (m.sorted.filter _)
      simpa using (List.mem_filter.mp hx).2
    · intro x hx y hy
      have hxk : x < k := by simpa using (List.mem_filter.mp hx).2
      rcases List.mem_cons.mp hy with rfl | hy
      · exact hxk
      · exact hxk.trans (by simpa using (List.mem_filter.mp hy).2)
  get_of_notMem := by
    intro x hx
    have hne : x ≠ k := fun h => hx (by simp [h])
    rw [Function.update_of_ne hne]
    refine m.get_of_notMem x fun hmem => hx ?_
    rcases lt_or_gt_of_ne hne with hlt | hgt
    · exact List.mem_append_left _ (List.mem_filter.mpr ⟨hmem, by simpa using hlt⟩)
    · exact List.mem_append_right _
        (List.mem_cons_of_mem _ (List.mem_filter.mpr ⟨hmem, by simpa using hgt⟩))

/-- The element `v` is put under `k` if there is none. -/
def emplace (k : κ) (v : ν) : OrderedMap κ ν := if k ∈ m.keys then m else m.modify k fun _ => v

def erase (k : κ) : OrderedMap κ ν where
  keys := m.keys.filter (· ≠ k)
  get := Function.update m.get k default
  sorted := m.sorted.filter _
  get_of_notMem := by
    intro x hx
    by_cases h : x = k
    · rw [h, Function.update_self]
    · rw [Function.update_of_ne h]
      exact m.get_of_notMem x fun hmem => hx (List.mem_filter.mpr ⟨hmem, by simpa using h⟩)

/-- The first key that is not below `k`. -/
def lowerBound (k : κ) : Option κ := m.keys.find? (k ≤ ·)

/-- The key after `k`. -/
def next (k : κ) : Option κ := m.keys.find? (k < ·)

@[simp] theorem keys_empty : (empty : OrderedMap κ ν).keys = [] := rfl

theorem get_modify (k x : κ) (f : ν → ν) :
    (m.modify k f).get x = if x = k then f (m.get k) else m.get x :=
  Function.update_apply _ _ _ _

theorem get_erase (k x : κ) : (m.erase k).get x = if x = k then default else m.get x :=
  Function.update_apply _ _ _ _

theorem mem_keys_modify (k x : κ) (f : ν → ν) : x ∈ (m.modify k f).keys ↔ x = k ∨ x ∈ m.keys := by
  simp only [modify, List.mem_append, List.mem_cons, List.mem_filter, decide_eq_true_eq]
  constructor
  · rintro (⟨h, -⟩ | h | ⟨h, -⟩)
    · exact Or.inr h
    · exact Or.inl h
    · exact Or.inr h
  · rintro (h | h)
    · exact Or.inr (Or.inl h)
    · rcases lt_trichotomy x k with hlt | heq | hgt
      · exact Or.inl ⟨h, hlt⟩
      · exact Or.inr (Or.inl heq)
      · exact Or.inr (Or.inr ⟨h, hgt⟩)

theorem mem_keys_emplace (k x : κ) (v : ν) : x ∈ (m.emplace k v).keys ↔ x = k ∨ x ∈ m.keys := by
  rw [emplace]
  split
  · next hk => exact ⟨Or.inr, Or.rec (fun h => h ▸ hk) id⟩
  · exact m.mem_keys_modify k x _

theorem get_emplace (k x : κ) (v : ν) :
    (m.emplace k v).get x = if x = k ∧ k ∉ m.keys then v else m.get x := by
  rw [emplace]
  by_cases hk : k ∈ m.keys
  · rw [if_pos hk, if_neg fun h => h.2 hk]
  · rw [if_neg hk, get_modify]
    simp only [hk, not_false_eq_true, and_true]

theorem mem_keys_erase (k x : κ) : x ∈ (m.erase k).keys ↔ x ∈ m.keys ∧ x ≠ k := by
  simp [erase]

theorem mem_keys_of_get {k : κ} (h : m.get k ≠ default) : k ∈ m.keys := by
  by_contra hk
  exact h (m.get_of_notMem k hk)

/-- In increasing keys, the first that meets an upward closed condition is the least. -/
theorem find?_eq_some_iff {l : List κ} (hl : l.Pairwise (· < ·)) {p : κ → Prop} [DecidablePred p]
    {k : κ} : l.find? (fun x => p x) = some k ↔ k ∈ l ∧ p k ∧ ∀ x ∈ l, p x → k ≤ x := by
  induction l with
  | nil => simp
  | cons a l ih =>
    obtain ⟨ha, hl⟩ := List.pairwise_cons.mp hl
    rw [List.find?_cons]
    by_cases hp : p a
    · simp only [hp, decide_true]
      constructor
      · rintro ⟨⟩
        refine ⟨List.mem_cons_self, hp, fun x hx _ => ?_⟩
        rcases List.mem_cons.mp hx with rfl | hx
        · exact le_rfl
        · exact (ha x hx).le
      · rintro ⟨hk, -, hle⟩
        have hka := hle a List.mem_cons_self hp
        rcases List.mem_cons.mp hk with rfl | hk
        · rfl
        · exact absurd (ha k hk) (not_lt.mpr hka)
    · simp only [hp, decide_false]
      rw [ih hl]
      constructor
      · rintro ⟨hk, hpk, hle⟩
        refine ⟨List.mem_cons_of_mem a hk, hpk, fun x hx hpx => ?_⟩
        rcases List.mem_cons.mp hx with rfl | hx
        · exact absurd hpx hp
        · exact hle x hx hpx
      · rintro ⟨hk, hpk, hle⟩
        rcases List.mem_cons.mp hk with rfl | hk
        · exact absurd hpk hp
        · exact ⟨hk, hpk, fun x hx => hle x (List.mem_cons_of_mem a hx)⟩

theorem lowerBound_eq_some_iff {k x : κ} :
    m.lowerBound k = some x ↔ x ∈ m.keys ∧ k ≤ x ∧ ∀ y ∈ m.keys, k ≤ y → x ≤ y :=
  find?_eq_some_iff m.sorted

theorem next_eq_some_iff {k x : κ} :
    m.next k = some x ↔ x ∈ m.keys ∧ k < x ∧ ∀ y ∈ m.keys, k < y → x ≤ y :=
  find?_eq_some_iff m.sorted

/-- A lower bound depends on the keys from it on only. -/
theorem lowerBound_congr {m' : OrderedMap κ ν} {k : κ} (h : ∀ x, k ≤ x → (x ∈ m'.keys ↔ x ∈ m.keys)) :
    m'.lowerBound k = m.lowerBound k := by
  refine Option.ext fun x => ?_
  rw [lowerBound_eq_some_iff, lowerBound_eq_some_iff]
  constructor
  · rintro ⟨hx, hk, hle⟩
    exact ⟨(h x hk).mp hx, hk, fun y hy hky => hle y ((h y hky).mpr hy) hky⟩
  · rintro ⟨hx, hk, hle⟩
    exact ⟨(h x hk).mpr hx, hk, fun y hy hky => hle y ((h y hky).mp hy) hky⟩

theorem lowerBound_eq_none_iff {k : κ} : m.lowerBound k = none ↔ ∀ x ∈ m.keys, x < k := by
  simp [lowerBound, List.find?_eq_none]

end OrderedMap
