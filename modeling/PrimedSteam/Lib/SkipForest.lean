import Mathlib.Algebra.Order.Ring.Nat
import Mathlib.Data.List.Basic

/-!
# Forests with skip indexes

The entries of a forest stand in preorder. `next i` is the first entry after `i` that is not in the
subtree of `i`; an entry that is no node is followed by the next one.

* `Forest C p a b`: the entries from `a` up to `b` are a forest below `p`, whose entries meet the
  condition `C` with their parents.
* `Innermost q j`: `q` is the innermost node around `j`; `Forest.parent`: it is the parent.
* `Forest.siblings`: going from `next` to `next` ends, at the children of a node.
* `enclosing_eq`: the nodes around an entry, from the outermost to the innermost.
-/

set_option autoImplicit false

namespace SkipForest

variable (isNode : ℕ → Bool) (next : ℕ → ℕ) (C : ℕ → ℕ → Prop)

inductive Forest : ℕ → ℕ → ℕ → Prop where
  | nil (p a : ℕ) : Forest p a a
  | leaf {p a b : ℕ} (hnode : isNode a = false) (hC : C p a) (hnext : next a = a + 1)
      (hrest : Forest p (a + 1) b) : Forest p a b
  | node {p a b : ℕ} (hnode : isNode a = true) (hC : C p a)
      (hchildren : Forest a (a + 1) (next a)) (hrest : Forest p (next a) b) : Forest p a b

/-- `q` is the innermost node around `j`. -/
structure Innermost (q j : ℕ) : Prop where
  node : isNode q = true
  lt : q < j
  lt_next : j < next q
  inner : ∀ k, q < k → k < j → next k ≤ j

/-- The entries from `a` on, going from `next` to `next`, up to `b`. -/
inductive Siblings : ℕ → ℕ → List ℕ → Prop where
  | nil (a : ℕ) : Siblings a a []
  | cons {a b : ℕ} {l : List ℕ} (hlt : a < next a) (hle : next a ≤ b)
      (hrest : Siblings (next a) b l) : Siblings a b (a :: l)

variable {isNode next C} {p a b : ℕ}

namespace Forest

theorem le (h : Forest isNode next C p a b) : a ≤ b := by
  induction h with
  | nil => exact le_rfl
  | leaf _ _ _ _ ih => omega
  | node _ _ _ _ ih₁ ih₂ => omega

theorem lt_next (h : Forest isNode next C p a b) {j : ℕ} (ha : a ≤ j) (hb : j < b) :
    j < next j ∧ next j ≤ b := by
  induction h with
  | nil => omega
  | @leaf p a b hnode hC hnext hrest ih =>
    rcases Nat.eq_or_lt_of_le ha with rfl | hlt
    · have hle := hrest.le
      omega
    · exact ih hlt hb
  | @node p a b hnode hC hchildren hrest ih₁ ih₂ =>
    have hle₁ := hchildren.le
    have hle₂ := hrest.le
    rcases Nat.eq_or_lt_of_le ha with rfl | hlt
    · omega
    · rcases Nat.lt_or_ge j (next a) with hj | hj
      · have hin := ih₁ hlt hj
        omega
      · exact ih₂ hj hb

theorem nested (h : Forest isNode next C p a b) {k j : ℕ} (ha : a ≤ k) (hb : k < b) (hkj : k < j)
    (hj : j < next k) : next j ≤ next k := by
  induction h with
  | nil => omega
  | @leaf p a b hnode hC hnext hrest ih =>
    rcases Nat.eq_or_lt_of_le ha with rfl | hlt
    · omega
    · exact ih hlt hb
  | @node p a b hnode hC hchildren hrest ih₁ ih₂ =>
    rcases Nat.eq_or_lt_of_le ha with rfl | hlt
    · exact (hchildren.lt_next hkj hj).2
    · rcases Nat.lt_or_ge k (next a) with hin | hout
      · exact ih₁ hlt hin
      · exact ih₂ hout hb

theorem children (h : Forest isNode next C p a b) {q : ℕ} (ha : a ≤ q) (hb : q < b)
    (hq : isNode q = true) : Forest isNode next C q (q + 1) (next q) := by
  induction h with
  | nil => omega
  | @leaf p a b hnode hC hnext hrest ih =>
    rcases Nat.eq_or_lt_of_le ha with rfl | hlt
    · exact absurd (hnode.symm.trans hq) (by decide)
    · exact ih hlt hb
  | @node p a b hnode hC hchildren hrest ih₁ ih₂ =>
    rcases Nat.eq_or_lt_of_le ha with rfl | hlt
    · exact hchildren
    · rcases Nat.lt_or_ge q (next a) with hin | hout
      · exact ih₁ hlt hin
      · exact ih₂ hout hb

/-- **The parent of an entry**: it is `p`, for the entries that no other one is around, and else the
innermost node. -/
theorem parent (h : Forest isNode next C p a b) {j : ℕ} (ha : a ≤ j) (hb : j < b) :
    (C p j ∧ ∀ k, a ≤ k → k < j → next k ≤ j) ∨ ∃ q, a ≤ q ∧ Innermost isNode next q j ∧ C q j := by
  induction h with
  | nil => omega
  | @leaf p a b hnode hC hnext hrest ih =>
    rcases Nat.eq_or_lt_of_le ha with rfl | hlt
    · exact Or.inl ⟨hC, fun k hk hkj => absurd hk (not_le.mpr hkj)⟩
    · rcases ih hlt hb with ⟨hp, htop⟩ | ⟨q, hq, hin, hCq⟩
      · refine Or.inl ⟨hp, fun k hk hkj => ?_⟩
        rcases Nat.eq_or_lt_of_le hk with rfl | hk
        · omega
        · exact htop k hk hkj
      · exact Or.inr ⟨q, by omega, hin, hCq⟩
  | @node p a b hnode hC hchildren hrest ih₁ ih₂ =>
    rcases Nat.eq_or_lt_of_le ha with rfl | hlt
    · exact Or.inl ⟨hC, fun k hk hkj => absurd hk (not_le.mpr hkj)⟩
    · rcases Nat.lt_or_ge j (next a) with hj | hj
      · rcases ih₁ hlt hj with ⟨hp, htop⟩ | ⟨q, hq, hin, hCq⟩
        · exact Or.inr ⟨a, le_rfl, ⟨hnode, hlt, hj, htop⟩, hp⟩
        · exact Or.inr ⟨q, by omega, hin, hCq⟩
      · rcases ih₂ hj hb with ⟨hp, htop⟩ | ⟨q, hq, hin, hCq⟩
        · refine Or.inl ⟨hp, fun k hk hkj => ?_⟩
          rcases Nat.eq_or_lt_of_le hk with rfl | hk
          · exact hj
          · rcases Nat.lt_or_ge k (next a) with hka | hka
            · exact (hchildren.lt_next hk hka).2.trans hj
            · exact htop k hka hkj
        · have hle := hchildren.le
          exact Or.inr ⟨q, by omega, hin, hCq⟩

/-- **Going from `next` to `next` ends**, after at most as many steps as there are entries, and passes
the entries that no other one is around. -/
theorem siblings (h : Forest isNode next C p a b) : ∃ l, Siblings next a b l ∧ l.length ≤ b - a ∧
    ∀ c, c ∈ l ↔ a ≤ c ∧ c < b ∧ ∀ k, a ≤ k → k < c → next k ≤ c := by
  induction h with
  | nil p a =>
    refine ⟨[], .nil a, Nat.zero_le _, fun c => iff_of_false List.not_mem_nil ?_⟩
    rintro ⟨ha, hb, -⟩
    omega
  | @leaf p a b hnode hC hnext hrest ih =>
    obtain ⟨l, hl, hlength, hmem⟩ := ih
    have hle := hrest.le
    refine ⟨a :: l, .cons (by omega) (by omega) (hnext ▸ hl), ?_, fun c => ?_⟩
    · rw [List.length_cons]
      omega
    · rw [List.mem_cons, hmem]
      constructor
      · rintro (rfl | ⟨ha, hb, htop⟩)
        · exact ⟨le_rfl, by omega, fun k hk hkc => absurd hk (not_le.mpr hkc)⟩
        · refine ⟨by omega, hb, fun k hk hkc => ?_⟩
          rcases Nat.eq_or_lt_of_le hk with rfl | hk
          · omega
          · exact htop k hk hkc
      · rintro ⟨ha, hb, htop⟩
        rcases Nat.eq_or_lt_of_le ha with rfl | hlt
        · exact Or.inl rfl
        · exact Or.inr ⟨hlt, hb, fun k hk hkc => htop k (by omega) hkc⟩
  | @node p a b hnode hC hchildren hrest ih₁ ih₂ =>
    obtain ⟨l, hl, hlength, hmem⟩ := ih₂
    have hle₁ := hchildren.le
    have hle₂ := hrest.le
    refine ⟨a :: l, .cons (by omega) hle₂ hl, ?_, fun c => ?_⟩
    · rw [List.length_cons]
      omega
    · rw [List.mem_cons, hmem]
      constructor
      · rintro (rfl | ⟨ha, hb, htop⟩)
        · exact ⟨le_rfl, by omega, fun k hk hkc => absurd hk (not_le.mpr hkc)⟩
        · refine ⟨by omega, hb, fun k hk hkc => ?_⟩
          rcases Nat.eq_or_lt_of_le hk with rfl | hk
          · exact ha
          · rcases Nat.lt_or_ge k (next a) with hka | hka
            · exact (hchildren.lt_next hk hka).2.trans ha
            · exact htop k hka hkc
      · rintro ⟨ha, hb, htop⟩
        rcases Nat.eq_or_lt_of_le ha with rfl | hlt
        · exact Or.inl rfl
        · have hout := htop a le_rfl hlt
          exact Or.inr ⟨hout, hb, fun k hk hkc => htop k (by omega) hkc⟩

end Forest

/-! ## A tree -/

variable (isNode next C) in
/-- The entry 0 is a node, and the entries up to `n` are below it. -/
structure Tree (n : ℕ) : Prop where
  root : isNode 0 = true
  next_eq : next 0 = n
  forest : Forest isNode next C 0 1 n

namespace Tree

variable {n : ℕ}

theorem pos (h : Tree isNode next C n) : 0 < n := h.forest.le

theorem lt_next (h : Tree isNode next C n) {j : ℕ} (hj : j < n) : j < next j ∧ next j ≤ n := by
  rcases Nat.eq_zero_or_pos j with rfl | hpos
  · exact ⟨h.next_eq.symm ▸ hj, h.next_eq.le⟩
  · exact h.forest.lt_next hpos hj

theorem nested (h : Tree isNode next C n) {k j : ℕ} (hk : k < n) (hkj : k < j) (hj : j < next k) :
    next j ≤ next k := by
  rcases Nat.eq_zero_or_pos k with rfl | hpos
  · rw [h.next_eq] at hj ⊢
    exact (h.lt_next hj).2
  · exact h.forest.nested hpos hk hkj hj

theorem children (h : Tree isNode next C n) {q : ℕ} (hq : q < n) (hnode : isNode q = true) :
    Forest isNode next C q (q + 1) (next q) := by
  rcases Nat.eq_zero_or_pos q with rfl | hpos
  · rw [h.next_eq]
    exact h.forest
  · exact h.forest.children hpos hq hnode

/-- Every entry but the first has a parent, the innermost node around it. -/
theorem parent (h : Tree isNode next C n) {j : ℕ} (hpos : 0 < j) (hj : j < n) :
    ∃ q, Innermost isNode next q j ∧ C q j := by
  rcases h.forest.parent hpos hj with ⟨hC, htop⟩ | ⟨q, -, hin, hC⟩
  · exact ⟨0, ⟨h.root, hpos, h.next_eq.symm ▸ hj, htop⟩, hC⟩
  · exact ⟨q, hin, hC⟩

theorem siblings (h : Tree isNode next C n) {q : ℕ} (hq : q < n) (hnode : isNode q = true) :
    ∃ l, Siblings next (q + 1) (next q) l ∧ l.length < n ∧
      ∀ c, c ∈ l ↔ Innermost isNode next q c := by
  obtain ⟨l, hl, hlength, hmem⟩ := (h.children hq hnode).siblings
  have hle := (h.lt_next hq).2
  refine ⟨l, hl, by omega, fun c => (hmem c).trans ⟨?_, ?_⟩⟩
  · rintro ⟨hlt, hnext, htop⟩
    exact ⟨hnode, hlt, hnext, htop⟩
  · rintro ⟨-, hlt, hnext, htop⟩
    exact ⟨hlt, hnext, htop⟩

end Tree

/-! ## The nodes around an entry -/

variable (isNode next) in
/-- The nodes around an entry but the first one, from the outermost on. -/
def enclosing (j : ℕ) : List ℕ := (List.range j).filter fun d => d ≠ 0 ∧ isNode d ∧ j < next d

/-- **The chain of parents** of an entry. -/
theorem Tree.enclosing_eq {n : ℕ} (h : Tree isNode next C n) {q j : ℕ} (hj : j < n)
    (hin : Innermost isNode next q j) :
    enclosing isNode next j = enclosing isNode next q ++ if q = 0 then [] else [q] := by
  have hlt := hin.lt
  have hrange : List.range j = List.range q ++ [q] ++ (List.range (j - (q + 1))).map (q + 1 + ·) := by
    rw [← List.range_succ, ← List.range_add]
    congr 1
    omega
  have houter : ∀ d ∈ List.range q, (decide (d ≠ 0 ∧ isNode d ∧ j < next d)) =
      decide (d ≠ 0 ∧ isNode d ∧ q < next d) := by
    intro d hd
    have hdq := List.mem_range.mp hd
    congr 1
    refine propext (and_congr_right fun _ => and_congr_right fun _ => ⟨fun hd => by omega, fun hd => ?_⟩)
    have hnested := h.nested (by omega) hdq hd
    have hnext := hin.lt_next
    omega
  have hinner : ((List.range (j - (q + 1))).map (q + 1 + ·)).filter
      (fun d => decide (d ≠ 0 ∧ isNode d ∧ j < next d)) = [] := by
    refine List.filter_eq_nil_iff.mpr fun d hd hdecide => ?_
    obtain ⟨i, hi, rfl⟩ := List.mem_map.mp hd
    have hi' := List.mem_range.mp hi
    exact absurd (of_decide_eq_true hdecide).2.2 (not_lt.mpr (hin.inner _ (by omega) (by omega)))
  unfold enclosing
  rw [hrange, List.filter_append, List.filter_append, hinner, List.append_nil,
    List.filter_congr houter]
  congr 1
  by_cases hq : q = 0
  · rw [if_pos hq, List.filter_singleton, decide_eq_false (fun hand => hand.1 hq)]
    rfl
  · rw [if_neg hq, List.filter_singleton, decide_eq_true ⟨hq, hin.node, hin.lt_next⟩]
    rfl

end SkipForest
