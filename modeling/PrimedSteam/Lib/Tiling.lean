import Mathlib.Data.List.Pairwise
import Mathlib.Algebra.Order.Group.Multiset

/-!
# Ranges laid end to end

A range `(a, b)` stands for the addresses `a ≤ x < b`.

* `Tiles a b l`: the ranges of `l` follow each other without a gap from `a` to `b`.
* `ExactCover a b l`: they are in order and hold each address of `[a, b)` once, and no other.
* `Tiles.exactCover`: the first gives the second.
-/

set_option autoImplicit false

namespace Tiling

abbrev Range := ℕ × ℕ

/-- The ranges follow each other without a gap, from `a` to `b`. -/
def Tiles : ℕ → ℕ → List Range → Prop
  | a, b, [] => a = b
  | a, b, r :: l => r.1 = a ∧ r.1 ≤ r.2 ∧ Tiles r.2 b l

/-- How many of the ranges hold `x`. -/
def copies (l : List Range) (x : ℕ) : ℕ := l.countP fun r => r.1 ≤ x ∧ x < r.2

/-- The ranges are in order and hold each address of `[a, b)` once, and no other address. -/
structure ExactCover (a b : ℕ) (l : List Range) : Prop where
  inOrder : l.Pairwise fun r s => r.2 ≤ s.1
  once : ∀ x, copies l x = if a ≤ x ∧ x < b then 1 else 0

@[simp] theorem copies_append (l l' : List Range) (x : ℕ) :
    copies (l ++ l') x = copies l x + copies l' x :=
  List.countP_append

theorem copies_cons (r : Range) (l : List Range) (x : ℕ) :
    copies (r :: l) x = copies l x + if r.1 ≤ x ∧ x < r.2 then 1 else 0 := by
  unfold copies
  rw [List.countP_cons]
  simp only [decide_eq_true_eq]

theorem Tiles.le {a b : ℕ} {l : List Range} (h : Tiles a b l) : a ≤ b := by
  induction l generalizing a with
  | nil => exact Nat.le_of_eq h
  | cons r l ih =>
    obtain ⟨ha, hr, hl⟩ := h
    have := ih hl
    omega

theorem Tiles.append {a b c : ℕ} {l l' : List Range} (h : Tiles a b l) (h' : Tiles b c l') :
    Tiles a c (l ++ l') := by
  induction l generalizing a with
  | nil =>
    obtain rfl : a = b := h
    exact h'
  | cons r l ih => exact ⟨h.1, h.2.1, ih h.2.2⟩

theorem tiles_singleton {a b : ℕ} (h : a ≤ b) : Tiles a b [(a, b)] := ⟨rfl, h, rfl⟩

/-- All ranges of a tiling lie inside it. -/
theorem Tiles.bounds {a b : ℕ} {l : List Range} (h : Tiles a b l) :
    ∀ r ∈ l, a ≤ r.1 ∧ r.1 ≤ r.2 ∧ r.2 ≤ b := by
  induction l generalizing a with
  | nil => simp
  | cons r l ih =>
    obtain ⟨ha, hr, hl⟩ := h
    have hle := hl.le
    intro s hs
    rcases List.mem_cons.mp hs with rfl | hs
    · omega
    · have := ih hl s hs
      omega

/-- **A tiling holds each address once.** -/
theorem Tiles.copies_eq {a b : ℕ} {l : List Range} (h : Tiles a b l) (x : ℕ) :
    copies l x = if a ≤ x ∧ x < b then 1 else 0 := by
  induction l generalizing a with
  | nil =>
    obtain rfl : a = b := h
    rw [if_neg (by omega)]
    rfl
  | cons r l ih =>
    obtain ⟨rfl, hr, hl⟩ := h
    have hle := hl.le
    rw [copies_cons, ih hl]
    split_ifs <;> omega

theorem Tiles.exactCover {a b : ℕ} {l : List Range} (h : Tiles a b l) : ExactCover a b l where
  once := h.copies_eq
  inOrder := by
    induction l generalizing a with
    | nil => exact List.Pairwise.nil
    | cons r l ih =>
      refine List.Pairwise.cons (fun s hs => ?_) (ih h.2.2)
      exact (h.2.2.bounds s hs).1

end Tiling
