import Mathlib.Algebra.Order.Group.Multiset
import Mathlib.Tactic.Abel

/-!
# Tables of bit patterns

A pattern fixes the bits of its mask. In a table of patterns the first one that a word matches counts.

* `Compatible`: some word matches both.
* `Covers`: each word that matches the second pattern matches the first one.
* `find?_eq_of_covers`: which entry of a table all words of a pattern find.
-/

set_option autoImplicit false

structure BitPattern (w : ℕ) where
  value : BitVec w
  mask : BitVec w

namespace BitPattern

variable {w : ℕ} {p q : BitPattern w} {x : BitVec w} {α : Type*}

def Matches (p : BitPattern w) (x : BitVec w) : Bool := x &&& p.mask == p.value

def Compatible (p q : BitPattern w) : Bool := (p.value ^^^ q.value) &&& (p.mask &&& q.mask) == 0

def Covers (q p : BitPattern w) : Bool := q.mask &&& p.mask == q.mask && p.value &&& q.mask == q.value

theorem compatible_of_matches (hp : p.Matches x = true) (hq : q.Matches x = true) :
    p.Compatible q = true := by
  simp only [Matches, Compatible, beq_iff_eq] at hp hq ⊢
  rw [← hp, ← hq]
  ext i
  simp only [BitVec.getElem_and, BitVec.getElem_xor]
  cases x[i] <;> cases p.mask[i] <;> cases q.mask[i] <;> simp

theorem matches_of_covers (h : q.Covers p = true) (hp : p.Matches x = true) : q.Matches x = true := by
  simp only [Matches, Covers, Bool.and_eq_true, beq_iff_eq] at h hp ⊢
  obtain ⟨hmask, hvalue⟩ := h
  rw [← hvalue, ← hp, BitVec.and_assoc, BitVec.and_comm p.mask, hmask]

/-- All words of a pattern find the first compatible entry, if it covers the pattern. -/
theorem find?_eq_of_covers {entries : List α} {pattern : α → BitPattern w} {e : α}
    (hp : p.Matches x = true) (hfirst : entries.find? (fun a => p.Compatible (pattern a)) = some e)
    (hcovers : (pattern e).Covers p = true) :
    entries.find? (fun a => (pattern a).Matches x) = some e := by
  rw [List.find?_eq_some_iff_append] at hfirst ⊢
  obtain ⟨-, before, after, hsplit, hbefore⟩ := hfirst
  refine ⟨matches_of_covers hcovers hp, before, after, hsplit, fun a ha => ?_⟩
  have hnot := hbefore a ha
  by_contra hmatches
  rw [compatible_of_matches hp (by simpa using hmatches)] at hnot
  exact absurd hnot (by decide)

end BitPattern
