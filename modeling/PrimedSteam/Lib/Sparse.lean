import Mathlib.Algebra.Order.Group.Multiset
import Mathlib.Tactic.Abel

/-!
# Sparse lists

A list is given by segments, each with its offset; what is between them has a default value.

* `render`: the values from a position to the end.
* `Ordered`: the segments are in order, none is empty and all end before the end.
-/

set_option autoImplicit false

namespace Sparse

variable {α : Type*} {z : α} {size n : ℕ} {segs : List (ℕ × List α)}

def render (z : α) (size : ℕ) : ℕ → List (ℕ × List α) → List α
  | n, [] => List.replicate (size - n) z
  | n, (offset, values) :: segs =>
    List.replicate (offset - n) z ++ (values ++ render z size (offset + values.length) segs)

def Ordered (size : ℕ) : ℕ → List (ℕ × List α) → Prop
  | n, [] => n ≤ size
  | n, (offset, values) :: segs =>
    n ≤ offset ∧ values ≠ [] ∧ Ordered size (offset + values.length) segs

theorem Ordered.le (h : Ordered size n segs) : n ≤ size := by
  induction segs generalizing n with
  | nil => exact h
  | cons seg segs ih =>
    have hrest := ih h.2.2
    have hfirst := h.1
    omega

end Sparse
