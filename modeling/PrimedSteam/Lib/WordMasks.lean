import Mathlib.Algebra.Order.Ring.Nat
import Mathlib.Data.Nat.Bits

/-!
# Masks of words

A mask whose low bits are ones keeps the offset in a block of `2 ^ k`; one whose low bits are zeros and the
others ones keeps the block.

* `and_add`: a masked number moves along in its block.
* `and_of_low_zeros`: the start of the block; `toNat_and_not` on bit vectors.
-/

set_option autoImplicit false

namespace WordMask

variable {k j x m i : ℕ}

theorem and_split (k x m : ℕ) : x &&& m = 2 ^ k * (x / 2 ^ k &&& m / 2 ^ k) + (x % 2 ^ k &&& m % 2 ^ k) := by
  rw [← Nat.and_div_two_pow, ← Nat.and_mod_two_pow, Nat.div_add_mod]

theorem and_of_low_ones (hm : m % 2 ^ k = 2 ^ k - 1) :
    x &&& m = 2 ^ k * (x / 2 ^ k &&& m / 2 ^ k) + x % 2 ^ k := by
  rw [and_split k x m, hm, Nat.and_two_pow_sub_one_eq_mod, Nat.mod_mod]

theorem and_mod (hm : m % 2 ^ k = 2 ^ k - 1) : (x &&& m) % 2 ^ k = x % 2 ^ k := by
  rw [and_of_low_ones hm, Nat.mul_add_mod, Nat.mod_mod]

theorem and_add (hm : m % 2 ^ k = 2 ^ k - 1) (hi : x % 2 ^ k + i < 2 ^ k) : x + i &&& m = (x &&& m) + i := by
  have hdiv : (x + i) / 2 ^ k = x / 2 ^ k := by
    have hsplit := Nat.div_add_mod x (2 ^ k)
    rw [← hsplit, Nat.add_assoc, Nat.mul_add_div (Nat.two_pow_pos k), Nat.div_eq_of_lt hi,
      Nat.mul_add_div (Nat.two_pow_pos k), Nat.div_eq_of_lt (Nat.mod_lt x (Nat.two_pow_pos k))]
  have hmod : (x + i) % 2 ^ k = x % 2 ^ k + i := by
    rw [← Nat.mod_add_mod, Nat.mod_eq_of_lt hi]
  rw [and_of_low_ones hm, and_of_low_ones hm, hdiv, hmod, Nat.add_assoc]

theorem and_of_low_zeros (hlow : m % 2 ^ k = 0) (hhigh : m / 2 ^ k = 2 ^ j - 1) (hx : x / 2 ^ k < 2 ^ j) :
    x &&& m = 2 ^ k * (x / 2 ^ k) := by
  rw [and_split k x m, hlow, hhigh, Nat.and_zero, Nat.and_two_pow_sub_one_eq_mod, Nat.mod_eq_of_lt hx,
    Nat.add_zero]

theorem toNat_and_not {w : ℕ} (y mask : BitVec w) (hk : k ≤ w) (hmask : mask.toNat = 2 ^ k - 1) :
    (y &&& ~~~mask).toNat = y.toNat / 2 ^ k * 2 ^ k := by
  have hsplit : 2 ^ w = 2 ^ (w - k) * 2 ^ k := by rw [← pow_add, Nat.sub_add_cancel hk]
  have hpos := Nat.two_pow_pos k
  have hnot : (~~~mask).toNat = (2 ^ (w - k) - 1) * 2 ^ k := by
    rw [BitVec.toNat_not, hmask, hsplit, Nat.sub_mul]
    omega
  have hlt : y.toNat / 2 ^ k < 2 ^ (w - k) := by
    rw [Nat.div_lt_iff_lt_mul hpos, ← hsplit]
    exact y.isLt
  rw [BitVec.toNat_and, hnot,
    and_of_low_zeros (Nat.mul_mod_left _ _) (Nat.mul_div_cancel _ hpos) hlt, Nat.mul_comm]

end WordMask
