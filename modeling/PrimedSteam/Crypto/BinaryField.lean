import Mathlib.Tactic.NormNum.Prime
import PrimedSteam.Lib.BinaryPolynomial
import PrimedSteam.Crypto.EllipticCurve

/-!
# The field of the signatures

The bits of an element are the coefficients of a polynomial modulo `X ^ 233 + X ^ 74 + 1`.

* `Elt.value`: the polynomial of the bytes at `t`, in a ring of characteristic two where `t ^ 233 = t ^ 74 + 1`.
* `value_add`, `value_mulX`, `value_mul`, `value_square`, `value_inv`: the operations are those of the ring.
* `irreducible_modulus`: the ring is a field.
* **`field_operations`**: elements with clear bits are its elements, with the sum, the product, the square and the
  inverse that the code computes.
-/

set_option autoImplicit false

namespace EllipticCurve

open ByteOrder BigNumber

namespace Elt

section Ring

variable {R : Type*} [CommRing R]

/-! ## Bytes -/

variable (R) in
def bitValue (c : Bool) : R := if c then 1 else 0

/-- The polynomial of the bits of a byte. -/
def byteValue (t : R) (b : Byte) : R := ∑ i ∈ Finset.range 8, bitValue R (b.getLsbD i) * t ^ i

/-- The polynomial of the bits. -/
def value (t : R) : List Byte → R
  | [] => 0
  | b :: bs => byteValue t b * t ^ (8 * bs.length) + value t bs

variable (t : R)

theorem bitValue_false : bitValue R false = 0 := rfl

theorem bitValue_true : bitValue R true = 1 := rfl

theorem byteValue_eq (b : Byte) : byteValue t b = bitValue R (b.getLsbD 0) + bitValue R (b.getLsbD 1) * t +
    bitValue R (b.getLsbD 2) * t ^ 2 + bitValue R (b.getLsbD 3) * t ^ 3 + bitValue R (b.getLsbD 4) * t ^ 4 +
    bitValue R (b.getLsbD 5) * t ^ 5 + bitValue R (b.getLsbD 6) * t ^ 6 + bitValue R (b.getLsbD 7) * t ^ 7 := by
  simp only [byteValue, Finset.sum_range_succ, Finset.sum_range_zero, zero_add, pow_zero, pow_one, mul_one]

theorem byteValue_zero : byteValue t 0 = 0 :=
  Finset.sum_eq_zero fun i _ => by rw [BitVec.ofNat_eq_ofNat, BitVec.getLsbD_zero, bitValue_false, zero_mul]

/-- A shift by one bit, with the bit that leaves the byte. -/
theorem byteValue_shift_one (b : Byte) : byteValue t (b >>> 7) * t ^ 8 + byteValue t (b <<< 1) =
    t * byteValue t b := by
  rw [byteValue_eq, byteValue_eq, byteValue_eq]
  simp only [BitVec.getLsbD_ushiftRight, BitVec.getLsbD_shiftLeft]
  norm_num [BitVec.getLsbD_of_ge, bitValue_false]
  ring

/-- A shift by seven bits, with the bits that leave the byte. -/
theorem byteValue_shift_seven (b : Byte) :
    byteValue t (b >>> 1) * t ^ 8 + byteValue t (b <<< 7) = t ^ 7 * byteValue t b := by
  rw [byteValue_eq, byteValue_eq, byteValue_eq]
  simp only [BitVec.getLsbD_ushiftRight, BitVec.getLsbD_shiftLeft]
  norm_num [BitVec.getLsbD_of_ge, bitValue_false]
  ring

theorem byteValue_shiftRight (b : Byte) (h : b.getLsbD 0 = false) : t * byteValue t (b >>> 1) = byteValue t b := by
  rw [byteValue_eq, byteValue_eq, h]
  simp only [BitVec.getLsbD_ushiftRight]
  norm_num [BitVec.getLsbD_of_ge, bitValue_false]
  ring

theorem value_append (as bs : List Byte) : value t (as ++ bs) = value t as * t ^ (8 * bs.length) + value t bs := by
  induction as with
  | nil => rw [List.nil_append, value, zero_mul, zero_add]
  | cons a as ih =>
    rw [List.cons_append, value, value, ih, List.length_append]
    ring

theorem value_replicate_zero (n : ℕ) : value t (List.replicate n 0) = 0 := by
  induction n with
  | zero => rfl
  | succ n ih => rw [List.replicate_succ, value, ih, byteValue_zero, zero_mul, zero_add]

section Two

variable [CharP R 2]

theorem bitValue_xor (c d : Bool) : bitValue R (c ^^ d) = bitValue R c + bitValue R d := by
  cases c <;> cases d <;> simp [bitValue, CharTwo.add_self_eq_zero]

theorem byteValue_xor (b c : Byte) : byteValue t (b ^^^ c) = byteValue t b + byteValue t c := by
  rw [byteValue, byteValue, byteValue, ← Finset.sum_add_distrib]
  refine Finset.sum_congr rfl fun i _ => ?_
  rw [BitVec.getLsbD_xor, bitValue_xor, add_mul]

theorem value_add {as bs : List Byte} (h : as.length = bs.length) :
    value t (add as bs) = value t as + value t bs := by
  induction as generalizing bs with
  | nil =>
    obtain rfl := List.length_eq_zero_iff.mp h.symm
    exact (add_zero _).symm
  | cons a as ih =>
    obtain ⟨b, bs, rfl⟩ := List.exists_cons_of_length_pos (h ▸ Nat.succ_pos _ : 0 < bs.length)
    have hlength : as.length = bs.length := Nat.succ.inj h
    have htail : value t (List.zipWith (· ^^^ ·) as bs) = value t as + value t bs := ih hlength
    rw [add, List.zipWith_cons_cons, value, value, value, htail, byteValue_xor, List.length_zipWith,
      hlength, min_self]
    ring

theorem value_modify {bytes : List Byte} {i : ℕ} (h : i < bytes.length) (c : Byte) :
    value t (bytes.modify i (· ^^^ c)) = value t bytes + byteValue t c * t ^ (8 * (bytes.length - 1 - i)) := by
  induction bytes generalizing i with
  | nil => exact absurd h (Nat.not_lt_zero i)
  | cons b bytes ih =>
    cases i with
    | zero =>
      rw [List.modify_zero_cons, value, value, byteValue_xor, List.length_cons, Nat.add_sub_cancel, Nat.sub_zero]
      ring
    | succ i =>
      rw [List.modify_succ_cons, value, value, List.length_modify, ih (Nat.lt_of_succ_lt_succ h), List.length_cons,
        add_assoc, show bytes.length + 1 - 1 - (i + 1) = bytes.length - 1 - i by omega]

theorem value_mulXLoop (carry x : Byte) (ys : List Byte) : value t (mulXLoop carry x ys) =
    byteValue t x * t ^ (8 * ys.length) + t * value t ys + byteValue t carry := by
  induction ys generalizing x with
  | nil =>
    rw [mulXLoop, value, value, value, byteValue_xor, List.length_nil]
    ring
  | cons y ys ih =>
    rw [mulXLoop, value, ih, length_mulXLoop, byteValue_xor, List.length_cons, value]
    have hshift := byteValue_shift_one t y
    linear_combination t ^ (8 * ys.length) * hshift

/-! ## Operations -/

variable {t}

theorem eq_zero_or_one {x : Byte} (h : x.toNat < 2) : x = 0 ∨ x = 1 := by
  rcases Nat.lt_succ_iff_lt_or_eq.mp h with hlt | heq
  · exact Or.inl (BitVec.eq_of_toNat_eq (by simpa using hlt))
  · exact Or.inr (BitVec.eq_of_toNat_eq heq)

/-- **`MulX`** multiplies by `t`: what leaves the highest bit is `t ^ 233`. -/
theorem value_mulX (ht : t ^ 233 = t ^ 74 + 1) {a : Elt} (ha : Clear a) : value t (mulX a) = t * value t a := by
  obtain ⟨x, as, rfl⟩ := List.exists_cons_of_length_pos (show 0 < a.length by rw [ha.length_eq]; decide)
  have hlength : as.length = 29 := Nat.succ.inj ha.length_eq
  have hindex : ∀ c : Byte, 20 < (mulXLoop c 0 as).length := fun c => by
    rw [length_mulXLoop, hlength]
    decide
  rw [mulX, List.headD_cons, List.tail_cons, value_modify t (hindex _), value_mulXLoop, length_mulXLoop, hlength,
    byteValue_zero, value, hlength]
  rcases eq_zero_or_one ha.head_lt with rfl | rfl
  · rw [show (0 : Byte) &&& 1 = 0 from rfl, show (0 : Byte) <<< 2 = 0 from rfl, byteValue_zero]
    ring
  · have hone : byteValue t 1 = 1 := by
      simp [byteValue_eq, bitValue]
    have hfour : byteValue t ((1 : Byte) <<< 2) = t ^ 2 := by
      simp [byteValue_eq, bitValue]
    rw [show (1 : Byte) &&& 1 = 1 from rfl, hone, hfour]
    linear_combination -ht

/-- The coefficient of `t ^ k`. -/
def coefficient (a : Elt) (k : ℕ) : Bool := (a.getD (29 - k / 8) 0).getLsbD (k % 8)

omit [CharP R 2] in
theorem value_eq_sum (bytes : List Byte) : value t bytes = ∑ k ∈ Finset.range (8 * bytes.length),
    bitValue R ((bytes.getD (bytes.length - 1 - k / 8) 0).getLsbD (k % 8)) * t ^ k := by
  induction bytes with
  | nil => rfl
  | cons b bytes ih =>
    rw [value, ih, List.length_cons, show 8 * (bytes.length + 1) = 8 * bytes.length + 8 by omega,
      Finset.sum_range_add,
      add_comm]
    congr 1
    · refine Finset.sum_congr rfl fun k hk => ?_
      have hlt : k < 8 * bytes.length := Finset.mem_range.mp hk
      rw [show bytes.length + 1 - 1 - k / 8 = bytes.length - 1 - k / 8 + 1 by omega, List.getD_cons_succ]
    · rw [byteValue, Finset.sum_mul]
      refine Finset.sum_congr rfl fun i hi => ?_
      have hlt : i < 8 := Finset.mem_range.mp hi
      rw [show bytes.length + 1 - 1 - (8 * bytes.length + i) / 8 = 0 by omega, List.getD_cons_zero,
        show (8 * bytes.length + i) % 8 = i by omega, pow_add]
      ring

omit [CharP R 2] in
theorem value_eq_sum_of_clear {a : Elt} (ha : Clear a) :
    value t a = ∑ k ∈ Finset.range 233, bitValue R (coefficient a k) * t ^ k := by
  rw [value_eq_sum, ha.length_eq, show 8 * 30 = 233 + 7 from rfl, Finset.sum_range_add]
  change (∑ k ∈ Finset.range 233, bitValue R (coefficient a k) * t ^ k) + _ = _
  rw [add_eq_left]
  refine Finset.sum_eq_zero fun i hi => ?_
  have hlt : i < 7 := Finset.mem_range.mp hi
  obtain ⟨x, as, rfl⟩ := List.exists_cons_of_length_pos (show 0 < a.length by rw [ha.length_eq]; decide)
  rw [show 30 - 1 - (233 + i) / 8 = 0 by omega, List.getD_cons_zero, show (233 + i) % 8 = i + 1 by omega]
  have hbit : x.getLsbD (i + 1) = false := by
    refine Nat.testBit_lt_two_pow (lt_of_lt_of_le ha.head_lt ?_)
    exact Nat.pow_le_pow_right two_pos (Nat.le_add_left 1 i)
  rw [hbit, bitValue_false, zero_mul]

theorem mask_spec (x : Byte) {j : ℕ} (hj : j < 8) : (x &&& BitVec.twoPow 8 j ≠ 0 ↔ x.getLsbD j = true) ∧
    (BitVec.twoPow 8 j >>> 1 = 0 ↔ j = 0) ∧ (0 < j → BitVec.twoPow 8 j >>> 1 = BitVec.twoPow 8 (j - 1)) := by
  have hpos : BitVec.twoPow 8 j ≠ 0 := by
    interval_cases j <;> decide
  refine ⟨?_, ?_, ?_⟩
  · rw [BitVec.and_twoPow]
    split_ifs with hbit
    · exact iff_of_true hpos hbit
    · exact iff_of_false (fun hne => hne rfl) hbit
  · interval_cases j <;> decide
  · interval_cases j <;> decide

/-- The loop of `operator*`, at the coefficient `n - 1`. -/
theorem value_mulLoop (ht : t ^ 233 = t ^ 74 + 1) (a : Elt) {b : Elt} (hb : Clear b) {n : ℕ} (hn : n ≤ 240) {d : Elt}
    (hd : Clear d) {i : ℕ} {mask : Byte} (hi : 0 < n → i = 29 - (n - 1) / 8)
    (hmask : 0 < n → mask = BitVec.twoPow 8 ((n - 1) % 8)) :
    value t (mulLoop a b n d i mask) =
      t ^ n * value t d + (∑ k ∈ Finset.range n, bitValue R (coefficient a k) * t ^ k) * value t b := by
  induction n generalizing d i mask with
  | zero => rw [mulLoop, Finset.sum_range_zero, pow_zero, one_mul, zero_mul, add_zero]
  | succ n ih =>
    obtain ⟨hbit, hlast, hnext⟩ := mask_spec (a.getD i 0) (Nat.mod_lt n (by norm_num : 0 < 8))
    have hi := hi (Nat.succ_pos n)
    have hmask := hmask (Nat.succ_pos n)
    rw [Nat.add_sub_cancel] at hi hmask
    rw [← hmask] at hbit hlast hnext
    have hd' : Clear (if a.getD i 0 &&& mask ≠ 0 then add (mulX d) b else mulX d) := by
      split_ifs
      · exact add_clear (mulX_clear hd.length_eq) hb
      · exact mulX_clear hd.length_eq
    have hvalue : value t (if a.getD i 0 &&& mask ≠ 0 then add (mulX d) b else mulX d) =
        t * value t d + bitValue R (coefficient a n) * value t b := by
      have hcoefficient : coefficient a n = (a.getD i 0).getLsbD (n % 8) := by rw [coefficient, hi]
      rw [hcoefficient]
      by_cases hset : a.getD i 0 &&& mask ≠ 0
      · rw [if_pos hset, hbit.mp hset, bitValue_true, value_add t, value_mulX ht hd, one_mul]
        rw [(mulX_clear hd.length_eq).length_eq, hb.length_eq]
      · rw [if_neg hset, Bool.eq_false_of_not_eq_true (mt hbit.mpr hset), bitValue_false, value_mulX ht hd, zero_mul,
          add_zero]
    rw [mulLoop]
    by_cases hzero : mask >>> 1 = 0
    · have hmod := hlast.mp hzero
      rw [if_pos hzero, ih (by omega) hd' (fun hpos => by omega)
        (fun hpos => by rw [show (n - 1) % 8 = 7 by omega]; rfl), hvalue, Finset.sum_range_succ]
      ring
    · have hmod : 0 < n % 8 := Nat.pos_of_ne_zero (mt hlast.mpr hzero)
      rw [if_neg hzero, ih (by omega) hd' (fun hpos => by omega)
        (fun hpos => by rw [hnext hmod, show n % 8 - 1 = (n - 1) % 8 by omega]), hvalue, Finset.sum_range_succ]
      ring

/-- **`operator*`** is the product. -/
theorem value_mul (ht : t ^ 233 = t ^ 74 + 1) {a b : Elt} (ha : Clear a) (hb : Clear b) :
    value t (mul a b) = value t a * value t b := by
  have hloop : value t (mulLoop a b 233 zero 0 1) = t ^ 233 * value t zero +
      (∑ k ∈ Finset.range 233, bitValue R (coefficient a k) * t ^ k) * value t b :=
    value_mulLoop ht a hb (by norm_num) zero_clear (fun _ => rfl) (fun _ => rfl)
  rw [mul, hloop, value_eq_sum_of_clear ha, zero, value_replicate_zero, mul_zero, zero_add]

theorem squareTable_bits : ∀ n < 16, ∀ i < 8,
    (squareTable.getD n 0).getLsbD i = (decide (i % 2 = 0) && n.testBit (i / 2)) := by decide

omit [CharP R 2] in
theorem bitValue_sq (c : Bool) : bitValue R c ^ 2 = bitValue R c := by
  cases c
  · exact zero_pow two_ne_zero
  · exact one_pow 2

theorem byteValue_widen (b : Byte) : byteValue t (squareTable.getD (b >>> 4).toNat 0) * t ^ 8 +
    byteValue t (squareTable.getD (b &&& 15).toNat 0) = byteValue t b ^ 2 := by
  have hhigh : ∀ i < 8, (squareTable.getD (b >>> 4).toNat 0).getLsbD i =
      (decide (i % 2 = 0) && b.getLsbD (4 + i / 2)) := fun i hi => by
    rw [squareTable_bits _ (by rw [BitVec.toNat_ushiftRight, Nat.shiftRight_eq_div_pow]; omega) i hi]
    change _ = (_ && b.toNat.testBit _)
    rw [BitVec.toNat_ushiftRight, Nat.testBit_shiftRight]
  have hlow : ∀ i < 8, (squareTable.getD (b &&& 15).toNat 0).getLsbD i =
      (decide (i % 2 = 0) && b.getLsbD (i / 2)) := fun i hi => by
    have hlt : (b &&& 15).toNat < 16 := by
      rw [BitVec.toNat_and]
      exact Nat.lt_succ_of_le Nat.and_le_right
    rw [squareTable_bits _ hlt i hi]
    change _ = (_ && b.toNat.testBit _)
    rw [BitVec.toNat_and, Nat.testBit_and]
    have hfifteen : Nat.testBit (15 : Byte).toNat (i / 2) = true := by
      interval_cases i <;> rfl
    rw [hfifteen, Bool.and_true]
  simp only [byteValue_eq, hhigh _ (by norm_num : 0 < 8), hhigh _ (by norm_num : 1 < 8),
    hhigh _ (by norm_num : 2 < 8),
    hhigh _ (by norm_num : 3 < 8), hhigh _ (by norm_num : 4 < 8), hhigh _ (by norm_num : 5 < 8),
    hhigh _ (by norm_num : 6 < 8), hhigh _ (by norm_num : 7 < 8), hlow _ (by norm_num : 0 < 8),
    hlow _ (by norm_num : 1 < 8), hlow _ (by norm_num : 2 < 8), hlow _ (by norm_num : 3 < 8),
    hlow _ (by norm_num : 4 < 8), hlow _ (by norm_num : 5 < 8), hlow _ (by norm_num : 6 < 8),
    hlow _ (by norm_num : 7 < 8), CharTwo.add_sq, mul_pow, bitValue_sq]
  norm_num [bitValue_false]
  ring

theorem value_widen (a : Elt) : value t (widen a) = value t a ^ 2 := by
  induction a with
  | nil => exact (zero_pow two_ne_zero).symm
  | cons b a ih =>
    have hbyte := byteValue_widen (t := t) b
    change value t ([squareTable.getD (b >>> 4).toNat 0, squareTable.getD (b &&& 15).toNat 0] ++ widen a) = _
    rw [value_append, value, value, value, length_widen, ih, value, CharTwo.add_sq, mul_pow, ← hbyte]
    simp only [List.length_cons, List.length_nil]
    ring

/-- A byte of the upper half is added where its terms are reduced to. -/
theorem value_reduceWide (ht : t ^ 233 = t ^ 74 + 1) {wide : List Byte} (h : wide.length = 60) {i : ℕ}
    (hi : i < 30) :
    value t ((reduceWide wide i).drop (i + 1)) = value t (wide.drop i) := by
  have hdrop : wide.drop i = wide.getD i 0 :: wide.drop (i + 1) := by
    rw [List.getD_eq_getElem _ _ (by omega)]
    exact List.drop_eq_getElem_cons (by omega)
  have hlength : (wide.drop (i + 1)).length = 59 - i := by
    rw [List.length_drop, h]
    omega
  have hone := byteValue_shift_one t (wide.getD i 0)
  have hseven := byteValue_shift_seven t (wide.getD i 0)
  rw [reduceWide, List.drop_modify_of_ge _ _ _ _ (by omega), List.drop_modify_of_ge _ _ _ _ (by omega),
    List.drop_modify_of_ge _ _ _ _ (by omega), List.drop_modify_of_ge _ _ _ _ (by omega),
    value_modify t (by simp only [List.length_modify, hlength]; omega),
    value_modify t (by simp only [List.length_modify, hlength]; omega),
    value_modify t (by simp only [List.length_modify, hlength]; omega),
    value_modify t (by rw [hlength]; omega), hdrop, value]
  simp only [List.length_modify, hlength]
  obtain ⟨k, hk⟩ : ∃ k, k + i = 29 := ⟨29 - i, by omega⟩
  rw [show 8 * (59 - i - 1 - (i + 19 - (i + 1))) = 8 * k + 88 by omega,
    show 8 * (59 - i - 1 - (i + 20 - (i + 1))) = 8 * k + 80 by omega,
    show 8 * (59 - i - 1 - (i + 29 - (i + 1))) = 8 * k + 8 by omega,
    show 8 * (59 - i - 1 - (i + 30 - (i + 1))) = 8 * k by omega, show 8 * (59 - i) = 8 * k + 7 + 233 by omega,
    pow_add t (8 * k + 7) 233, ht]
  linear_combination t ^ (8 * k + 80) * hone + t ^ (8 * k) * hseven

theorem length_foldl_reduceWide (is : List ℕ) (wide : List Byte) :
    (is.foldl reduceWide wide).length = wide.length := by
  induction is generalizing wide with
  | nil => rfl
  | cons i is ih => exact (ih _).trans (length_reduceWide wide i)

theorem value_foldl_reduceWide (ht : t ^ 233 = t ^ 74 + 1) {wide : List Byte} (h : wide.length = 60) {n : ℕ}
    (hn : n ≤ 30) : value t (((List.range n).foldl reduceWide wide).drop n) = value t wide := by
  induction n with
  | zero => rfl
  | succ n ih =>
    rw [List.range_succ, List.foldl_append, List.foldl_cons, List.foldl_nil,
      value_reduceWide ht ((length_foldl_reduceWide _ _).trans h) (by omega), ih (by omega)]

theorem value_finishWide (ht : t ^ 233 = t ^ 74 + 1) {wide : List Byte} (h : wide.length = 60) :
    value t ((finishWide wide).drop 30) = value t (wide.drop 30) := by
  have hdrop : wide.drop 30 = wide.getD 30 0 :: wide.drop 31 := by
    rw [List.getD_eq_getElem _ _ (by omega)]
    exact List.drop_eq_getElem_cons (by omega)
  have hlength : (wide.drop 31).length = 29 := by rw [List.length_drop, h]
  rw [finishWide, List.drop_modify_of_ge _ _ _ _ le_rfl, List.drop_modify_of_ge _ _ _ _ (by norm_num),
    List.drop_modify_of_ge _ _ _ _ (by norm_num), List.drop_modify_of_ge _ _ _ _ (by norm_num), hdrop]
  generalize wide.getD 30 0 = x
  generalize wide.drop 31 = rest at hlength
  -- the bits of the byte without its lowest one
  have hsplit : byteValue t x = byteValue t (x &&& 1) + byteValue t (x &&& ~~~1) := by
    rw [← byteValue_xor]
    congr 1
    refine BitVec.eq_of_getLsbD_eq fun i hi => ?_
    rw [BitVec.getLsbD_xor, BitVec.getLsbD_and, BitVec.getLsbD_and, BitVec.getLsbD_not, decide_eq_true hi,
      Bool.true_and]
    cases x.getLsbD i <;> cases (1 : Byte).getLsbD i <;> rfl
  have hclear : (x &&& ~~~1).getLsbD 0 = false := by
    rw [BitVec.getLsbD_and]
    simp
  have hone := byteValue_shift_one t (x &&& ~~~1)
  have hright := byteValue_shiftRight t (x &&& ~~~1) hclear
  rw [List.modify_succ_cons, List.modify_succ_cons, List.modify_succ_cons, List.modify_zero_cons, value, value,
    value_modify t (by simp only [List.length_modify, hlength]; norm_num),
    value_modify t (by simp only [List.length_modify, hlength]; norm_num),
    value_modify t (by rw [hlength]; norm_num), hsplit]
  simp only [List.length_modify, hlength]
  linear_combination t ^ 72 * hone + (t ^ 232 - t ^ 73) * hright - byteValue t ((x &&& ~~~1) >>> 1) * ht

/-- **`Square`** is the square. -/
theorem value_square (ht : t ^ 233 = t ^ 74 + 1) {a : Elt} (ha : a.length = 30) :
    value t (square a) = value t a ^ 2 := by
  have hwiden : (widen a).length = 60 := by rw [length_widen, ha]
  rw [square, value_finishWide ht ((length_foldl_reduceWide _ _).trans hwiden),
    value_foldl_reduceWide ht hwiden le_rfl, value_widen]

theorem iterate_square_clear {a : Elt} (ha : Clear a) (j : ℕ) : Clear (square^[j] a) := by
  induction j with
  | zero => exact ha
  | succ j ih =>
    rw [Function.iterate_succ_apply']
    exact square_clear ih.length_eq

theorem value_iterate_square (ht : t ^ 233 = t ^ 74 + 1) {a : Elt} (ha : Clear a) (j : ℕ) :
    value t (square^[j] a) = value t a ^ 2 ^ j := by
  induction j with
  | zero => rw [pow_zero, pow_one]; rfl
  | succ j ih =>
    rw [Function.iterate_succ_apply', value_square ht (iterate_square_clear ha j).length_eq, ih, ← pow_mul, pow_succ]

/-- Powers of an element. -/
structure IsPower (t : R) (a b : Elt) (m : ℕ) : Prop where
  clear : Clear b
  value_eq : value t b = value t a ^ m

theorem IsPower.itohTsujii (ht : t ^ 233 = t ^ 74 + 1) {a b c : Elt} {m n : ℕ} (hb : IsPower t a b m)
    (hc : IsPower t a c n) (j : ℕ) : IsPower t a (Elt.itohTsujii b c j) (m * 2 ^ j + n) where
  clear := itohTsujii_clear b hc.clear j
  value_eq := by
    rw [Elt.itohTsujii, value_mul ht (iterate_square_clear hb.clear j) hc.clear, value_iterate_square ht hb.clear,
      hb.value_eq, hc.value_eq, pow_add, pow_mul]

/-- **`Inv`** is a power. -/
theorem value_inv (ht : t ^ 233 = t ^ 74 + 1) {a : Elt} (ha : Clear a) :
    value t (inv a) = value t a ^ (2 ^ 233 - 2) := by
  have h1 : IsPower t a a 1 := ⟨ha, (pow_one _).symm⟩
  have h2 : IsPower t a _ 3 := h1.itohTsujii ht h1 1
  have h3 : IsPower t a _ 7 := h2.itohTsujii ht h1 1
  have h6 : IsPower t a _ (2 ^ 6 - 1) := h3.itohTsujii ht h3 3
  have h7 : IsPower t a _ (2 ^ 7 - 1) := h6.itohTsujii ht h1 1
  have h14 : IsPower t a _ (2 ^ 14 - 1) := h7.itohTsujii ht h7 7
  have h28 : IsPower t a _ (2 ^ 28 - 1) := h14.itohTsujii ht h14 14
  have h29 : IsPower t a _ (2 ^ 29 - 1) := h28.itohTsujii ht h1 1
  have h58 : IsPower t a _ (2 ^ 58 - 1) := h29.itohTsujii ht h29 29
  have h116 : IsPower t a _ (2 ^ 116 - 1) := h58.itohTsujii ht h58 58
  have h232 : IsPower t a _ (2 ^ 232 - 1) := h116.itohTsujii ht h116 116
  rw [inv, value_square ht h232.clear.length_eq, h232.value_eq, ← pow_mul,
    show (2 ^ 232 - 1) * 2 = 2 ^ 233 - 2 by norm_num]

end Two

end Ring

/-! ## The field -/

section Field

open BinaryPolynomial Polynomial

theorem irreducible_modulus : Irreducible (trinomial 233 74) :=
  irreducible_trinomial (by norm_num) (by norm_num) (by norm_num) (by decide +kernel)

instance : Fact (Irreducible (trinomial 233 74)) := ⟨irreducible_modulus⟩

/-- The field with `2 ^ 233` elements -/
abbrev BinaryField := AdjoinRoot (trinomial 233 74)

instance : CharP BinaryField 2 := charP_trinomial (by norm_num)

noncomputable def toField (a : Elt) : BinaryField := value (AdjoinRoot.root (trinomial 233 74)) a

theorem root_reduced : AdjoinRoot.root (trinomial 233 74) ^ 233 = AdjoinRoot.root (trinomial 233 74) ^ 74 + 1 :=
  root_pow (by norm_num)

variable {a b : Elt}

theorem toField_add (ha : Clear a) (hb : Clear b) : toField (add a b) = toField a + toField b :=
  value_add _ (ha.length_eq.trans hb.length_eq.symm)

theorem toField_mul (ha : Clear a) (hb : Clear b) : toField (mul a b) = toField a * toField b :=
  value_mul root_reduced ha hb

theorem toField_square (ha : Clear a) : toField (square a) = toField a ^ 2 := value_square root_reduced ha.length_eq

theorem toField_zero : toField zero = 0 := value_replicate_zero _ 30

theorem natCard_binaryField : Nat.card BinaryField = 2 ^ 233 := by
  have hmonic : (trinomial 233 74).Monic := trinomial_monic (by norm_num)
  let basis := AdjoinRoot.powerBasis hmonic.ne_zero
  have : Module.Finite (ZMod 2) BinaryField := basis.finite
  rw [Module.natCard_eq_pow_finrank (K := ZMod 2), basis.finrank, AdjoinRoot.powerBasis_dim,
    natDegree_trinomial (by norm_num),
    Nat.card_zmod]

theorem toField_inv (ha : Clear a) : toField (inv a) = (toField a)⁻¹ := by
  have hpower : toField (inv a) = toField a ^ (2 ^ 233 - 2) := value_inv root_reduced ha
  rw [hpower]
  by_cases hzero : toField a = 0
  · rw [hzero, inv_zero, zero_pow (by norm_num)]
  · have : Finite BinaryField := Nat.finite_of_card_ne_zero (by rw [natCard_binaryField]; norm_num)
    have : Fintype BinaryField := Fintype.ofFinite _
    have hone := FiniteField.pow_card_sub_one_eq_one (toField a) hzero
    rw [← Nat.card_eq_fintype_card, natCard_binaryField] at hone
    refine eq_inv_of_mul_eq_one_left ?_
    rw [← pow_succ]
    exact hone

theorem toField_div (ha : Clear a) (hb : Clear b) : toField (div a b) = toField a / toField b := by
  rw [div, toField_mul ha (inv_clear hb), toField_inv hb, div_eq_mul_inv]

/-- The last byte with its lowest bit changed is the next element. -/
theorem toField_addOne (ha : Clear a) : toField (addOne a) = toField a + 1 := by
  have hone : byteValue (AdjoinRoot.root (trinomial 233 74)) 1 = 1 := by
    simp [byteValue_eq, bitValue]
  rw [toField, addOne, value_modify _ (by rw [ha.length_eq]; norm_num), hone, ha.length_eq]
  norm_num [toField]

/-! ## Equal elements -/

/-- The coefficients of an element, below the degree of the modulus. -/
noncomputable def polynomial (a : Elt) : (ZMod 2)[X] :=
  ∑ k ∈ Finset.range 233, C (bitValue (ZMod 2) (coefficient a k)) * X ^ k

theorem toField_eq_mk (ha : Clear a) : toField a = AdjoinRoot.mk (trinomial 233 74) (polynomial a) := by
  rw [toField, value_eq_sum_of_clear ha, polynomial, map_sum]
  refine Finset.sum_congr rfl fun k _ => ?_
  rw [map_mul, map_pow, AdjoinRoot.mk_X]
  cases coefficient a k
  · rw [bitValue_false, bitValue_false, C_0, map_zero]
  · rw [bitValue_true, bitValue_true, C_1, map_one]

theorem coeff_polynomial (a : Elt) (k : ℕ) :
    (polynomial a).coeff k = if k < 233 then bitValue (ZMod 2) (coefficient a k) else 0 := by
  rw [polynomial, finsetSum_coeff]
  simp only [coeff_C_mul, coeff_X_pow, mul_ite, mul_one, mul_zero, Finset.sum_ite_eq, Finset.mem_range]

theorem bitValue_injective : Function.Injective (bitValue (ZMod 2)) := by decide

theorem getLsbD_of_clear (ha : Clear a) {i j : ℕ} (hi : i < 30) (hj : j < 8) :
    (a.getD i 0).getLsbD j = if 8 * (29 - i) + j < 233 then coefficient a (8 * (29 - i) + j) else false := by
  split_ifs with hlt
  · rw [coefficient, show 29 - (8 * (29 - i) + j) / 8 = i by omega, show (8 * (29 - i) + j) % 8 = j by omega]
  · obtain ⟨x, as, rfl⟩ := List.exists_cons_of_length_pos (show 0 < a.length by rw [ha.length_eq]; decide)
    have hzero : i = 0 := by omega
    have hpow : 2 ^ 1 ≤ 2 ^ j := Nat.pow_le_pow_right two_pos (by omega)
    rw [pow_one] at hpow
    rw [hzero, List.getD_cons_zero]
    have hhead : x.toNat < 2 ^ j := lt_of_lt_of_le ha.head_lt hpow
    exact Nat.testBit_lt_two_pow hhead

/-- **Different elements** are different in the field. -/
theorem toField_inj (ha : Clear a) (hb : Clear b) : toField a = toField b ↔ a = b := by
  refine ⟨fun h => ?_, fun h => congrArg toField h⟩
  rw [toField_eq_mk ha, toField_eq_mk hb] at h
  have hpolynomial : polynomial a = polynomial b := by
    refine eq_of_mk_eq h ?_
    rw [degree_trinomial (by norm_num)]
    refine (degree_lt_iff_coeff_zero _ 233).mpr fun k hk => ?_
    rw [coeff_sub, coeff_polynomial, coeff_polynomial, if_neg (not_lt.mpr hk), if_neg (not_lt.mpr hk), sub_zero]
  have hcoefficient : ∀ k < 233, coefficient a k = coefficient b k := fun k hk => by
    have hcoeff := congrArg (fun p => p.coeff k) hpolynomial
    simp only [coeff_polynomial, if_pos hk] at hcoeff
    exact bitValue_injective hcoeff
  have hbyte : ∀ i < 30, a.getD i 0 = b.getD i 0 := fun i hi => by
    refine BitVec.eq_of_getLsbD_eq fun j hj => ?_
    rw [getLsbD_of_clear ha hi hj, getLsbD_of_clear hb hi hj]
    split_ifs with hlt
    · exact hcoefficient _ hlt
    · rfl
  refine List.ext_getElem (ha.length_eq.trans hb.length_eq.symm) fun i hia hib => ?_
  have hi := hbyte i (ha.length_eq ▸ hia)
  rwa [List.getD_eq_getElem _ _ hia, List.getD_eq_getElem _ _ hib] at hi

theorem isZero_iff (ha : Clear a) : a.isZero = true ↔ toField a = 0 := by
  rw [← toField_zero, toField_inj ha zero_clear, isZero, List.all_eq_true]
  constructor
  · intro h
    refine List.eq_replicate_iff.mpr ⟨ha.length_eq, fun x hx => ?_⟩
    exact beq_iff_eq.mp (h x hx)
  · rintro rfl x hx
    exact beq_iff_eq.mpr (List.eq_of_mem_replicate hx)

/-- **The operations are those of the field** with `2 ^ 233` elements, of which the bytes are different elements. -/
theorem field_operations (ha : Clear a) (hb : Clear b) :
    toField (add a b) = toField a + toField b ∧ toField (mul a b) = toField a * toField b ∧
      toField (square a) = toField a ^ 2 ∧ toField (inv a) = (toField a)⁻¹ ∧
      toField (div a b) = toField a / toField b ∧ (toField a = toField b ↔ a = b) :=
  ⟨toField_add ha hb, toField_mul ha hb, toField_square ha, toField_inv ha, toField_div ha hb, toField_inj ha hb⟩

theorem field_operations_ecG : toField (mul ecG.x ecG.y) = toField ecG.x * toField ecG.y ∧
    toField (inv ecG.x) = (toField ecG.x)⁻¹ :=
  have h := field_operations ecG_clear.x_clear ecG_clear.y_clear
  ⟨h.2.1, h.2.2.2.1⟩

end Field

end Elt

end EllipticCurve
