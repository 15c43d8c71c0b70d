import PrimedSteam.PowerPC.ConstantPropagation
import Mathlib.Data.Nat.Bitwise

/-!
# The arithmetic of the folding and of the handlers

Each lemma compares an expression of `ConstantPropagation`, which is computed in 64 bits, with the one
of the interpreter, which is computed in 32.
-/

set_option autoImplicit false

namespace PowerPC

open Interpreter ConstantPropagation

variable (a b : BitVec 32)

/-! ## Carry and overflow -/

theorem helperCarry_eq : helperCarry a b = decide (2 ^ 32 ≤ a.toNat + b.toNat) := by
  unfold helperCarry
  refine decide_eq_decide.mpr ?_
  rw [BitVec.lt_def, BitVec.toNat_not]
  omega

theorem ushiftRight_ne_zero {w : ℕ} (x : BitVec w) (n : ℕ) :
    (x >>> n != 0) = decide (2 ^ n ≤ x.toNat) := by
  rw [Bool.eq_iff_iff, bne_iff_ne, decide_eq_true_iff, ne_eq, BitVec.toNat_eq]
  simp only [BitVec.toNat_ushiftRight, Nat.shiftRight_eq_div_pow, BitVec.ofNat_eq_ofNat,
    BitVec.toNat_ofNat, Nat.zero_mod]
  rw [Nat.div_eq_zero_iff_lt (Nat.two_pow_pos n), Nat.not_lt]

theorem hasAddOverflowed_eq (x y r : BitVec 32) :
    hasAddOverflowed x y r = ((x.msb != r.msb) && (y.msb != r.msb)) := by
  have hmsb : ∀ v : BitVec 32, (v >>> 31 != 0) = v.msb := fun v => by
    rw [ushiftRight_ne_zero, BitVec.msb_eq_decide]
  rw [hasAddOverflowed, hmsb, BitVec.msb_and, BitVec.msb_xor, BitVec.msb_xor]

/-- The signed sum of two values and a carry leaves the 32-bit range. -/
theorem hasAddOverflowed_add (x y c : BitVec 32) (hc : c = 0 ∨ c = 1) :
    hasAddOverflowed x y (x + y + c) =
      decide (x.toInt + y.toInt + c.toNat < -2 ^ 31 ∨ 2 ^ 31 ≤ x.toInt + y.toInt + c.toNat) := by
  rw [hasAddOverflowed_eq, Bool.eq_iff_iff, decide_eq_true_iff]
  simp only [BitVec.msb_eq_decide, Bool.and_eq_true, bne_iff_ne, ne_eq, decide_eq_decide,
    BitVec.toInt_eq_toNat_cond, BitVec.toNat_add]
  have hx := x.isLt
  have hy := y.isLt
  have hc' : c.toNat = 0 ∨ c.toNat = 1 := by rcases hc with rfl | rfl <;> simp
  omega

theorem overflowsS32_eq (out : BitVec 64) :
    overflowsS32 out = decide (out.toInt < -2 ^ 31 ∨ 2 ^ 31 ≤ out.toInt) := by
  unfold overflowsS32
  rw [Bool.eq_iff_iff, bne_iff_ne, decide_eq_true_iff, ne_eq, ← BitVec.toInt_inj]
  rw [BitVec.toInt_signExtend_of_le (by decide), BitVec.toInt_setWidth]
  have := out.isLt
  rw [BitVec.toInt_eq_toNat_cond]
  simp only [Int.bmod]
  omega

theorem setWidth_signExtend (x : BitVec 32) : (x.signExtend 64).setWidth 32 = x := by
  refine BitVec.eq_of_getLsbD_eq fun i hi => ?_
  have hi64 : i < 64 := by omega
  rw [BitVec.getLsbD_setWidth, BitVec.getLsbD_signExtend, if_pos hi, decide_eq_true hi,
    decide_eq_true hi64, Bool.true_and, Bool.true_and]

theorem overflowsS32_signExtend (x : BitVec 32) : overflowsS32 (x.signExtend 64) = false := by
  rw [overflowsS32_eq, BitVec.toInt_signExtend_of_le (by decide)]
  have hlt := BitVec.toInt_lt (x := x)
  have hle := BitVec.le_toInt x
  exact decide_eq_false (by omega)

/-! ## Addition -/

theorem add_value : (a.setWidth 64 + b.setWidth 64).setWidth 32 = a + b := by
  rw [BitVec.setWidth_add _ _ (by decide)]
  simp

theorem add_carry : ((a.setWidth 64 + b.setWidth 64) >>> 32 != 0) = helperCarry a b := by
  rw [ushiftRight_ne_zero, helperCarry_eq, BitVec.toNat_add, BitVec.toNat_setWidth,
    BitVec.toNat_setWidth]
  have ha := a.isLt
  have hb := b.isLt
  exact decide_eq_decide.mpr (by omega)

theorem add_overflow :
    overflowsS32 (a.signExtend 64 + b.signExtend 64) = hasAddOverflowed a b (a + b) := by
  have hzero : a + b = a + b + 0 := (BitVec.add_zero (a + b)).symm
  rw [hzero, overflowsS32_eq, hasAddOverflowed_add a b 0 (Or.inl rfl), BitVec.toInt_add,
    BitVec.toInt_signExtend_of_le (by decide),
    BitVec.toInt_signExtend_of_le (by decide)]
  have ha := BitVec.toInt_lt (x := a)
  have hb := BitVec.toInt_lt (x := b)
  have ha' := BitVec.le_toInt a
  have hb' := BitVec.le_toInt b
  rw [Int.bmod_eq_of_le (by omega) (by omega)]
  simp

/-! ## Subtraction -/

theorem sub_value : ((~~~a).setWidth 64 + b.setWidth 64 + 1).setWidth 32 = ~~~a + b + 1 := by
  rw [BitVec.setWidth_add _ _ (by decide), add_value]
  rfl

theorem sub_carry : (((~~~a).setWidth 64 + b.setWidth 64 + 1) >>> 32 != 0) =
    (~~~a == 0xFFFFFFFF || helperCarry b (~~~a + 1)) := by
  rw [ushiftRight_ne_zero, helperCarry_eq, Bool.eq_iff_iff, Bool.or_eq_true, beq_iff_eq,
    decide_eq_true_iff, decide_eq_true_iff, BitVec.toNat_eq]
  simp only [BitVec.toNat_add, BitVec.toNat_setWidth, BitVec.toNat_not, BitVec.ofNat_eq_ofNat,
    BitVec.toNat_ofNat]
  have ha := a.isLt
  have hb := b.isLt
  omega

theorem sub_overflow : overflowsS32 (b.signExtend 64 - a.signExtend 64) =
    hasAddOverflowed (~~~a) b (~~~a + b + 1) := by
  rw [overflowsS32_eq, hasAddOverflowed_add _ _ 1 (Or.inr rfl), BitVec.toInt_sub,
    BitVec.toInt_signExtend_of_le (by decide), BitVec.toInt_signExtend_of_le (by decide)]
  have ha := BitVec.toInt_lt (x := a)
  have hb := BitVec.toInt_lt (x := b)
  have ha' := BitVec.le_toInt a
  have hb' := BitVec.le_toInt b
  rw [Int.bmod_eq_of_le (by omega) (by omega)]
  have hnot : (~~~a).toInt = -a.toInt - 1 := by
    rw [BitVec.toInt_eq_toNat_cond, BitVec.toInt_eq_toNat_cond, BitVec.toNat_not]
    have := a.isLt
    omega
  have hone : (1 : BitVec 32).toNat = 1 := rfl
  rw [hnot, hone]
  exact decide_eq_decide.mpr (by omega)

theorem sub_self_value : ~~~a + a + 1 = 0 := by
  apply BitVec.eq_of_toNat_eq
  simp only [BitVec.toNat_add, BitVec.toNat_not, BitVec.ofNat_eq_ofNat, BitVec.toNat_ofNat]
  have := a.isLt
  omega

theorem sub_self_carry : (~~~a == 0xFFFFFFFF || helperCarry a (~~~a + 1)) = true := by
  rw [helperCarry_eq, Bool.or_eq_true, beq_iff_eq, decide_eq_true_iff, BitVec.toNat_eq]
  simp only [BitVec.toNat_add, BitVec.toNat_not, BitVec.ofNat_eq_ofNat, BitVec.toNat_ofNat]
  have ha := a.isLt
  omega

theorem sub_self_overflow : hasAddOverflowed (~~~a) a (~~~a + a + 1) = false := by
  rw [← sub_overflow, BitVec.sub_self]
  rfl

theorem subImm_carry (imm : BitVec 32) :
    (a == 0 || helperCarry (0 - a) imm) = decide (a ≤ imm) := by
  rw [helperCarry_eq, Bool.eq_iff_iff, Bool.or_eq_true, beq_iff_eq, decide_eq_true_iff,
    decide_eq_true_iff, BitVec.toNat_eq, BitVec.le_def]
  simp only [BitVec.toNat_sub, BitVec.ofNat_eq_ofNat, BitVec.toNat_ofNat]
  have ha := a.isLt
  have himm := imm.isLt
  omega

theorem neg_value : (-a.signExtend 64).setWidth 32 = ~~~a + 1 := by
  apply BitVec.eq_of_toNat_eq
  simp only [BitVec.toNat_setWidth, BitVec.toNat_neg, BitVec.toNat_add, BitVec.toNat_not,
    BitVec.toNat_signExtend, BitVec.ofNat_eq_ofNat, BitVec.toNat_ofNat]
  have := a.isLt
  split <;> omega

theorem neg_overflow : overflowsS32 (-a.signExtend 64) = (a == 0x80000000) := by
  have hlt := BitVec.toInt_lt (x := a)
  have hle := BitVec.le_toInt a
  rw [overflowsS32_eq, BitVec.toInt_neg, BitVec.toInt_signExtend_of_le (by decide),
    Int.bmod_eq_of_le (by omega) (by omega), Bool.eq_iff_iff, decide_eq_true_iff, beq_iff_eq,
    ← BitVec.toInt_inj]
  have hmin : (0x80000000 : BitVec 32).toInt = -2 ^ 31 := rfl
  rw [hmin]
  omega

/-! ## Multiplication and division -/

theorem mulhw_value (d : BitVec 64) : (d >>> 32).setWidth 32 = (d.sshiftRight 32).setWidth 32 := by
  ext i hi
  have h : 32 + i < 64 := by omega
  simp [BitVec.getLsbD_sshiftRight, h]
  omega

theorem mullw_overflow (d : BitVec 64) :
    overflowsS32 d = decide (d.toInt < -0x80000000 ∨ 0x7FFFFFFF < d.toInt) := by
  rw [overflowsS32_eq]
  exact decide_eq_decide.mpr (by omega)

/-- A quotient is stated to overflow when it does not fit an `s32`, although it is unsigned. -/
theorem divwu_overflow : overflowsS32 (a.setWidth 64) = a.msb := by
  rw [overflowsS32_eq, BitVec.msb_eq_decide, BitVec.toInt_eq_toNat_cond]
  simp only [BitVec.toNat_setWidth]
  have ha := a.isLt
  exact decide_eq_decide.mpr (by omega)

/-! ## Shifts -/

theorem toNat_and_3f : (b &&& 0x3f).toNat = b.toNat % 64 :=
  Nat.and_two_pow_sub_one_eq_mod b.toNat 6

theorem toNat_and_1f : (b &&& 0x1f).toNat = b.toNat % 32 :=
  Nat.and_two_pow_sub_one_eq_mod b.toNat 5

theorem and_20_ne_zero : b &&& 0x20 ≠ 0 ↔ 32 ≤ b.toNat % 64 := by
  have hand : b.toNat &&& 2 ^ 5 = (b.toNat.testBit 5).toNat * 2 ^ 5 := Nat.and_two_pow b.toNat 5
  rw [ne_eq, BitVec.toNat_eq]
  change ¬ b.toNat &&& 2 ^ 5 = 0 ↔ _
  rw [hand, Nat.testBit_eq_decide_div_mod_eq]
  by_cases hbit : b.toNat / 2 ^ 5 % 2 = 1
  · rw [decide_eq_true hbit, Bool.toNat_true]
    omega
  · rw [decide_eq_false hbit, Bool.toNat_false]
    omega

/-- The left shift of `slw` in 64 bits. -/
theorem slw_value (s : BitVec 32) : (s.setWidth 64 <<< (b &&& 0x3f).toNat).setWidth 32 =
    if b &&& 0x20 ≠ 0 then 0 else s <<< (b &&& 0x1f).toNat := by
  rw [toNat_and_3f, toNat_and_1f]
  by_cases hbit : b &&& 0x20 ≠ 0
  · have hn := (and_20_ne_zero b).mp hbit
    rw [if_pos hbit]
    ext i hi
    simp
    omega
  · have hn : b.toNat % 32 = b.toNat % 64 := by
      have := mt (and_20_ne_zero b).mpr hbit
      omega
    rw [if_neg hbit, hn]
    ext i hi
    simp

/-- The right shift of `srw` in 64 bits. -/
theorem srw_value (s : BitVec 32) : (s.setWidth 64 >>> (b &&& 0x3f).toNat).setWidth 32 =
    if b &&& 0x20 ≠ 0 then 0 else s >>> (b &&& 0x1f).toNat := by
  rw [toNat_and_3f, toNat_and_1f]
  by_cases hbit : b &&& 0x20 ≠ 0
  · have hn := (and_20_ne_zero b).mp hbit
    rw [if_pos hbit]
    ext i hi
    have hhigh := BitVec.getLsbD_of_ge s (b.toNat % 64 + i) (by omega)
    simp [hhigh]
  · have hn : b.toNat % 32 = b.toNat % 64 := by
      have := mt (and_20_ne_zero b).mpr hbit
      omega
    rw [if_neg hbit, hn]
    ext i hi
    simp
    exact fun h => (BitVec.lt_of_getLsbD h).trans (by decide)

section Sraw

variable (s : BitVec 32)

/-- The bits of `temp`: those of the value from bit 32 on, then copies of the sign. -/
theorem getLsbD_sraw {n i : ℕ} (hi : i < 64) : ((s.signExtend 64 <<< 32).sshiftRight n).getLsbD i =
    (decide (32 ≤ n + i) && if n + i < 64 then s.getLsbD (n + i - 32) else s.msb) := by
  have hmsb : (s.signExtend 64 <<< 32).msb = s.msb := by
    rw [BitVec.msb_eq_getLsbD_last, BitVec.msb_eq_getLsbD_last, BitVec.getLsbD_shiftLeft,
      BitVec.getLsbD_signExtend]
    rfl
  have hin : (!decide (64 ≤ i)) = true := by simp [hi]
  rw [BitVec.getLsbD_sshiftRight, hmsb, hin, Bool.true_and]
  by_cases hlt : n + i < 64
  · rw [if_pos hlt, if_pos hlt, BitVec.getLsbD_shiftLeft, BitVec.getLsbD_signExtend,
      if_pos (by omega)]
    by_cases h32 : 32 ≤ n + i
    · have h1 : ¬ n + i < 32 := by omega
      have h2 : n + i - 32 < 64 := by omega
      simp [hlt, h32, h1, h2]
    · have h1 : n + i < 32 := by omega
      simp [h32, h1]
  · have h32 : 32 ≤ n + i := by omega
    rw [if_neg hlt, if_neg hlt, decide_eq_true h32, Bool.true_and]

/-- The upper half of `temp` is the arithmetic shift, by 32 or more too. -/
theorem getLsbD_sraw_upper {n i : ℕ} (hi : i < 32) :
    (((s.signExtend 64 <<< 32).sshiftRight n >>> 32).setWidth 32).getLsbD i =
      if n + i < 32 then s.getLsbD (n + i) else s.msb := by
  have hin : 32 + i < 64 := by omega
  rw [BitVec.getLsbD_setWidth, BitVec.getLsbD_ushiftRight, getLsbD_sraw s hin,
    decide_eq_true hi, Bool.true_and, decide_eq_true (show 32 ≤ n + (32 + i) by omega),
    Bool.true_and]
  by_cases hlt : n + i < 32
  · rw [if_pos hlt, if_pos (by omega), show n + (32 + i) - 32 = n + i by omega]
  · rw [if_neg hlt, if_neg (by omega)]

theorem sraw_value {n : ℕ} :
    ((s.signExtend 64 <<< 32).sshiftRight n >>> 32).setWidth 32 = s.sshiftRight n := by
  refine BitVec.eq_of_getLsbD_eq fun i hi => ?_
  have hin : (!decide (32 ≤ i)) = true := by simp [hi]
  rw [getLsbD_sraw_upper s hi, BitVec.getLsbD_sshiftRight, hin, Bool.true_and]

theorem sraw_value_sign {n : ℕ} (hn : 32 ≤ n) :
    ((s.signExtend 64 <<< 32).sshiftRight n >>> 32).setWidth 32 =
      if s.msb then 0xFFFFFFFF else 0 := by
  refine BitVec.eq_of_getLsbD_eq fun i hi => ?_
  rw [getLsbD_sraw_upper s hi, if_neg (by omega)]
  cases s.msb with
  | true =>
    have hones : (0xFFFFFFFF : BitVec 32) = BitVec.allOnes 32 := rfl
    rw [if_pos rfl, hones, BitVec.getLsbD_allOnes, decide_eq_true hi]
  | false => simp

theorem bne_zero_iff {w : ℕ} (x : BitVec w) : (x != 0) = true ↔ ∃ i < w, x.getLsbD i = true := by
  rw [bne_iff_ne]
  constructor
  · intro hne
    by_contra hnone
    refine hne (BitVec.eq_of_getLsbD_eq fun i hi => ?_)
    have hbit : ¬ x.getLsbD i = true := fun h => hnone ⟨i, hi, h⟩
    simpa using hbit
  · rintro ⟨i, -, hbit⟩ rfl
    simp at hbit

/-- The carry of the folding: a bit of `temp` that is shifted out of its upper half, where the result
has a copy of the sign. -/
theorem sraw_carry_iff {n : ℕ} :
    ((s.signExtend 64 <<< 32).sshiftRight n &&&
        (((s.signExtend 64 <<< 32).sshiftRight n >>> 32).setWidth 32).setWidth 64 != 0) = true ↔
      s.msb = true ∧ ∃ i < 32, 32 ≤ n + i ∧ (n + i < 64 → s.getLsbD (n + i - 32) = true) := by
  rw [bne_zero_iff]
  constructor
  · rintro ⟨i, hi, hbit⟩
    rw [BitVec.getLsbD_and, BitVec.getLsbD_setWidth, getLsbD_sraw s hi] at hbit
    simp only [Bool.and_eq_true, decide_eq_true_eq] at hbit
    obtain ⟨⟨h32, htemp⟩, -, hupper⟩ := hbit
    have hi32 : i < 32 := BitVec.lt_of_getLsbD hupper
    rw [getLsbD_sraw_upper s hi32, if_neg (by omega)] at hupper
    refine ⟨hupper, i, hi32, h32, fun hlt => ?_⟩
    rwa [if_pos hlt] at htemp
  · rintro ⟨hmsb, i, hi, h32, hbit⟩
    have hi64 : i < 64 := by omega
    have hupper : (((s.signExtend 64 <<< 32).sshiftRight n >>> 32).setWidth 32).getLsbD i =
        true := by
      rw [getLsbD_sraw_upper s hi, if_neg (by omega), hmsb]
    refine ⟨i, hi64, ?_⟩
    rw [BitVec.getLsbD_and, BitVec.getLsbD_setWidth, getLsbD_sraw s hi64, hupper,
      decide_eq_true h32, decide_eq_true hi64, Bool.true_and, Bool.true_and, Bool.and_true]
    by_cases hlt : n + i < 64
    · rw [if_pos hlt, hbit hlt]
    · rw [if_neg hlt, hmsb]

theorem slt_zero : s.slt 0 = s.msb := by
  rw [BitVec.msb_eq_toInt]
  rfl

theorem sraw_carry {n : ℕ} (hn : n < 32) :
    ((s.signExtend 64 <<< 32).sshiftRight n &&&
        (((s.signExtend 64 <<< 32).sshiftRight n >>> 32).setWidth 32).setWidth 64 != 0) =
      shiftCarry s n := by
  rw [Bool.eq_iff_iff, sraw_carry_iff, shiftCarry, slt_zero, Bool.and_eq_true, Bool.and_eq_true,
    bne_zero_iff, decide_eq_true_iff, and_assoc]
  refine and_congr_right fun _ => ?_
  constructor
  · rintro ⟨i, hi, h32, hbit⟩
    refine ⟨by omega, i, hi, ?_⟩
    have hge : ¬ i < 32 - n := by omega
    rw [BitVec.getLsbD_shiftLeft, show i - (32 - n) = n + i - 32 by omega, hbit (by omega)]
    simp [hi, hge]
  · rintro ⟨-, i, hi, hbit⟩
    rw [BitVec.getLsbD_shiftLeft] at hbit
    simp only [Bool.and_eq_true, Bool.not_eq_true', decide_eq_false_iff_not] at hbit
    obtain ⟨⟨-, hge⟩, hbit⟩ := hbit
    refine ⟨i, hi, by omega, fun _ => ?_⟩
    rwa [show n + i - 32 = i - (32 - n) by omega]

theorem sraw_carry_sign {n : ℕ} (hn : 32 ≤ n) (hn' : n < 64) :
    ((s.signExtend 64 <<< 32).sshiftRight n &&&
        (((s.signExtend 64 <<< 32).sshiftRight n >>> 32).setWidth 32).setWidth 64 != 0) =
      s.msb := by
  rw [Bool.eq_iff_iff, sraw_carry_iff]
  refine and_iff_left_of_imp fun hmsb => ⟨63 - n, by omega, by omega, fun _ => ?_⟩
  rw [show n + (63 - n) - 32 = 31 by omega]
  rwa [BitVec.msb_eq_getLsbD_last] at hmsb

end Sraw

end PowerPC
