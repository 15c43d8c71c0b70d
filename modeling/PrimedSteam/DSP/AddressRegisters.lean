import Mathlib.Data.Nat.Log
import Mathlib.Order.Bounds.Basic
import Mathlib.Data.BitVec

/-!
# Address registers of the DSP

* `masked_le_iff`: what is left by the mask of a wrapping register tells of one carry only.
* `increase_eq`, `decrease_eq`: an address register moves in the last `wr + 1` words of a block whose
  size is a power of two.
* **`circular_addressing`**: the four updates step through these words.
-/

set_option autoImplicit false

namespace DSP

/-- The address registers and the wrapping registers. -/
structure AddressRegisters where
  ar : Fin 4 → BitVec 16
  wr : Fin 4 → BitVec 16

namespace AddressRegisters

def setAr (r : AddressRegisters) (reg : Fin 4) (value : BitVec 16) : AddressRegisters :=
  { r with ar := Function.update r.ar reg value }

def incrementAddressRegister (r : AddressRegisters) (reg : Fin 4) : BitVec 16 :=
  let ar := (r.ar reg).setWidth 32
  let wr := (r.wr reg).setWidth 32
  let nar := ar + 1#32
  (if nar ^^^ ar > (wr ||| 1#32) <<< 1 then nar - (wr + 1#32) else nar).setWidth 16

def decrementAddressRegister (r : AddressRegisters) (reg : Fin 4) : BitVec 16 :=
  let ar := (r.ar reg).setWidth 32
  let wr := (r.wr reg).setWidth 32
  let nar := ar + wr
  (if (nar ^^^ ar) &&& ((wr ||| 1#32) <<< 1) > wr then nar - (wr + 1#32) else nar).setWidth 16

def increaseAddressRegister (r : AddressRegisters) (reg : Fin 4) (step : BitVec 16) : BitVec 16 :=
  let ar := (r.ar reg).setWidth 32
  let wr := (r.wr reg).setWidth 32
  let ix := step.signExtend 32
  let mx := (wr ||| 1#32) <<< 1
  let nar := ar + ix
  let dar := (nar ^^^ ar ^^^ ix) &&& mx
  if 0 ≤ ix.toInt then
    -- overflow
    (if dar > wr then nar - (wr + 1#32) else nar).setWidth 16
  else
    -- underflow or below the least address for the mask
    (if ((nar + wr + 1#32) ^^^ nar) &&& dar ≤ wr then nar + (wr + 1#32) else nar).setWidth 16

def decreaseAddressRegister (r : AddressRegisters) (reg : Fin 4) (step : BitVec 16) : BitVec 16 :=
  let ar := (r.ar reg).setWidth 32
  let wr := (r.wr reg).setWidth 32
  let ix := step.signExtend 32
  let mx := (wr ||| 1#32) <<< 1
  let nar := ar - ix
  let dar := (nar ^^^ ar ^^^ ~~~ix) &&& mx
  -- negative, but not the least value
  if ix > 0xFFFF8000#32 then
    (if dar > wr then nar - (wr + 1#32) else nar).setWidth 16
  else
    (if ((nar + wr + 1#32) ^^^ nar) &&& dar ≤ wr then nar + (wr + 1#32) else nar).setWidth 16

end AddressRegisters

/-! ## Masks -/

/-- The number of bits of the addresses in a block for a wrapping register. -/
def wrapBits (wr : BitVec 16) : ℕ := Nat.log2 wr.toNat + 1

/-- The block of an address is `wrapMask` plus one words long. -/
def wrapMask (wr : BitVec 16) : ℕ := 2 ^ wrapBits wr - 1

theorem lt_two_pow_wrapBits (wr : BitVec 16) : wr.toNat < 2 ^ wrapBits wr :=
  Nat.lt_log2_self

theorem wrapBits_le (wr : BitVec 16) : wrapBits wr ≤ 16 := by
  rw [wrapBits, Nat.add_one_le_iff]
  by_cases h : wr.toNat = 0
  · rw [h]
    decide
  · exact (Nat.log2_lt h).mpr wr.isLt

/-- The block is at most twice as long as the words the register asks for. -/
theorem two_pow_wrapBits_le (wr : BitVec 16) : 2 ^ wrapBits wr ≤ 4 * (wr.toNat / 2) + 2 := by
  rw [wrapBits]
  by_cases h : wr.toNat = 0
  · rw [h]
    decide
  · have hle := Nat.log2_self_le h
    rcases Nat.eq_zero_or_pos (Nat.log2 wr.toNat) with h0 | hpos
    · rw [h0]
      omega
    · obtain ⟨k, hk⟩ := Nat.exists_eq_add_of_lt hpos
      rw [hk] at hle ⊢
      rw [Nat.zero_add, Nat.pow_succ] at hle
      rw [Nat.zero_add, Nat.pow_succ, Nat.pow_succ]
      omega

theorem or_one (x : ℕ) : x ||| 1 = 2 * (x / 2) + 1 := by
  refine Nat.eq_of_testBit_eq fun i => ?_
  cases i with
  | zero => simp
  | succ i =>
    have hdiv : (2 * (x / 2) + 1) / 2 = x / 2 := by omega
    rw [Nat.testBit_succ, Nat.testBit_succ, Nat.or_div_two, hdiv, Nat.or_zero]

section

variable (wr : BitVec 16)

theorem toNat_mx : ((wr.setWidth 32 ||| 1#32) <<< 1).toNat = 4 * (wr.toNat / 2) + 2 := by
  have hlt := wr.isLt
  have hor : (wr.setWidth 32 ||| 1#32).toNat = 2 * (wr.toNat / 2) + 1 := by
    rw [BitVec.toNat_or, BitVec.toNat_setWidth, Nat.mod_eq_of_lt (by omega), BitVec.toNat_ofNat,
      Nat.mod_eq_of_lt (by decide), or_one]
  rw [BitVec.toNat_shiftLeft, hor, Nat.shiftLeft_eq, Nat.mod_eq_of_lt (by omega)]
  omega

variable {wr}

/-- **What the mask leaves exceeds the wrapping register iff it has the bit that a carry out of the block
sets.** -/
theorem masked_le_iff (d : BitVec 32) : d &&& ((wr.setWidth 32 ||| 1#32) <<< 1) ≤ wr.setWidth 32 ↔
    d.getLsbD (wrapBits wr) = false := by
  have hlt := lt_two_pow_wrapBits wr
  have hle := two_pow_wrapBits_le wr
  have hpow : 2 ^ wrapBits wr = 2 * 2 ^ Nat.log2 wr.toNat := by rw [wrapBits, Nat.pow_succ']
  have hwr := wr.isLt
  obtain ⟨lo, hlo⟩ := Nat.exists_eq_add_of_le hle
  have hlo_lt : lo < 2 ^ wrapBits wr := by omega
  rw [BitVec.le_def, BitVec.toNat_and, toNat_mx, BitVec.toNat_setWidth, Nat.mod_eq_of_lt (by omega), hlo]
  constructor
  · intro h
    by_contra hbit
    rw [Bool.not_eq_false] at hbit
    -- the bit is in the mask, too
    have hmask : (2 ^ wrapBits wr + lo).testBit (wrapBits wr) = true := by
      rw [Nat.testBit_two_pow_add_eq, Nat.testBit_lt_two_pow hlo_lt]
      rfl
    have hge : 2 ^ wrapBits wr ≤ d.toNat &&& (2 ^ wrapBits wr + lo) := by
      refine Nat.ge_two_pow_of_testBit ?_
      rw [Nat.testBit_and, hmask, Bool.and_true]
      exact hbit
    omega
  · intro hbit
    have heq : d.toNat &&& (2 ^ wrapBits wr + lo) = d.toNat &&& lo := by
      refine Nat.eq_of_testBit_eq fun i => ?_
      rw [Nat.testBit_and, Nat.testBit_and]
      rcases Nat.lt_trichotomy i (wrapBits wr) with hi | rfl | hi
      · rw [Nat.testBit_two_pow_add_gt hi]
      · rw [show d.toNat.testBit (wrapBits wr) = false from hbit, Bool.false_and, Bool.false_and]
      · have hpow_le : 2 ^ (wrapBits wr + 1) ≤ 2 ^ i := Nat.pow_le_pow_right Nat.two_pos hi
        rw [Nat.pow_succ] at hpow_le
        have hmask : (2 ^ wrapBits wr + lo).testBit i = false := Nat.testBit_lt_two_pow (by omega)
        have hlow : lo.testBit i = false := Nat.testBit_lt_two_pow (by omega)
        rw [hmask, hlow]
    rw [heq]
    refine Nat.and_le_right.trans ?_
    omega

theorem masked_gt_iff (d : BitVec 32) : d &&& ((wr.setWidth 32 ||| 1#32) <<< 1) > wr.setWidth 32 ↔
    d.getLsbD (wrapBits wr) = true := by
  rw [gt_iff_lt, ← BitVec.not_le, masked_le_iff, Bool.not_eq_false]

end

/-! ## Carries -/

theorem getLsbD_add_xor_xor {n : ℕ} (hn : n < 32) (x y : BitVec 32) :
    ((x + y) ^^^ x ^^^ y).getLsbD n = decide (2 ^ n ≤ x.toNat % 2 ^ n + y.toNat % 2 ^ n) := by
  rw [BitVec.getLsbD_xor, BitVec.getLsbD_xor, BitVec.getLsbD_add hn, BitVec.carry]
  cases x.getLsbD n <;> cases y.getLsbD n <;> simp

theorem getLsbD_sub_xor_xor {n : ℕ} (hn : n < 32) (x y : BitVec 32) :
    ((x - y) ^^^ x ^^^ ~~~y).getLsbD n = decide (y.toNat % 2 ^ n ≤ x.toNat % 2 ^ n) := by
  have hpos := Nat.two_pow_pos n
  have hx := Nat.mod_lt x.toNat hpos
  have hy := Nat.mod_lt y.toNat hpos
  have hsub : x - y = x + ~~~y + BitVec.setWidth 32 (BitVec.ofBool true) := by
    rw [BitVec.sub_eq_add_neg, BitVec.neg_eq_not_add, BitVec.add_assoc]
    rfl
  have hnot : (~~~y).toNat % 2 ^ n = 2 ^ n - 1 - y.toNat % 2 ^ n := by
    have hdvd : 2 ^ n ∣ 2 ^ 32 := Nat.pow_dvd_pow 2 hn.le
    obtain ⟨k, hk⟩ := hdvd
    have hdiv := Nat.div_add_mod y.toNat (2 ^ n)
    have hlt := y.isLt
    have hkpos : y.toNat / 2 ^ n < k := by
      rw [Nat.div_lt_iff_lt_mul hpos, Nat.mul_comm, ← hk]
      exact hlt
    obtain ⟨j, rfl⟩ := Nat.exists_eq_add_of_lt hkpos
    rw [BitVec.toNat_not, hk]
    have hval : 2 ^ n * (y.toNat / 2 ^ n + j + 1) - 1 - y.toNat =
        (2 ^ n - 1 - y.toNat % 2 ^ n) + 2 ^ n * j := by
      rw [Nat.mul_add, Nat.mul_add, Nat.mul_one]
      omega
    rw [hval, Nat.add_mul_mod_self_left, Nat.mod_eq_of_lt (by omega)]
  rw [BitVec.getLsbD_xor, BitVec.getLsbD_xor, hsub, BitVec.getLsbD_add_add_bool hn, BitVec.carry, hnot]
  have hcarry : decide (x.toNat % 2 ^ n + (2 ^ n - 1 - y.toNat % 2 ^ n) + true.toNat ≥ 2 ^ n) =
      decide (y.toNat % 2 ^ n ≤ x.toNat % 2 ^ n) := by
    rw [decide_eq_decide, Bool.toNat_true]
    omega
  rw [hcarry]
  cases x.getLsbD n <;> cases (~~~y).getLsbD n <;> simp

/-- A summand of at most `2 ^ n` changes the bit `n` iff the lower bits leave no room for it. -/
theorem getLsbD_add_xor {n : ℕ} (hn : n < 32) (x : BitVec 32) {y : BitVec 32} (hy : y.toNat ≤ 2 ^ n) :
    ((x + y) ^^^ x).getLsbD n = decide (2 ^ n ≤ x.toNat % 2 ^ n + y.toNat) := by
  have hpos := Nat.two_pow_pos n
  have hmod := Nat.mod_lt x.toNat hpos
  have hbit : ((x + y) ^^^ x).getLsbD n = (((x + y) ^^^ x ^^^ y).getLsbD n ^^ y.getLsbD n) := by
    rw [BitVec.getLsbD_xor (x := (x + y) ^^^ x)]
    cases ((x + y) ^^^ x).getLsbD n <;> cases y.getLsbD n <;> rfl
  rw [hbit, getLsbD_add_xor_xor hn, BitVec.getLsbD]
  rcases hy.lt_or_eq with hlt | heq
  · rw [Nat.mod_eq_of_lt hlt, Nat.testBit_lt_two_pow hlt, Bool.xor_false]
  · rw [heq, Nat.mod_self, Nat.testBit_two_pow_self]
    simp only [Nat.add_zero, Bool.xor_true, ← decide_not, decide_eq_decide]
    omega

/-! ## Steps -/

theorem add_mod_eq {a b p : ℕ} (ha : a < p) (hb : b < p) :
    (a + b) % p = if a + b < p then a + b else a + b - p := by
  split_ifs with h
  · exact Nat.mod_eq_of_lt h
  · rw [Nat.mod_eq_sub_mod (by omega), Nat.mod_eq_of_lt (by omega)]

/-- A step that stays within the `w + 1` words from `low` on, up to a whole turn. -/
theorem turn_eq {low w x y k : ℤ} (hy : y = low + x + k * (w + 1)) (hlow : low ≤ y) (hhigh : y ≤ low + w) :
    y = low + x % (w + 1) := by
  have hmod : x % (w + 1) = (y - low) % (w + 1) := by
    rw [hy, show low + x + k * (w + 1) - low = x + k * (w + 1) by omega, Int.add_mul_emod_self_right]
  rw [hmod, Int.emod_eq_of_lt (by omega) (by omega)]
  omega

/-- The least address that a wrapping register leaves to an address register: the words end where the
block ends. -/
def wrapLow (ar wr : BitVec 16) : ℕ := (ar.toNat ||| wrapMask wr) - wr.toNat

theorem or_wrapMask (ar wr : BitVec 16) : ar.toNat ||| wrapMask wr =
    2 ^ wrapBits wr * (ar.toNat / 2 ^ wrapBits wr) + (2 ^ wrapBits wr - 1) := by
  have hpos := Nat.two_pow_pos (wrapBits wr)
  rw [Nat.two_pow_add_eq_or_of_lt (by omega)]
  refine Nat.eq_of_testBit_eq fun i => ?_
  rw [wrapMask, Nat.testBit_or, Nat.testBit_or, Nat.testBit_two_pow_sub_one, Nat.testBit_two_pow_mul,
    Nat.testBit_div_two_pow]
  by_cases h : i < wrapBits wr
  · simp [h]
  · have hle : wrapBits wr ≤ i := by omega
    simp [h, hle]

section

variable (ar wr step : BitVec 16)

theorem wrapLow_eq : wrapLow ar wr + wr.toNat =
    2 ^ wrapBits wr * (ar.toNat / 2 ^ wrapBits wr) + (2 ^ wrapBits wr - 1) := by
  have hlt := lt_two_pow_wrapBits wr
  rw [wrapLow, or_wrapMask]
  omega

theorem toNat_signExtend : ((step.signExtend 32).toNat : ℤ) =
    if 0 ≤ step.toInt then step.toInt else 2 ^ 32 + step.toInt := by
  have hint : (step.signExtend 32).toInt = step.toInt := BitVec.toInt_signExtend_of_le (by decide)
  have hlow := BitVec.le_toInt step
  have hhigh := BitVec.toInt_lt (x := step)
  rw [← hint, BitVec.toInt_eq_toNat_cond] at *
  split_ifs at * <;> omega

end

theorem exists_block (ar wr : BitVec 16) : ∃ c a, ar.toNat = c + a ∧ ar.toNat % 2 ^ wrapBits wr = a ∧
    a < 2 ^ wrapBits wr ∧ wrapLow ar wr + wr.toNat + 1 = c + 2 ^ wrapBits wr ∧
      c + 2 ^ wrapBits wr ≤ 2 ^ 16 := by
  have hpos := Nat.two_pow_pos (wrapBits wr)
  have hwl := wrapLow_eq ar wr
  refine ⟨_, _, (Nat.div_add_mod ar.toNat (2 ^ wrapBits wr)).symm, rfl, Nat.mod_lt _ hpos, ?_, ?_⟩
  · omega
  · obtain ⟨k, hk⟩ := Nat.pow_dvd_pow 2 (wrapBits_le wr)
    have hlt : ar.toNat / 2 ^ wrapBits wr < k := by
      rw [Nat.div_lt_iff_lt_mul hpos, Nat.mul_comm, ← hk]
      exact ar.isLt
    rw [← Nat.mul_succ, hk]
    exact Nat.mul_le_mul_left _ hlt

theorem two_pow_wrapBits_dvd (wr : BitVec 16) : 2 ^ wrapBits wr ∣ 2 ^ 32 :=
  Nat.pow_dvd_pow 2 ((wrapBits_le wr).trans (by decide))

theorem two_pow_add_mod {p i : ℕ} {s : ℤ} (hdvd : p ∣ 2 ^ 32) (hi : (i : ℤ) = 2 ^ 32 + s) (hs : s < 0)
    (hp : -p ≤ s) : ((i % p : ℕ) : ℤ) = if s = -p then 0 else p + s := by
  obtain ⟨k, hk⟩ := hdvd
  have hk' : (2 ^ 32 : ℤ) = p * k := by exact_mod_cast hk
  rw [Int.natCast_emod, hi, hk', Int.mul_add_emod_self_left]
  split_ifs with h
  · rw [h]
    simp
  · rw [← Int.add_emod_left, Int.emod_eq_of_lt (by omega) (by omega)]

namespace AddressRegisters

section

variable {r : AddressRegisters} {reg : Fin 4} {step : BitVec 16}

theorem toNat_ar : ((r.ar reg).setWidth 32).toNat = (r.ar reg).toNat := by
  have har := (r.ar reg).isLt
  rw [BitVec.toNat_setWidth, Nat.mod_eq_of_lt (by omega)]

theorem toNat_wr : ((r.wr reg).setWidth 32).toNat = (r.wr reg).toNat := by
  have hwr := (r.wr reg).isLt
  rw [BitVec.toNat_setWidth, Nat.mod_eq_of_lt (by omega)]

theorem toNat_turn : ((r.wr reg).setWidth 32 + 1#32).toNat = (r.wr reg).toNat + 1 := by
  have hwr := (r.wr reg).isLt
  rw [BitVec.toNat_add, toNat_wr, BitVec.toNat_ofNat, Nat.mod_eq_of_lt (by omega)]

section

variable {nar : BitVec 32} {s : ℤ} (hnar : (nar.toNat : ℤ) = ((r.ar reg).toNat + s) % 2 ^ 32)
  (hend : wrapLow (r.ar reg) (r.wr reg) + (r.wr reg).toNat < 2 ^ 16)

include hnar hend

theorem turn_back
    (hlow : (wrapLow (r.ar reg) (r.wr reg) : ℤ) ≤ (r.ar reg).toNat + s - ((r.wr reg).toNat + 1))
    (hhigh : (r.ar reg).toNat + s - ((r.wr reg).toNat + 1) ≤
      wrapLow (r.ar reg) (r.wr reg) + (r.wr reg).toNat) :
    (((nar - ((r.wr reg).setWidth 32 + 1#32)).setWidth 16).toNat : ℤ) = wrapLow (r.ar reg) (r.wr reg) +
      ((r.ar reg).toNat - wrapLow (r.ar reg) (r.wr reg) + s) % ((r.wr reg).toNat + 1) := by
  refine turn_eq (k := -1) ?_ ?_ ?_ <;> rw [BitVec.toNat_setWidth, BitVec.toNat_sub, toNat_turn] <;> omega

theorem stay (hlow : (wrapLow (r.ar reg) (r.wr reg) : ℤ) ≤ (r.ar reg).toNat + s)
    (hhigh : (r.ar reg).toNat + s ≤ wrapLow (r.ar reg) (r.wr reg) + (r.wr reg).toNat) :
    ((nar.setWidth 16).toNat : ℤ) = wrapLow (r.ar reg) (r.wr reg) +
      ((r.ar reg).toNat - wrapLow (r.ar reg) (r.wr reg) + s) % ((r.wr reg).toNat + 1) := by
  refine turn_eq (k := 0) ?_ ?_ ?_ <;> rw [BitVec.toNat_setWidth] <;> omega

theorem turn_on
    (hlow : (wrapLow (r.ar reg) (r.wr reg) : ℤ) ≤ (r.ar reg).toNat + s + ((r.wr reg).toNat + 1))
    (hhigh : (r.ar reg).toNat + s + ((r.wr reg).toNat + 1) ≤
      wrapLow (r.ar reg) (r.wr reg) + (r.wr reg).toNat) :
    (((nar + ((r.wr reg).setWidth 32 + 1#32)).setWidth 16).toNat : ℤ) = wrapLow (r.ar reg) (r.wr reg) +
      ((r.ar reg).toNat - wrapLow (r.ar reg) (r.wr reg) + s) % ((r.wr reg).toNat + 1) := by
  refine turn_eq (k := 1) ?_ ?_ ?_ <;> rw [BitVec.toNat_setWidth, BitVec.toNat_add, toNat_turn] <;> omega

end

theorem toNat_add_step : (((r.ar reg).setWidth 32 + step.signExtend 32).toNat : ℤ) =
    ((r.ar reg).toNat + step.toInt) % 2 ^ 32 := by
  have hix := toNat_signExtend step
  rw [BitVec.toNat_add, toNat_ar]
  split_ifs at hix <;> omega

theorem toNat_sub_step : (((r.ar reg).setWidth 32 - step.signExtend 32).toNat : ℤ) =
    ((r.ar reg).toNat + -step.toInt) % 2 ^ 32 := by
  have hix := toNat_signExtend step
  rw [BitVec.toNat_sub, toNat_ar]
  split_ifs at hix <;> omega

/-- **The test for an underflow**, for a step that has moved by `s` and has left the carry out of the block
when `s` does not leave it. -/
theorem under_iff (nar d : BitVec 32) {c a : ℕ} {s : ℤ} (har : (r.ar reg).toNat = c + a)
    (hblk : wrapLow (r.ar reg) (r.wr reg) + (r.wr reg).toNat + 1 =
      c + 2 ^ wrapBits (r.wr reg))
    (hnar : 0 ≤ a + s → ((nar.toNat % 2 ^ wrapBits (r.wr reg) : ℕ) : ℤ) = a + s)
    (hd : d.getLsbD (wrapBits (r.wr reg)) = decide (0 ≤ a + s)) :
    ((nar + (r.wr reg).setWidth 32 + 1#32) ^^^ nar) &&& (d &&& (((r.wr reg).setWidth 32 ||| 1#32) <<< 1)) ≤
        (r.wr reg).setWidth 32 ↔ (r.ar reg).toNat + s < wrapLow (r.ar reg) (r.wr reg) := by
  have hlt := lt_two_pow_wrapBits (r.wr reg)
  have hbits := wrapBits_le (r.wr reg)
  rw [← BitVec.and_assoc, masked_le_iff, BitVec.getLsbD_and, BitVec.add_assoc,
    getLsbD_add_xor (by omega) _ (by rw [toNat_turn]; exact hlt), hd, toNat_turn]
  generalize 2 ^ wrapBits (r.wr reg) = p at *
  by_cases hneg : 0 ≤ a + s
  · have hmod := hnar hneg
    simp only [hneg, decide_true, Bool.and_true, decide_eq_false_iff_not]
    omega
  · simp only [hneg, decide_false, Bool.and_false, true_iff]
    omega

/-- **Increase**: a step of at most `wr + 1` words, but not of a whole block. -/
theorem increase_eq (hlow : wrapLow (r.ar reg) (r.wr reg) ≤ (r.ar reg).toNat)
    (hstep : step.toInt.natAbs ≤ (r.wr reg).toNat + 1) (hblock : step.toInt ≠ wrapMask (r.wr reg) + 1) :
    ((r.increaseAddressRegister reg step).toNat : ℤ) =
      wrapLow (r.ar reg) (r.wr reg) +
        ((r.ar reg).toNat - wrapLow (r.ar reg) (r.wr reg) + step.toInt) % ((r.wr reg).toNat + 1) := by
  have hint : (step.signExtend 32).toInt = step.toInt := BitVec.toInt_signExtend_of_le (by decide)
  have hnar := @toNat_add_step r reg step
  have hix := toNat_signExtend step
  have hlt := lt_two_pow_wrapBits (r.wr reg)
  have hbits := wrapBits_le (r.wr reg)
  have hdvd := two_pow_wrapBits_dvd (r.wr reg)
  obtain ⟨c, a, hca, hmod, ha, hblk, hend⟩ := exists_block (r.ar reg) (r.wr reg)
  have hend' : wrapLow (r.ar reg) (r.wr reg) + (r.wr reg).toNat < 2 ^ 16 := by omega
  rw [wrapMask] at hblock
  simp only [increaseAddressRegister, hint]
  by_cases hs : 0 ≤ step.toInt
  · rw [if_pos hs] at hix
    have hcarry : ((r.ar reg).setWidth 32 + step.signExtend 32 ^^^ (r.ar reg).setWidth 32 ^^^
        step.signExtend 32) &&& (((r.wr reg).setWidth 32 ||| 1#32) <<< 1) > (r.wr reg).setWidth 32 ↔
          2 ^ wrapBits (r.wr reg) ≤ a + (step.signExtend 32).toNat := by
      rw [masked_gt_iff, getLsbD_add_xor_xor (by omega), decide_eq_true_eq, toNat_ar, hmod,
        Nat.mod_eq_of_lt (a := (step.signExtend 32).toNat) (by omega)]
    simp only [if_pos hs, hcarry]
    split_ifs with hover
    · exact turn_back hnar hend' (by omega) (by omega)
    · exact stay hnar hend' (by omega) (by omega)
  · rw [if_neg hs] at hix
    have hi := two_pow_add_mod hdvd hix (by omega) (by omega)
    have hunder := under_iff ((r.ar reg).setWidth 32 + step.signExtend 32)
      ((r.ar reg).setWidth 32 + step.signExtend 32 ^^^ (r.ar reg).setWidth 32 ^^^ step.signExtend 32)
      hca hblk (s := step.toInt) ?_ ?_
    · simp only [if_neg hs, hunder]
      split_ifs with hlt
      · exact turn_on hnar hend' (by omega) (by omega)
      · exact stay hnar hend' (by omega) (by omega)
    · intro hstay
      rw [BitVec.toNat_add, toNat_ar, Nat.mod_mod_of_dvd _ hdvd, Nat.add_mod, hmod,
        add_mod_eq ha (Nat.mod_lt _ (Nat.two_pow_pos _))]
      split_ifs at hi ⊢ <;> omega
    · rw [getLsbD_add_xor_xor (by omega), toNat_ar, hmod, decide_eq_decide]
      split_ifs at hi <;> omega

/-- **Decrease**: as the increase by the opposite step; the least step has no opposite. -/
theorem decrease_eq (hlow : wrapLow (r.ar reg) (r.wr reg) ≤ (r.ar reg).toNat)
    (hstep : step.toInt.natAbs ≤ (r.wr reg).toNat + 1) (hblock : step.toInt ≠ wrapMask (r.wr reg) + 1)
    (hleast : step.toInt ≠ -0x8000) :
    ((r.decreaseAddressRegister reg step).toNat : ℤ) =
      wrapLow (r.ar reg) (r.wr reg) +
        ((r.ar reg).toNat - wrapLow (r.ar reg) (r.wr reg) + -step.toInt) % ((r.wr reg).toNat + 1) := by
  have hnar := @toNat_sub_step r reg step
  have hix := toNat_signExtend step
  have hbound := BitVec.le_toInt step
  have hbound' := BitVec.toInt_lt (x := step)
  have hlt := lt_two_pow_wrapBits (r.wr reg)
  have hbits := wrapBits_le (r.wr reg)
  have hdvd := two_pow_wrapBits_dvd (r.wr reg)
  obtain ⟨c, a, hca, hmod, ha, hblk, hend⟩ := exists_block (r.ar reg) (r.wr reg)
  have hend' : wrapLow (r.ar reg) (r.wr reg) + (r.wr reg).toNat < 2 ^ 16 := by omega
  have hneg : step.signExtend 32 > 0xFFFF8000#32 ↔ ¬0 ≤ step.toInt := by
    rw [gt_iff_lt, BitVec.lt_def, BitVec.toNat_ofNat]
    split_ifs at hix <;> omega
  rw [wrapMask] at hblock
  simp only [decreaseAddressRegister, hneg]
  by_cases hs : 0 ≤ step.toInt
  · rw [if_pos hs] at hix
    have hi : (step.signExtend 32).toNat % 2 ^ wrapBits (r.wr reg) = (step.signExtend 32).toNat :=
      Nat.mod_eq_of_lt (by omega)
    have hunder := under_iff ((r.ar reg).setWidth 32 - step.signExtend 32)
      ((r.ar reg).setWidth 32 - step.signExtend 32 ^^^ (r.ar reg).setWidth 32 ^^^
        ~~~step.signExtend 32)
      hca hblk (s := -step.toInt) ?_ ?_
    · rw [if_neg (not_not_intro hs)]
      simp only [hunder]
      split_ifs with hlt
      · exact turn_on hnar hend' (by omega) (by omega)
      · exact stay hnar hend' (by omega) (by omega)
    · intro hstay
      have hle : (step.signExtend 32).toNat ≤ (r.ar reg).toNat := by omega
      have hval : ((r.ar reg).setWidth 32 - step.signExtend 32).toNat =
          2 ^ wrapBits (r.wr reg) * ((r.ar reg).toNat / 2 ^ wrapBits (r.wr reg)) +
            (a - (step.signExtend 32).toNat) := by
        have hdiv := Nat.div_add_mod (r.ar reg).toNat (2 ^ wrapBits (r.wr reg))
        have har := (r.ar reg).isLt
        omega
      rw [hval, Nat.mul_add_mod, Nat.mod_eq_of_lt (by omega)]
      omega
    · rw [getLsbD_sub_xor_xor (by omega), toNat_ar, hmod, decide_eq_decide, hi]
      omega
  · rw [if_neg hs] at hix
    have hcarry : ((r.ar reg).setWidth 32 - step.signExtend 32 ^^^ (r.ar reg).setWidth 32 ^^^
        ~~~step.signExtend 32) &&& (((r.wr reg).setWidth 32 ||| 1#32) <<< 1) > (r.wr reg).setWidth 32 ↔
          ((2 ^ wrapBits (r.wr reg) : ℕ) : ℤ) ≤ a + -step.toInt := by
      have hi := two_pow_add_mod hdvd hix (by omega) (by omega)
      rw [masked_gt_iff, getLsbD_sub_xor_xor (by omega), decide_eq_true_eq, toNat_ar, hmod]
      split_ifs at hi <;> omega
    simp only [if_pos hs, hcarry]
    split_ifs with hover
    · exact turn_back hnar hend' (by omega) (by omega)
    · exact stay hnar hend' (by omega) (by omega)

/-- In a buffer of all words the wrap changes nothing. -/
theorem decrease_full (hfull : r.wr reg = 0xFFFF) :
    ((r.decreaseAddressRegister reg step).toNat : ℤ) =
      wrapLow (r.ar reg) (r.wr reg) +
        ((r.ar reg).toNat - wrapLow (r.ar reg) (r.wr reg) + -step.toInt) % ((r.wr reg).toNat + 1) := by
  have har := (r.ar reg).isLt
  have hlow : wrapLow (r.ar reg) (r.wr reg) = 0 := by
    rw [wrapLow, or_wrapMask, hfull]
    change 2 ^ 16 * (_ / 2 ^ 16) + (2 ^ 16 - 1) - 65535 = 0
    omega
  have hsize : ((r.wr reg).toNat : ℤ) = 65535 := by
    rw [hfull]
    rfl
  have hwr : (r.wr reg).setWidth 32 + 1#32 = 0x10000#32 := by
    rw [hfull]
    rfl
  have hnar := @toNat_sub_step r reg step
  rw [hlow, hsize]
  simp only [decreaseAddressRegister, hwr]
  generalize (r.ar reg).setWidth 32 - step.signExtend 32 = nar at hnar ⊢
  have hlt := nar.isLt
  have hkept : ((nar.setWidth 16).toNat : ℤ) = ((r.ar reg).toNat + -step.toInt) % 2 ^ 16 := by
    rw [BitVec.toNat_setWidth]
    omega
  have hback : (nar - 0x10000#32).setWidth 16 = nar.setWidth 16 := by
    refine BitVec.eq_of_toNat_eq ?_
    rw [BitVec.toNat_setWidth, BitVec.toNat_setWidth, BitVec.toNat_sub, BitVec.toNat_ofNat]
    omega
  have hon : (nar + 0x10000#32).setWidth 16 = nar.setWidth 16 := by
    refine BitVec.eq_of_toNat_eq ?_
    rw [BitVec.toNat_setWidth, BitVec.toNat_setWidth, BitVec.toNat_add, BitVec.toNat_ofNat]
    omega
  split_ifs
  · rw [hback, hkept]
    omega
  · rw [hkept]
    omega
  · rw [hon, hkept]
    omega
  · rw [hkept]
    omega

theorem getLsbD_increment {i : ℕ} (hi : i < 32) (x : BitVec 32) :
    ((x + 1#32) ^^^ x).getLsbD i = decide (x.toNat % 2 ^ i = 2 ^ i - 1) := by
  have hpos := Nat.two_pow_pos i
  have hmod := Nat.mod_lt x.toNat hpos
  rw [getLsbD_add_xor hi x (by rw [BitVec.toNat_ofNat]; omega), BitVec.toNat_ofNat, decide_eq_decide]
  omega

theorem mod_ones (n : ℕ) {x i : ℕ} (hi : i ≤ n) (h : x % 2 ^ n = 2 ^ n - 1) : x % 2 ^ i = 2 ^ i - 1 := by
  obtain ⟨k, rfl⟩ := Nat.exists_eq_add_of_le hi
  have hpos := Nat.two_pow_pos i
  obtain ⟨j, hj⟩ := Nat.exists_eq_add_of_lt (Nat.two_pow_pos k)
  have hval : 2 ^ (i + k) - 1 = 2 ^ i * j + (2 ^ i - 1) := by
    rw [Nat.pow_add, hj, Nat.mul_add, Nat.zero_add, Nat.mul_one]
    omega
  rw [← Nat.mod_mod_of_dvd x (Nat.pow_dvd_pow 2 hi), h, hval, Nat.mul_add_mod, Nat.mod_eq_of_lt (by omega)]

/-- Without a mask: a step of one changes all bits up to the one that its carry sets. -/
theorem increment_gt_iff : ((r.ar reg).setWidth 32 + 1#32) ^^^ (r.ar reg).setWidth 32 >
    ((r.wr reg).setWidth 32 ||| 1#32) <<< 1 ↔
      2 ^ wrapBits (r.wr reg) ≤ (r.ar reg).toNat % 2 ^ wrapBits (r.wr reg) + 1 := by
  have hbits := wrapBits_le (r.wr reg)
  have hmx := two_pow_wrapBits_le (r.wr reg)
  have hlt := lt_two_pow_wrapBits (r.wr reg)
  have hmod := Nat.mod_lt (r.ar reg).toNat (Nat.two_pow_pos (wrapBits (r.wr reg)))
  have hpow : 2 ^ wrapBits (r.wr reg) = 2 * 2 ^ Nat.log2 (r.wr reg).toNat := by
    rw [wrapBits, Nat.pow_succ']
  rw [gt_iff_lt, BitVec.lt_def, toNat_mx]
  by_cases hcarry : 2 ^ wrapBits (r.wr reg) ≤ (r.ar reg).toNat % 2 ^ wrapBits (r.wr reg) + 1
  · refine iff_of_true ?_ hcarry
    have hlow : (((r.ar reg).setWidth 32 + 1#32) ^^^ (r.ar reg).setWidth 32).toNat %
        2 ^ (wrapBits (r.wr reg) + 1) = 2 ^ (wrapBits (r.wr reg) + 1) - 1 := by
      refine Nat.eq_of_testBit_eq fun i => ?_
      rw [Nat.testBit_mod_two_pow, Nat.testBit_two_pow_sub_one]
      by_cases hi : i < wrapBits (r.wr reg) + 1
      · have hall : (r.ar reg).toNat % 2 ^ i = 2 ^ i - 1 := by
          refine mod_ones (wrapBits (r.wr reg)) (by omega) ?_
          omega
        have hbit := getLsbD_increment (i := i) (by omega) ((r.ar reg).setWidth 32)
        rw [toNat_ar, hall, decide_eq_true rfl] at hbit
        simp only [hi, decide_true, Bool.true_and]
        exact hbit
      · simp only [hi, decide_false, Bool.false_and]
    have hle := Nat.mod_le (((r.ar reg).setWidth 32 + 1#32) ^^^ (r.ar reg).setWidth 32).toNat
      (2 ^ (wrapBits (r.wr reg) + 1))
    rw [hlow, Nat.pow_succ] at hle
    omega
  · refine iff_of_false ?_ hcarry
    have hsmall : (((r.ar reg).setWidth 32 + 1#32) ^^^ (r.ar reg).setWidth 32).toNat <
        2 ^ wrapBits (r.wr reg) := by
      refine Nat.lt_pow_two_of_testBit _ fun i hi => ?_
      by_cases h32 : i < 32
      · have hbit := getLsbD_increment h32 ((r.ar reg).setWidth 32)
        rw [toNat_ar] at hbit
        refine hbit.trans (decide_eq_false fun hones => hcarry ?_)
        have hlow := mod_ones _ hi hones
        omega
      · exact BitVec.getLsbD_of_ge _ _ (by omega)
    omega

theorem increment_eq_increase : r.incrementAddressRegister reg = r.increaseAddressRegister reg 1#16 := by
  have hone : (1#16 : BitVec 16).signExtend 32 = 1#32 := by decide
  have hpos : 0 ≤ (1#32 : BitVec 32).toInt := by decide
  have hbits := wrapBits_le (r.wr reg)
  have hlog : 1 < 2 ^ wrapBits (r.wr reg) := Nat.one_lt_two_pow (Nat.succ_ne_zero _)
  have hmod_one : (1#32).toNat % 2 ^ wrapBits (r.wr reg) = 1 := Nat.mod_eq_of_lt hlog
  have hcarry : ((r.ar reg).setWidth 32 + 1#32 ^^^ (r.ar reg).setWidth 32 ^^^ 1#32) &&&
      (((r.wr reg).setWidth 32 ||| 1#32) <<< 1) > (r.wr reg).setWidth 32 ↔
        2 ^ wrapBits (r.wr reg) ≤ (r.ar reg).toNat % 2 ^ wrapBits (r.wr reg) + 1 := by
    rw [masked_gt_iff, getLsbD_add_xor_xor (by omega), decide_eq_true_eq, toNat_ar, hmod_one]
  simp only [incrementAddressRegister, increaseAddressRegister, hone, if_pos hpos, hcarry,
    increment_gt_iff]

theorem decrement_eq_decrease : r.decrementAddressRegister reg = r.decreaseAddressRegister reg 1#16 := by
  have hone : (1#16 : BitVec 16).signExtend 32 = 1#32 := by decide
  have hleast : ¬1#32 > 0xFFFF8000#32 := by decide
  have hbits := wrapBits_le (r.wr reg)
  have hlog : 1 < 2 ^ wrapBits (r.wr reg) := Nat.one_lt_two_pow (Nat.succ_ne_zero _)
  have hmod_one : (1#32).toNat % 2 ^ wrapBits (r.wr reg) = 1 := Nat.mod_eq_of_lt hlog
  have hlt := lt_two_pow_wrapBits (r.wr reg)
  have hdvd := two_pow_wrapBits_dvd (r.wr reg)
  obtain ⟨c, a, hca, hmod, ha, hblk, hend⟩ := exists_block (r.ar reg) (r.wr reg)
  have hcarry : ((r.ar reg).setWidth 32 + (r.wr reg).setWidth 32 ^^^ (r.ar reg).setWidth 32) &&&
      (((r.wr reg).setWidth 32 ||| 1#32) <<< 1) > (r.wr reg).setWidth 32 ↔
        2 ^ wrapBits (r.wr reg) ≤ a + (r.wr reg).toNat := by
    rw [masked_gt_iff, getLsbD_add_xor (by omega) _ (by rw [toNat_wr]; exact hlt.le), decide_eq_true_eq,
      toNat_ar, toNat_wr, hmod]
  have hunder := under_iff ((r.ar reg).setWidth 32 - 1#32)
    ((r.ar reg).setWidth 32 - 1#32 ^^^ (r.ar reg).setWidth 32 ^^^ ~~~1#32)
    hca hblk (s := -1) ?_ ?_
  · simp only [decrementAddressRegister, decreaseAddressRegister, hone, if_neg hleast, hcarry, hunder]
    by_cases hover : 2 ^ wrapBits (r.wr reg) ≤ a + (r.wr reg).toNat
    · rw [if_pos hover, if_neg (by omega)]
      congr 1
      bv_omega
    · rw [if_neg hover, if_pos (by omega)]
      congr 1
      bv_omega
  · intro hstay
    have hval : ((r.ar reg).setWidth 32 - 1#32).toNat =
        2 ^ wrapBits (r.wr reg) * ((r.ar reg).toNat / 2 ^ wrapBits (r.wr reg)) + (a - 1) := by
      have hdiv := Nat.div_add_mod (r.ar reg).toNat (2 ^ wrapBits (r.wr reg))
      have har := (r.ar reg).isLt
      rw [BitVec.toNat_sub, toNat_ar, BitVec.toNat_ofNat]
      omega
    rw [hval, Nat.mul_add_mod, Nat.mod_eq_of_lt (by omega)]
    omega
  · rw [getLsbD_sub_xor_xor (by omega), toNat_ar, hmod, decide_eq_decide, hmod_one]
    omega

theorem wrapLow_of_mem {ar ar' wr : BitVec 16} (hlow : wrapLow ar wr ≤ ar'.toNat)
    (hhigh : ar'.toNat ≤ wrapLow ar wr + wr.toNat) : wrapLow ar' wr = wrapLow ar wr := by
  have hpos := Nat.two_pow_pos (wrapBits wr)
  have hlt := lt_two_pow_wrapBits wr
  have heq := wrapLow_eq ar wr
  have heq' := wrapLow_eq ar' wr
  have hdiv : ar'.toNat / 2 ^ wrapBits wr = ar.toNat / 2 ^ wrapBits wr := by
    refine Nat.div_eq_of_lt_le ?_ ?_
    · rw [Nat.mul_comm]
      omega
    · rw [Nat.succ_mul, Nat.mul_comm]
      omega
  rw [hdiv] at heq'
  omega

/-! ## The buffer -/

theorem setAr_ar (value : BitVec 16) : (r.setAr reg value).ar reg = value := by
  simp only [setAr, Function.update_self]

theorem setAr_wr (value : BitVec 16) : (r.setAr reg value).wr = r.wr :=
  rfl

end

/-- The address register is in the buffer of its wrapping register. -/
def InBuffer (r : AddressRegisters) (reg : Fin 4) : Prop :=
  wrapLow (r.ar reg) (r.wr reg) ≤ (r.ar reg).toNat

instance (r : AddressRegisters) (reg : Fin 4) : Decidable (r.InBuffer reg) :=
  inferInstanceAs (Decidable (_ ≤ _))

/-- The address `ix` words further in the buffer. -/
def stepped (r : AddressRegisters) (reg : Fin 4) (ix : ℤ) : ℤ :=
  wrapLow (r.ar reg) (r.wr reg) +
    ((r.ar reg).toNat - wrapLow (r.ar reg) (r.wr reg) + ix) % ((r.wr reg).toNat + 1)

variable {r : AddressRegisters} {reg : Fin 4}

theorem stepped_bounds (ix : ℤ) : (wrapLow (r.ar reg) (r.wr reg) : ℤ) ≤ r.stepped reg ix ∧
    r.stepped reg ix ≤ wrapLow (r.ar reg) (r.wr reg) + (r.wr reg).toNat := by
  have hpos : (0 : ℤ) < (r.wr reg).toNat + 1 := by omega
  have hlow := Int.emod_nonneg ((r.ar reg).toNat - wrapLow (r.ar reg) (r.wr reg) + ix) hpos.ne'
  have hhigh := Int.emod_lt_of_pos ((r.ar reg).toNat - wrapLow (r.ar reg) (r.wr reg) + ix) hpos
  rw [stepped]
  omega

theorem setAr_stepped {value : BitVec 16} {ix : ℤ} (h : (value.toNat : ℤ) = r.stepped reg ix) :
    (r.setAr reg value).InBuffer reg ∧
      wrapLow ((r.setAr reg value).ar reg) ((r.setAr reg value).wr reg) = wrapLow (r.ar reg) (r.wr reg) := by
  obtain ⟨hlow, hhigh⟩ := @stepped_bounds r reg ix
  have hsame : wrapLow value (r.wr reg) = wrapLow (r.ar reg) (r.wr reg) :=
    wrapLow_of_mem (by omega) (by omega)
  rw [InBuffer, setAr_ar, setAr_wr, hsame]
  omega

theorem stepped_setAr {value : BitVec 16} {ix : ℤ} (h : (value.toNat : ℤ) = r.stepped reg ix) (ix' : ℤ) :
    (r.setAr reg value).stepped reg ix' = r.stepped reg (ix + ix') := by
  have hcancel : ∀ low x : ℤ, low + x - low = x := fun low x => by omega
  rw [stepped, (setAr_stepped h).2, setAr_ar, setAr_wr, h, stepped, stepped, hcancel,
    Int.emod_add_emod, Int.add_assoc]

theorem stepped_zero (hbuffer : r.InBuffer reg) : r.stepped reg 0 = (r.ar reg).toNat := by
  have hwl := wrapLow_eq (r.ar reg) (r.wr reg)
  obtain ⟨c, a, hca, -, ha, hblk, -⟩ := exists_block (r.ar reg) (r.wr reg)
  rw [InBuffer] at hbuffer
  rw [stepped, Int.emod_eq_of_lt (by omega) (by omega)]
  omega

theorem one_ne_block : (1#16 : BitVec 16).toInt ≠ (wrapMask (r.wr reg) : ℤ) + 1 := by
  have hlog : 1 < 2 ^ wrapBits (r.wr reg) := Nat.one_lt_two_pow (Nat.succ_ne_zero _)
  have hone : (1#16 : BitVec 16).toInt = 1 := by decide
  rw [hone, wrapMask]
  omega

theorem increment_eq (hbuffer : r.InBuffer reg) :
    ((r.incrementAddressRegister reg).toNat : ℤ) = r.stepped reg 1 := by
  have hone : (1#16 : BitVec 16).toInt = 1 := by decide
  rw [increment_eq_increase, increase_eq hbuffer (by rw [hone]; omega) one_ne_block, hone, stepped]

theorem decrement_eq (hbuffer : r.InBuffer reg) :
    ((r.decrementAddressRegister reg).toNat : ℤ) = r.stepped reg (-1) := by
  have hone : (1#16 : BitVec 16).toInt = 1 := by decide
  rw [decrement_eq_decrease, decrease_eq hbuffer (by rw [hone]; omega) one_ne_block (by decide), hone,
    stepped]

theorem decrement_increment (hbuffer : r.InBuffer reg) :
    (r.setAr reg (r.incrementAddressRegister reg)).decrementAddressRegister reg = r.ar reg := by
  have hstep := increment_eq hbuffer
  refine BitVec.eq_of_toNat_eq (Int.ofNat.inj ?_)
  exact (decrement_eq (setAr_stepped hstep).1).trans
    ((stepped_setAr hstep (-1)).trans (stepped_zero hbuffer))

theorem increment_decrement (hbuffer : r.InBuffer reg) :
    (r.setAr reg (r.decrementAddressRegister reg)).incrementAddressRegister reg = r.ar reg := by
  have hstep := decrement_eq hbuffer
  refine BitVec.eq_of_toNat_eq (Int.ofNat.inj ?_)
  exact (increment_eq (setAr_stepped hstep).1).trans
    ((stepped_setAr hstep 1).trans (stepped_zero hbuffer))

/-- **Circular addressing**: the buffer of an address register is the last `wr + 1` words of its block,
and steps of at most its length go round in it, but for the step of a whole block and, when decreasing
in a buffer that is not all words, the least step. -/
theorem circular_addressing (r : AddressRegisters) (reg : Fin 4) (hbuffer : r.InBuffer reg) :
    (∀ ix : BitVec 16, ix.toInt.natAbs ≤ (r.wr reg).toNat + 1 → ix.toInt ≠ wrapMask (r.wr reg) + 1 →
      ((r.increaseAddressRegister reg ix).toNat : ℤ) = r.stepped reg ix.toInt ∧
        (ix.toInt ≠ -0x8000 ∨ r.wr reg = 0xFFFF →
          ((r.decreaseAddressRegister reg ix).toNat : ℤ) = r.stepped reg (-ix.toInt))) ∧
      r.incrementAddressRegister reg = r.increaseAddressRegister reg 1#16 ∧
      r.decrementAddressRegister reg = r.decreaseAddressRegister reg 1#16 ∧
      (r.setAr reg (r.incrementAddressRegister reg)).decrementAddressRegister reg = r.ar reg ∧
      (r.setAr reg (r.decrementAddressRegister reg)).incrementAddressRegister reg = r.ar reg :=
  ⟨fun _ hstep hblock => ⟨increase_eq hbuffer hstep hblock,
    fun h => h.elim (decrease_eq hbuffer hstep hblock) decrease_full⟩,
    increment_eq_increase, decrement_eq_decrease, decrement_increment hbuffer, increment_decrement hbuffer⟩

/-- The buffer of five words at 3 to 7, left at its end. -/
def fiveWords : AddressRegisters where
  ar := fun _ => 7
  wr := fun _ => 4

theorem circular_addressing_fiveWords :
    (∀ ix : BitVec 16, ix.toInt.natAbs ≤ (fiveWords.wr 0).toNat + 1 →
      ix.toInt ≠ wrapMask (fiveWords.wr 0) + 1 →
        ((fiveWords.increaseAddressRegister 0 ix).toNat : ℤ) = fiveWords.stepped 0 ix.toInt ∧
          (ix.toInt ≠ -0x8000 ∨ fiveWords.wr 0 = 0xFFFF →
            ((fiveWords.decreaseAddressRegister 0 ix).toNat : ℤ) = fiveWords.stepped 0 (-ix.toInt))) ∧
      fiveWords.incrementAddressRegister 0 = fiveWords.increaseAddressRegister 0 1#16 ∧
      fiveWords.decrementAddressRegister 0 = fiveWords.decreaseAddressRegister 0 1#16 ∧
      (fiveWords.setAr 0 (fiveWords.incrementAddressRegister 0)).decrementAddressRegister 0 =
        fiveWords.ar 0 ∧
      (fiveWords.setAr 0 (fiveWords.decrementAddressRegister 0)).incrementAddressRegister 0 =
        fiveWords.ar 0 :=
  circular_addressing fiveWords 0 (by decide)

/-- The buffer does not start where its block does. -/
theorem buffer_not_at_block_start :
    ¬∀ (r : AddressRegisters) (reg : Fin 4) (ix : BitVec 16) (m : ℕ),
      IsLeast {m | (∃ n, m = 2 ^ n - 1) ∧ (r.wr reg).toNat ≤ m} m →
      (r.ar reg).toNat % (m + 1) ≤ (r.wr reg).toNat → ix.toInt.natAbs ≤ (r.wr reg).toNat + 1 →
      ((r.increaseAddressRegister reg ix).toNat : ℤ) =
        (((r.ar reg).toNat - (r.ar reg).toNat % (m + 1) : ℕ) +
          (((r.ar reg).toNat % (m + 1) : ℕ) + ix.toInt) % ((r.wr reg).toNat + 1)) % 2 ^ 16 := by
  intro h
  have hstep := h ⟨fun _ => 2, fun _ => 2⟩ 0 1 3 ⟨⟨⟨2, rfl⟩, by decide⟩, ?_⟩ (by decide) (by decide)
  · revert hstep
    decide
  · rintro _ ⟨⟨n, rfl⟩, hn⟩
    have htwo : 2 ≤ 2 ^ n - 1 := hn
    rcases n with _ | _ | n
    · omega
    · omega
    · have hpos := Nat.two_pow_pos n
      rw [Nat.pow_succ, Nat.pow_succ]
      omega

end AddressRegisters

end DSP
