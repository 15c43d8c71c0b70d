import PrimedSteam.PowerPC.Arithmetic
import PrimedSteam.PowerPC.DivUtils

/-!
# Divisions by constants

What the instructions that `Jit64` emits for `divwx` and `divwux` by a constant leave in rD, against the
quotient.

* `divwxSequence`, `divwuxSequence`: the instructions, on registers of 64 bits.
* `divwux_exact`: the unsigned quotient.
* `divwx_exact_iff`: the signed quotient, by the divisors for which it is right.
* **`division_exact_iff`**: both, and that the search for the signed constants ends without a wrap.
-/

set_option autoImplicit false

namespace PowerPC

open JitCommon ReciprocalDivision

/-! ## The instructions -/

/-- The lower half of a register. -/
def lo (x : BitVec 64) : BitVec 32 := x.setWidth 32

/-- `divwx` by a constant other than 0, 1, -1 and the powers of two. `rscratch` and `rd` are the
registers; the instructions of 32 bits work on their lower halves. -/
def divwxSequence (divisor : BitVec 32) (m : SignedMagic) (ra : BitVec 32) : BitVec 32 :=
  let rscratch := ra.signExtend 64
  let product := rscratch * m.multiplier.signExtend 64
  if 0 < divisor.toInt ∧ m.multiplier.toInt < 0 then
    let rd := lo (product >>> 32)
    let rd := rd + lo rscratch
    let rscratch := lo rscratch >>> 31
    let rd := rd.sshiftRight m.shift
    rd + rscratch
  else if divisor.toInt < 0 ∧ 0 < m.multiplier.toInt then
    -- it is the dividend that is shifted, not the product
    let rd := lo product
    let rscratch := lo (rscratch >>> 32)
    let rscratch := rscratch - rd
    let rd := rscratch >>> 31
    let rscratch := rscratch.sshiftRight m.shift
    rd + rscratch
  else if 0 < m.multiplier.toInt then
    let rscratch := lo rscratch >>> 31
    let rd := lo (product.sshiftRight (32 + m.shift))
    rd + rscratch
  else
    let rscratch := lo (product >>> 63)
    let rd := lo (product.sshiftRight (32 + m.shift))
    rd + rscratch

/-- `divwx` by such a constant, with the constants that the JIT looks for. -/
def divwxConstant (divisor ra : BitVec 32) : Option (BitVec 32) :=
  (signedDivisionConstants divisor).map fun m => divwxSequence divisor m ra

/-- `divwux` by a constant other than 0 and the powers of two. -/
def divwuxSequence (m : UnsignedMagic) (ra : BitVec 32) : BitVec 32 :=
  let rd := ra.setWidth 64
  let rscratch := m.multiplier.setWidth 64
  if !m.fast then lo ((rd * rscratch + rscratch) >>> (m.shift + 32))
  else if m.multiplier &&& 0x80000000 = 0 then
    -- the immediate is sign extended
    lo ((rd * m.multiplier.signExtend 64) >>> (m.shift + 32))
  else lo ((rd * rscratch) >>> (m.shift + 32))

def divwuxConstant (divisor ra : BitVec 32) : BitVec 32 :=
  divwuxSequence (unsignedDivisionConstants divisor) ra

/-! ## Unsigned -/

section Unsigned

variable {divisor ra : BitVec 32}

theorem signExtend_of_and_eq_zero {x : BitVec 32} (h : x &&& 0x80000000 = 0) :
    x.signExtend 64 = x.setWidth 64 := by
  refine BitVec.signExtend_eq_setWidth_of_msb_false ?_
  have hbit : (x &&& 0x80000000).getLsbD 31 = false := by
    rw [h]
    rfl
  rw [BitVec.getLsbD_and] at hbit
  rw [BitVec.msb_eq_getLsbD_last]
  simpa using hbit

theorem lo_ushiftRight {x : BitVec 64} {v q : ℕ} (shift : ℕ) (hx : x.toNat = v)
    (hq : v / 2 ^ shift = q) : lo (x >>> shift) = BitVec.ofNat 32 q := by
  apply BitVec.eq_of_toNat_eq
  rw [lo, BitVec.toNat_setWidth, BitVec.toNat_ushiftRight, hx, Nat.shiftRight_eq_div_pow, hq,
    BitVec.toNat_ofNat]

/-- **`divwux` by a constant** is exact. -/
theorem divwux_exact (h : UnsignedPath divisor) (ra : BitVec 32) :
    divwuxConstant divisor ra = ra / divisor := by
  have hrecip := h.reciprocal_lt
  have hvalue : BitVec.ofNat 32 (ra.toNat / divisor.toNat) = ra / divisor := by
    apply BitVec.eq_of_toNat_eq
    rw [BitVec.toNat_ofNat, BitVec.toNat_udiv]
    exact Nat.mod_eq_of_lt ((Nat.div_le_self _ _).trans_lt ra.isLt)
  rw [← hvalue]
  rcases unsignedDivisionConstants_spec h with
    ⟨hlast, multiplier, shift, trailing, hmagic, hmul, hshift⟩ | ⟨hlast, hmagic⟩
  · -- the trailing zeroes of the multiplier are taken off the shift
    have hquot := h.mul_reciprocal_succ ra.isLt (h.last_iff.mp hlast)
    have hpow : 2 ^ unsignedExponent divisor = 2 ^ (shift + 32) * 2 ^ trailing := by
      rw [← pow_add, unsignedExponent]
      congr 1
      omega
    rw [← hmul, hpow, ← mul_assoc, Nat.mul_div_mul_right _ _ (by positivity)] at hquot
    have hlt : multiplier < 2 ^ 32 := by
      have hle : multiplier * 1 ≤ multiplier * 2 ^ trailing :=
        Nat.mul_le_mul_left _ Nat.one_le_two_pow
      omega
    have hproduct : (ra.setWidth 64 * (BitVec.ofNat 32 multiplier).setWidth 64).toNat =
        ra.toNat * multiplier := by
      have hprod : ra.toNat * multiplier < 2 ^ 32 * 2 ^ 32 := Nat.mul_lt_mul'' ra.isLt hlt
      rw [BitVec.toNat_mul, BitVec.toNat_setWidth, BitVec.toNat_setWidth, BitVec.toNat_ofNat,
        Nat.mod_eq_of_lt hlt, Nat.mod_eq_of_lt (hlt.trans (by decide)),
        Nat.mod_eq_of_lt (ra.isLt.trans (by decide)), Nat.mod_eq_of_lt (hprod.trans_le (by decide))]
    have hresult := lo_ushiftRight (shift + 32) hproduct hquot
    rw [divwuxConstant, hmagic, divwuxSequence]
    dsimp only
    rw [Bool.not_true, if_neg Bool.false_ne_true]
    split
    · next hbit => rw [signExtend_of_and_eq_zero hbit, hresult]
    · exact hresult
  · have hquot := h.succ_mul_reciprocal ra.isLt (mt h.last_iff.mpr hlast)
    have hsum : (ra.setWidth 64 * (BitVec.ofNat 32 (reciprocal divisor)).setWidth 64 +
        (BitVec.ofNat 32 (reciprocal divisor)).setWidth 64).toNat =
        (ra.toNat + 1) * reciprocal divisor := by
      have hlt : reciprocal divisor < 2 ^ 32 := Nat.lt_of_succ_lt hrecip
      have hprod : (ra.toNat + 1) * reciprocal divisor < 2 ^ 32 * 2 ^ 32 :=
        Nat.mul_lt_mul_of_le_of_lt ra.isLt hlt (by decide)
      rw [BitVec.toNat_add, BitVec.toNat_mul, BitVec.toNat_setWidth, BitVec.toNat_setWidth,
        BitVec.toNat_ofNat, Nat.mod_eq_of_lt hlt, Nat.mod_eq_of_lt (hlt.trans (by decide)),
        Nat.mod_eq_of_lt (ra.isLt.trans (by decide)), Nat.mod_add_mod, ← Nat.succ_mul]
      exact Nat.mod_eq_of_lt (hprod.trans_le (by decide))
    rw [divwuxConstant, hmagic, divwuxSequence]
    dsimp only
    rw [Bool.not_false, if_pos rfl, Nat.add_comm (unsignedBits divisor)]
    exact lo_ushiftRight _ hsum hquot

end Unsigned

/-! ## Signed -/

section Registers

theorem lo_eq_ofInt (x : BitVec 64) : lo x = BitVec.ofInt 32 x.toInt :=
  (BitVec.signExtend_eq_setWidth_of_le x (by decide)).symm

theorem lo_sshiftRight (x : BitVec 64) (shift : ℕ) :
    lo (x.sshiftRight shift) = BitVec.ofInt 32 (x.toInt / 2 ^ shift) := by
  rw [lo_eq_ofInt, BitVec.toInt_sshiftRight, Int.shiftRight_eq_div_pow]
  norm_cast

theorem lo_signExtend (x : BitVec 32) : lo (x.signExtend 64) = x := setWidth_signExtend x

theorem sshiftRight_ofInt {z : ℤ} (hz : -2 ^ 31 ≤ z ∧ z < 2 ^ 31) (shift : ℕ) :
    (BitVec.ofInt 32 z).sshiftRight shift = BitVec.ofInt 32 (z / 2 ^ shift) := by
  have hvalue : ((BitVec.ofInt 32 z).sshiftRight shift).toInt = z / 2 ^ shift := by
    rw [BitVec.toInt_sshiftRight, BitVec.toInt_ofInt_eq_self (by decide) hz.1 hz.2,
      Int.shiftRight_eq_div_pow]
    norm_cast
  rw [← hvalue, BitVec.ofInt_toInt]

theorem sign_bit (x : BitVec 32) : x >>> 31 = BitVec.ofInt 32 (if x.toInt < 0 then 1 else 0) := by
  have hlt := x.isLt
  apply BitVec.eq_of_toNat_eq
  rw [BitVec.toNat_ushiftRight, Nat.shiftRight_eq_div_pow]
  by_cases hneg : x.toInt < 0
  · rw [if_pos hneg]
    rw [BitVec.toInt_eq_toNat_cond] at hneg
    change x.toNat / 2 ^ 31 = 1
    omega
  · rw [if_neg hneg]
    rw [BitVec.toInt_eq_toNat_cond] at hneg
    change x.toNat / 2 ^ 31 = 0
    omega

theorem lo_sign_bit (x : BitVec 64) :
    lo (x >>> 63) = BitVec.ofInt 32 (if x.toInt < 0 then 1 else 0) := by
  have hlt := x.isLt
  apply BitVec.eq_of_toNat_eq
  rw [lo, BitVec.toNat_setWidth, BitVec.toNat_ushiftRight, Nat.shiftRight_eq_div_pow]
  by_cases hneg : x.toInt < 0
  · rw [if_pos hneg]
    rw [BitVec.toInt_eq_toNat_cond] at hneg
    change x.toNat / 2 ^ 63 % 2 ^ 32 = 1
    omega
  · rw [if_neg hneg]
    rw [BitVec.toInt_eq_toNat_cond] at hneg
    change x.toNat / 2 ^ 63 % 2 ^ 32 = 0
    omega

theorem toInt_product (a b : BitVec 32) :
    (a.signExtend 64 * b.signExtend 64).toInt = a.toInt * b.toInt := by
  have ha : |a.toInt| ≤ 2 ^ 31 := abs_le.mpr ⟨BitVec.le_toInt a, (BitVec.toInt_lt (x := a)).le⟩
  have hb : |b.toInt| ≤ 2 ^ 31 := abs_le.mpr ⟨BitVec.le_toInt b, (BitVec.toInt_lt (x := b)).le⟩
  have hprod : |a.toInt * b.toInt| ≤ 2 ^ 31 * 2 ^ 31 := by
    rw [abs_mul]
    exact mul_le_mul ha hb (abs_nonneg _) (by decide)
  have hbounds := abs_le.mp hprod
  rw [BitVec.toInt_mul, BitVec.toInt_signExtend_of_le (by decide),
    BitVec.toInt_signExtend_of_le (by decide)]
  exact Int.bmod_eq_of_le (by omega) (by omega)

variable {M : ℕ}

theorem toInt_ofNat_small (hM : M < 2 ^ 31) : (BitVec.ofNat 32 M).toInt = M := by
  rw [BitVec.toInt_eq_toNat_cond, BitVec.toNat_ofNat]
  omega

theorem toInt_ofNat_large (hM : 2 ^ 31 ≤ M) (hlt : M < 2 ^ 32) :
    (BitVec.ofNat 32 M).toInt = M - 2 ^ 32 := by
  rw [BitVec.toInt_eq_toNat_cond, BitVec.toNat_ofNat]
  omega

theorem toInt_neg_ofNat_small (hM : M < 2 ^ 31) : (-BitVec.ofNat 32 M).toInt = -M := by
  rw [BitVec.toInt_neg, toInt_ofNat_small hM]
  exact Int.bmod_eq_of_le (by omega) (by omega)

theorem toInt_neg_ofNat_large (hM : 2 ^ 31 < M) (hlt : M < 2 ^ 32) :
    (-BitVec.ofNat 32 M).toInt = 2 ^ 32 - M := by
  rw [BitVec.toInt_neg, toInt_ofNat_large hM.le hlt]
  rw [Int.bmod_eq_of_le (by omega) (by omega)]
  omega

end Registers

section Signed

variable {divisor ra : BitVec 32} {M p : ℕ}

theorem divwxSequence_pos (hd : 0 < divisor.toInt) (hpos : 0 < M) (hM : M < 2 ^ 31) (hp : 32 ≤ p) :
    divwxSequence divisor ⟨BitVec.ofNat 32 M, p - 32⟩ ra =
      BitVec.ofInt 32 (ra.toInt * M / 2 ^ p + if ra.toInt < 0 then 1 else 0) := by
  have hm := toInt_ofNat_small hM
  have hshift : 32 + (p - 32) = p := by omega
  unfold divwxSequence
  dsimp only
  rw [hm, if_neg (by omega), if_neg (by omega), if_pos (by omega), lo_sshiftRight, toInt_product, hm,
    hshift, lo_signExtend, sign_bit, BitVec.ofInt_add]

theorem divwxSequence_wide (hd : 0 < divisor.toInt) (hM : 2 ^ 31 ≤ M) (hlt : M < 2 ^ 32)
    (hp : 32 ≤ p) : divwxSequence divisor ⟨BitVec.ofNat 32 M, p - 32⟩ ra =
      BitVec.ofInt 32 (ra.toInt * M / 2 ^ p + if ra.toInt < 0 then 1 else 0) := by
  have hm := toInt_ofNat_large hM hlt
  have hhigh : ra.toInt * (M - 2 ^ 32) / 2 ^ 32 + ra.toInt = ra.toInt * M / 2 ^ 32 := by
    have hsplit : ra.toInt * (M - 2 ^ 32) = ra.toInt * M + -ra.toInt * 2 ^ 32 := by ring
    rw [hsplit, Int.add_mul_ediv_right _ _ (by decide)]
    omega
  have hbounds : -2 ^ 31 ≤ ra.toInt * M / 2 ^ 32 ∧ ra.toInt * M / 2 ^ 32 < 2 ^ 31 := by
    have hlow : -2 ^ 31 ≤ ra.toInt := BitVec.le_toInt ra
    have hhigh : ra.toInt ≤ 2 ^ 31 - 1 := Int.le_sub_one_of_lt BitVec.toInt_lt
    have hnonneg : (0 : ℤ) ≤ M := Int.natCast_nonneg M
    have hscaled := mul_le_mul_of_nonneg_right hlow hnonneg
    have hscaled' := mul_le_mul_of_nonneg_right hhigh hnonneg
    constructor
    · rw [Int.le_ediv_iff_mul_le (by decide)]
      omega
    · rw [Int.ediv_lt_iff_lt_mul (by decide)]
      omega
  have hpow : (2 : ℤ) ^ 32 * 2 ^ (p - 32) = 2 ^ p := by
    rw [← pow_add]
    congr 1
    omega
  unfold divwxSequence
  dsimp only
  rw [hm, if_pos ⟨hd, by omega⟩, lo, mulhw_value, ← lo, lo_sshiftRight, toInt_product, hm,
    lo_signExtend, sign_bit]
  nth_rewrite 2 [← BitVec.ofInt_toInt (x := ra)]
  rw [← BitVec.ofInt_add, hhigh, sshiftRight_ofInt hbounds, Int.ediv_ediv_of_nonneg (by decide), hpow,
    BitVec.ofInt_add]

theorem divwxSequence_neg (hd : divisor.toInt < 0) (hpos : 0 < M) (hM : M < 2 ^ 31) (hp : 32 ≤ p) :
    divwxSequence divisor ⟨-BitVec.ofNat 32 M, p - 32⟩ ra =
      BitVec.ofInt 32 (-ra.toInt * M / 2 ^ p + if -ra.toInt < 0 then 1 else 0) := by
  have hm := toInt_neg_ofNat_small hM
  have hshift : 32 + (p - 32) = p := by omega
  have hproduct : ra.toInt * -(M : ℤ) = -ra.toInt * M := by ring
  have hsign : (-ra.toInt * M < 0) = (-ra.toInt < 0) := by
    have hM' : (0 : ℤ) < M := by exact_mod_cast hpos
    exact propext ⟨fun hneg => neg_of_mul_neg_left hneg hM'.le,
      fun hneg => mul_neg_of_neg_of_pos hneg hM'⟩
  unfold divwxSequence
  dsimp only
  rw [hm, if_neg (by omega), if_neg (by omega), if_neg (by omega), lo_sshiftRight, toInt_product, hm,
    hshift, lo_sign_bit, toInt_product, hm, hproduct, BitVec.ofInt_add]
  simp only [hsign]

theorem quotient_eq (h : SignedPath divisor) {n : ℤ} (hn : -2 ^ 31 ≤ n ∧ n ≤ 2 ^ 31) (hp : 31 ≤ p)
    (hlarge : absNc divisor * Search.delta (absDivisor divisor) p < 2 ^ p)
    (htop : n = 2 ^ 31 → ¬ absDivisor divisor ∣ 2 ^ 31 + 1) :
    n * magicMultiplier divisor p / 2 ^ p + (if n < 0 then 1 else 0) =
      n.tdiv (absDivisor divisor) := by
  have hquot := signed_mul_div_eq (n := n) h.range.ad_pos (Nat.two_pow_pos p)
    (h.magicMultiplier_mul p) (h.delta_pos p)
    (fun hpos => h.error_lt (by omega) hlarge fun heq => htop (by omega))
    (fun hneg => h.error_le (by omega) hp hlarge)
  exact_mod_cast hquot

theorem toInt_range (ra : BitVec 32) : -2 ^ 31 ≤ ra.toInt ∧ ra.toInt < 2 ^ 31 :=
  ⟨BitVec.le_toInt ra, BitVec.toInt_lt⟩

/-- **`divwx` by a positive constant** is exact. -/
theorem divwx_exact_of_pos (h : SignedPath divisor) (hd : 0 < divisor.toInt) (ra : BitVec 32) :
    divwxConstant divisor ra = some (BitVec.ofInt 32 (ra.toInt.tdiv divisor.toInt)) := by
  obtain ⟨p, hp, -, hmagic, hlarge, hlt, -, -, -⟩ := signedDivisionConstants_spec h
  have hra := toInt_range ra
  have hquot := quotient_eq h ⟨hra.1, hra.2.le⟩ (by omega) hlarge fun heq => absurd heq hra.2.ne
  have habs : (absDivisor divisor : ℤ) = divisor.toInt := Int.natAbs_of_nonneg hd.le
  rw [habs] at hquot
  have hpos : 0 < magicMultiplier divisor p := Nat.succ_pos _
  rw [divwxConstant, hmagic, Option.map_some, if_neg (not_lt.mpr hd.le), ← hquot]
  rcases Nat.lt_or_ge (magicMultiplier divisor p) (2 ^ 31) with hsmall | hwide
  · rw [divwxSequence_pos hd hpos hsmall hp]
  · rw [divwxSequence_wide hd hwide hlt hp]

/-- **`divwx` by a negative constant** is exact where the multiplier has 31 bits, but for the dividend
0x80000000 if that is the last one before a multiple. -/
theorem divwx_exact_of_neg (h : SignedPath divisor) (hd : divisor.toInt < 0)
    (hbits : ¬ NeedsAllBits divisor) (ra : BitVec 32)
    (hdvd : ra.toInt = -2 ^ 31 → ¬ absDivisor divisor ∣ 2 ^ 31 + 1) :
    divwxConstant divisor ra = some (BitVec.ofInt 32 (ra.toInt.tdiv divisor.toInt)) := by
  obtain ⟨p, hp, -, hmagic, hlarge, -, -, hall, -⟩ := signedDivisionConstants_spec h
  have hra := toInt_range ra
  have hquot := quotient_eq (n := -ra.toInt) h (by omega) (by omega) hlarge fun heq =>
    hdvd (by omega)
  have habs : (absDivisor divisor : ℤ) = -divisor.toInt := Int.ofNat_natAbs_of_nonpos hd.le
  rw [habs, Int.tdiv_neg, Int.neg_tdiv, neg_neg] at hquot
  have hsmall : magicMultiplier divisor p < 2 ^ 31 := not_le.mp (mt hall.mp hbits)
  have hpos : 0 < magicMultiplier divisor p := Nat.succ_pos _
  rw [divwxConstant, hmagic, Option.map_some, if_pos hd, divwxSequence_neg hd hpos hsmall hp, hquot]

/-- A negative divisor, with a multiplier of 32 bits: for the dividend that is the magnitude of the
divisor, the sequence leaves what the multiplier is rounded up by, shifted. -/
theorem divwxSequence_wide_neg (h : SignedPath divisor) (hd : divisor.toInt < 0)
    (hM : 2 ^ 31 < magicMultiplier divisor p) (hlt : magicMultiplier divisor p < 2 ^ 32)
    (hp : 32 ≤ p) :
    divwxSequence divisor ⟨-BitVec.ofNat 32 (magicMultiplier divisor p), p - 32⟩
        (BitVec.ofNat 32 (absDivisor divisor)) =
      BitVec.ofInt 32 (Search.delta (absDivisor divisor) p / 2 ^ (p - 32)) := by
  have hm := toInt_neg_ofNat_large hM hlt
  have had := h.lt
  have hδ : Search.delta (absDivisor divisor) p < 2 ^ 31 := (Nat.sub_le _ _).trans_lt had
  have hhigh : lo ((BitVec.ofNat 32 (absDivisor divisor)).signExtend 64 >>> 32) = 0#32 := by
    have hmsb : (BitVec.ofNat 32 (absDivisor divisor)).msb = false := by
      rw [BitVec.msb_eq_toInt, toInt_ofNat_small had]
      exact decide_eq_false (by omega)
    apply BitVec.eq_of_toNat_eq
    rw [BitVec.signExtend_eq_setWidth_of_msb_false hmsb, lo, BitVec.toNat_setWidth,
      BitVec.toNat_ushiftRight, BitVec.toNat_setWidth, BitVec.toNat_ofNat, Nat.shiftRight_eq_div_pow]
    change _ = 0
    omega
  have hlow : 0#32 - lo ((BitVec.ofNat 32 (absDivisor divisor)).signExtend 64 *
      (-BitVec.ofNat 32 (magicMultiplier divisor p)).signExtend 64) =
      BitVec.ofInt 32 (Search.delta (absDivisor divisor) p) := by
    have hpow : 2 ^ p = 2 ^ 32 * 2 ^ (p - 32) := by
      rw [← pow_add]
      congr 1
      omega
    have hproduct : magicMultiplier divisor p * absDivisor divisor =
        Search.delta (absDivisor divisor) p + 2 ^ 32 * 2 ^ (p - 32) := by
      rw [h.magicMultiplier_mul, hpow, Nat.add_comm]
    have hlo : ∀ x y : BitVec 64, lo (x * y) = lo x * lo y := fun x y =>
      BitVec.setWidth_mul x y (by decide)
    rw [hlo, lo_signExtend, lo_signExtend, BitVec.mul_neg, BitVec.zero_sub, BitVec.neg_neg,
      BitVec.mul_comm, ← BitVec.ofNat_mul, hproduct, BitVec.ofInt_natCast]
    apply BitVec.eq_of_toNat_eq
    rw [BitVec.toNat_ofNat, BitVec.toNat_ofNat, Nat.add_mul_mod_self_left]
  have hvalue := BitVec.toInt_ofInt_eq_self (w := 32) (n := Search.delta (absDivisor divisor) p)
    (by decide) (by omega) (by omega)
  unfold divwxSequence
  dsimp only
  rw [hm, if_neg (by omega), if_pos ⟨hd, by omega⟩, hhigh, hlow, sign_bit, hvalue, if_neg (by omega),
    sshiftRight_ofInt ⟨by omega, by omega⟩, ← BitVec.ofInt_add, zero_add]

theorem not_exact_of_needsAllBits (h : SignedPath divisor) (hd : divisor.toInt < 0)
    (hbits : NeedsAllBits divisor) : divwxConstant divisor (BitVec.ofNat 32 (absDivisor divisor)) ≠
      some (BitVec.ofInt 32 ((BitVec.ofNat 32 (absDivisor divisor)).toInt.tdiv divisor.toInt)) := by
  obtain ⟨p, hp, -, hmagic, -, hlt, hne, hall, -⟩ := signedDivisionConstants_spec h
  have hwide : 2 ^ 31 < magicMultiplier divisor p := lt_of_le_of_ne (hall.mpr hbits) hne.symm
  have had := h.lt
  have habs : (absDivisor divisor : ℤ) = -divisor.toInt := Int.ofNat_natAbs_of_nonpos hd.le
  have hquot : (absDivisor divisor : ℤ).tdiv divisor.toInt = -1 := by
    rw [habs, Int.neg_tdiv, Int.tdiv_self hd.ne]
  have hδ : Search.delta (absDivisor divisor) p < 2 ^ 31 := (Nat.sub_le _ _).trans_lt had
  have hshifted : Search.delta (absDivisor divisor) p / 2 ^ (p - 32) < 2 ^ 31 :=
    (Nat.div_le_self _ _).trans_lt hδ
  rw [divwxConstant, hmagic, Option.map_some, if_pos hd,
    divwxSequence_wide_neg h hd hwide hlt hp, toInt_ofNat_small had, hquot]
  intro heq
  have hvalues := congrArg BitVec.toInt (Option.some_injective _ heq)
  have hnonneg : (0 : ℤ) ≤ Search.delta (absDivisor divisor) p / 2 ^ (p - 32) := by positivity
  rw [BitVec.toInt_ofInt_eq_self (by decide) (le_trans (by decide) hnonneg)
    (by exact_mod_cast hshifted)] at hvalues
  rw [hvalues] at hnonneg
  exact absurd hnonneg (by decide)

theorem not_exact_of_dvd (h : SignedPath divisor) (hd : divisor.toInt < 0)
    (hdvd : absDivisor divisor ∣ 2 ^ 31 + 1) : divwxConstant divisor 0x80000000 ≠
      some (BitVec.ofInt 32 ((0x80000000 : BitVec 32).toInt.tdiv divisor.toInt)) := by
  obtain ⟨p, hp, -, hmagic, -, -, -, -, hfirst⟩ := signedDivisionConstants_spec h
  obtain ⟨c, hc⟩ := hdvd
  have habs : (absDivisor divisor : ℤ) = -divisor.toInt := Int.ofNat_natAbs_of_nonpos hd.le
  have htwo := h.1
  have hthree : 3 ≤ absDivisor divisor := by
    by_contra hlt
    have heq : absDivisor divisor = 2 := by omega
    rw [heq] at hc
    omega
  have hcpos : 0 < c := by
    by_contra hzero
    rw [Nat.eq_zero_of_not_pos hzero] at hc
    omega
  have hthird : 3 * c ≤ 2 ^ 31 + 1 := hc ▸ Nat.mul_le_mul_right c hthree
  -- 2^32 is two below a multiple of the divisor
  have hpow : 2 ^ 32 = (absDivisor divisor - 2) + absDivisor divisor * (2 * c - 1) := by
    rw [Nat.mul_sub, mul_one, Nat.mul_left_comm, ← hc]
    have hle : absDivisor divisor * 1 ≤ absDivisor divisor * c := Nat.mul_le_mul_left _ hcpos
    omega
  have hmod : 2 ^ 32 % absDivisor divisor = absDivisor divisor - 2 := by
    rw [hpow, Nat.add_mul_mod_self_left, Nat.mod_eq_of_lt (by omega)]
  have hdiv : 2 ^ 32 / absDivisor divisor = 2 * c - 1 := by
    rw [hpow, Nat.add_mul_div_left _ _ h.range.ad_pos, Nat.div_eq_of_lt (by omega), zero_add]
  have hδ : Search.delta (absDivisor divisor) 32 = 2 := by
    unfold Search.delta
    omega
  have hp32 : p = 32 := by
    by_contra hne
    have hsmall := hfirst 32 le_rfl (by omega)
    have hanc := h.range.anc_lt
    rw [hδ] at hsmall
    omega
  have hM : magicMultiplier divisor 32 = 2 * c := by
    unfold magicMultiplier
    omega
  have hquot : (0x80000000 : BitVec 32).toInt.tdiv divisor.toInt = c - 1 := by
    have htop : (0x80000000 : BitVec 32).toInt = -(2 ^ 31 : ℕ) := by decide
    have hvalue : 2 ^ 31 / absDivisor divisor = c - 1 := by
      have hsplit : 2 ^ 31 = (absDivisor divisor - 1) + absDivisor divisor * (c - 1) := by
        rw [Nat.mul_sub, mul_one, ← hc]
        have hle : absDivisor divisor * 1 ≤ absDivisor divisor * c := Nat.mul_le_mul_left _ hcpos
        omega
      rw [hsplit, Nat.add_mul_div_left _ _ h.range.ad_pos, Nat.div_eq_of_lt (by omega), zero_add]
    rw [htop, Int.neg_tdiv, ← Int.tdiv_neg, ← habs, ← Int.ofNat_tdiv, hvalue]
    omega
  have hresult : divwxSequence divisor ⟨-BitVec.ofNat 32 (2 * c), 0⟩ 0x80000000 = BitVec.ofInt 32 c := by
    have htop : (0x80000000 : BitVec 32).toInt = -2 ^ 31 := by decide
    have hseq := @divwxSequence_neg divisor 0x80000000 (2 * c) 32 hd
      (by omega) (by omega) le_rfl
    rw [htop] at hseq
    rw [hseq, if_neg (by decide), add_zero]
    congr 1
    omega
  rw [divwxConstant, hmagic, Option.map_some, if_pos hd, hp32, hM, hresult, hquot]
  intro heq
  have hvalues := congrArg BitVec.toInt (Option.some_injective _ heq)
  rw [BitVec.toInt_ofInt_eq_self (by decide) (by omega) (by omega),
    BitVec.toInt_ofInt_eq_self (by decide) (by omega) (by omega)] at hvalues
  omega

/-- **`divwx` by a constant** is exact for the positive divisors, and for those negative ones with a
multiplier of 31 bits whose magnitude does not divide 0x80000001. -/
theorem divwx_exact_iff (h : SignedPath divisor) :
    (∀ ra, divwxConstant divisor ra = some (BitVec.ofInt 32 (ra.toInt.tdiv divisor.toInt))) ↔
      (divisor.toInt < 0 → ¬ absDivisor divisor ∣ 2 ^ 31 + 1 ∧ ¬ NeedsAllBits divisor) := by
  constructor
  · intro hexact hd
    exact ⟨fun hdvd => not_exact_of_dvd h hd hdvd (hexact _),
      fun hbits => not_exact_of_needsAllBits h hd hbits (hexact _)⟩
  · intro hcond ra
    rcases lt_or_ge divisor.toInt 0 with hd | hd
    · exact divwx_exact_of_neg h hd (hcond hd).2 ra fun _ => (hcond hd).1
    · have hne : divisor.toInt ≠ 0 := by
        have := h.1
        unfold absDivisor at this
        omega
      exact divwx_exact_of_pos h (lt_of_le_of_ne hd hne.symm) ra

end Signed

/-! ## Both divisions -/

/-- **Exactness of the divisions by constants.** The search for the signed constants ends without a wrap
for every divisor, and the unsigned quotients are right. The signed ones are right for a positive
divisor; for a negative one, if the multiplier fits into 31 bits and the magnitude does not divide
0x80000001. -/
theorem division_exact_iff (divisor : BitVec 32) :
    (SignedPath divisor → SearchEnds divisor ∧
      ((∀ ra, divwxConstant divisor ra = some (BitVec.ofInt 32 (ra.toInt.tdiv divisor.toInt))) ↔
        (divisor.toInt < 0 → ¬ absDivisor divisor ∣ 2 ^ 31 + 1 ∧ ¬ NeedsAllBits divisor))) ∧
    (UnsignedPath divisor → ∀ ra, divwuxConstant divisor ra = ra / divisor) :=
  ⟨fun h => ⟨h.searchEnds, divwx_exact_iff h⟩, fun h => divwux_exact h⟩

theorem ne_two_pow {a : ℕ} (k : ℕ) (hlow : 2 ^ k < a) (hhigh : a < 2 ^ (k + 1)) (j : ℕ) :
    a ≠ 2 ^ j := by
  intro heq
  rw [heq] at hlow hhigh
  have hkj := (Nat.pow_lt_pow_iff_right (by decide)).mp hlow
  have hjk := (Nat.pow_lt_pow_iff_right (by decide)).mp hhigh
  omega

theorem signedPath_minus_seven : SignedPath (-7) :=
  ⟨by decide, ne_two_pow 2 (by decide) (by decide)⟩

theorem signedPath_minus_three : SignedPath (-3) :=
  ⟨by decide, ne_two_pow 1 (by decide) (by decide)⟩

/-- The division of 7 by -7 shifts the dividend, and that of 0x80000000 by -3 is one too large. -/
theorem negative_divisions_wrong :
    (SignedPath (-7) ∧ divwxConstant (-7) 7 = some 1 ∧
      BitVec.ofInt 32 ((7 : BitVec 32).toInt.tdiv (-7 : BitVec 32).toInt) = -1) ∧
    SignedPath (-3) ∧ divwxConstant (-3) 0x80000000 = some 715827883 ∧
      BitVec.ofInt 32 ((0x80000000 : BitVec 32).toInt.tdiv (-3 : BitVec 32).toInt) = 715827882 := by
  refine ⟨⟨signedPath_minus_seven, ?_, ?_⟩, signedPath_minus_three, ?_, ?_⟩ <;> decide +kernel

theorem signedPath_minus_five : SignedPath (-5) :=
  ⟨by decide, ne_two_pow 2 (by decide) (by decide)⟩

theorem not_needsAllBits_minus_five : ¬ NeedsAllBits (-5) := by
  have hbits : bits (-5) = 2 := Nat.log_eq_of_pow_le_of_lt_pow (by decide) (by decide)
  rw [NeedsAllBits, hbits]
  decide

theorem division_exact_small : (∀ ra, divwuxConstant 7 ra = ra / 7) ∧
    (∀ ra, divwxConstant (-5) ra = some (BitVec.ofInt 32 (ra.toInt.tdiv (-5)))) ∧
    ¬ ∀ ra, divwxConstant (-3) ra = some (BitVec.ofInt 32 (ra.toInt.tdiv (-3))) :=
  ⟨(division_exact_iff 7).2 ⟨by decide, ne_two_pow 2 (by decide) (by decide)⟩,
    ((division_exact_iff (-5)).1 signedPath_minus_five).2.mpr
      fun _ => ⟨by decide, not_needsAllBits_minus_five⟩,
    mt ((division_exact_iff (-3)).1 signedPath_minus_three).2.mp
      fun hcond => (hcond (by decide)).1 (by decide)⟩

end PowerPC
