import PrimedSteam.Lib.ReciprocalDivision
import Mathlib.Data.Nat.Log
import Mathlib.Data.Nat.Prime.Basic
import Mathlib.Tactic.Positivity

/-!
# Constants for divisions

`SignedDivisionConstants` and `UnsignedDivisionConstants` compute the multiplier and the shift with
which the JIT replaces a division by a constant.

* `Search`: the loop that looks for the signed multiplier, in `u32` arithmetic.
* `SignedPath.searchEnds`: it stops at the first power of two that is large enough, and nothing wraps.
* `signedDivisionConstants_spec`, `unsignedDivisionConstants_spec`: what the constants are.
-/

set_option autoImplicit false

namespace JitCommon

open ReciprocalDivision

/-- The value of a `u32` computation. -/
def u32 (x : ℕ) : ℕ := x % 2 ^ 32

theorem u32_of_lt {x : ℕ} (h : x < 2 ^ 32) : u32 x = x := Nat.mod_eq_of_lt h

/-! ## Signed division -/

structure SignedMagic where
  multiplier : BitVec 32
  shift : ℕ

/-- The variables of the loop of `SignedDivisionConstants`. -/
@[ext] structure Search where
  p : ℕ
  q1 : ℕ
  r1 : ℕ
  q2 : ℕ
  r2 : ℕ

namespace Search

variable (ad anc : ℕ)

/-- The loop body up to `delta`. -/
def body (s : Search) : Search :=
  let q1 := u32 (s.q1 * 2)
  let r1 := u32 (s.r1 * 2)
  let q2 := u32 (s.q2 * 2)
  let r2 := u32 (s.r2 * 2)
  { p := s.p + 1
    q1 := if anc ≤ r1 then u32 (q1 + 1) else q1
    r1 := if anc ≤ r1 then r1 - anc else r1
    q2 := if ad ≤ r2 then u32 (q2 + 1) else q2
    r2 := if ad ≤ r2 then r2 - ad else r2 }

/-- The loop condition. -/
def again (s : Search) : Prop :=
  let delta := u32 (ad + 2 ^ 32 - s.r2)
  s.q1 < delta ∨ (s.q1 = delta ∧ s.r1 = 0)

instance (s : Search) : Decidable (s.again ad) := by
  unfold again
  infer_instance

/-- The loop. -/
def run : ℕ → Search → Option Search
  | 0, _ => none
  | fuel + 1, s =>
    let s := s.body ad anc
    if s.again ad then run fuel s else some s

/-- None of the doublings and increments of the body wraps. -/
def NoWrap (s : Search) : Prop :=
  2 * s.q1 + 1 < 2 ^ 32 ∧ 2 * s.r1 < 2 ^ 32 ∧ 2 * s.q2 + 1 < 2 ^ 32 ∧ 2 * s.r2 < 2 ^ 32

end Search

/-- The absolute value of the divisor. -/
def absDivisor (divisor : BitVec 32) : ℕ := divisor.toInt.natAbs

/-- The number that `SignedDivisionConstants` calls `anc`. -/
def absNc (divisor : BitVec 32) : ℕ :=
  let two31 := 2147483648
  let t := two31 - (if divisor.toInt < 0 then 1 else 0)
  t - 1 - t % absDivisor divisor

/-- The variables before the loop. -/
def searchStart (divisor : BitVec 32) : Search :=
  let two31 := 2147483648
  let ad := absDivisor divisor
  let anc := absNc divisor
  let q1 := two31 / anc
  let q2 := two31 / ad
  ⟨31, q1, two31 - q1 * anc, q2, two31 - q2 * ad⟩

def signedDivisionConstants (divisor : BitVec 32) : Option SignedMagic :=
  (Search.run (absDivisor divisor) (absNc divisor) 32 (searchStart divisor)).map fun s =>
    let multiplier := BitVec.ofNat 32 (s.q2 + 1)
    ⟨if divisor.toInt < 0 then -multiplier else multiplier, s.p - 32⟩

/-! ## The search -/

namespace Search

variable {ad anc p : ℕ}

/-- The variables when nothing has wrapped. -/
def exact (ad anc p : ℕ) : Search := ⟨p, 2 ^ p / anc, 2 ^ p % anc, 2 ^ p / ad, 2 ^ p % ad⟩

/-- The distance from a power of two to the next multiple of the divisor. -/
def delta (ad p : ℕ) : ℕ := ad - 2 ^ p % ad

theorem body_exact (had : 0 < ad) (hanc : 0 < anc) (hwrap : (exact ad anc p).NoWrap) :
    (exact ad anc p).body ad anc = exact ad anc (p + 1) := by
  obtain ⟨hq1, hr1, hq2, hr2⟩ := hwrap
  have hpow : 2 ^ (p + 1) = 2 * 2 ^ p := pow_succ' 2 p
  simp only [exact] at hq1 hr1 hq2 hr2
  unfold body exact
  dsimp only
  rw [mul_comm _ 2, mul_comm _ 2, mul_comm _ 2, mul_comm _ 2, u32_of_lt hr1, u32_of_lt hr2,
    u32_of_lt (x := 2 * (2 ^ p / anc)) (by omega), u32_of_lt (x := 2 * (2 ^ p / ad)) (by omega),
    u32_of_lt hq1, u32_of_lt hq2, hpow, two_mul_div _ hanc, two_mul_div _ had, two_mul_mod _ hanc,
    two_mul_mod _ had]

/-- The loop goes on while the power of two is not large enough. -/
theorem again_exact (had : 0 < ad) (hanc : 0 < anc) (hlt : ad < 2 ^ 32) :
    (exact ad anc p).again ad ↔ 2 ^ p ≤ anc * delta ad p := by
  have hr : 2 ^ p % ad < ad := Nat.mod_lt _ had
  have hdelta : u32 (ad + 2 ^ 32 - 2 ^ p % ad) = delta ad p := by
    unfold u32 delta
    omega
  have hdiv : anc * (2 ^ p / anc) + 2 ^ p % anc = 2 ^ p := Nat.div_add_mod _ _
  have hr1 : 2 ^ p % anc < anc := Nat.mod_lt _ hanc
  simp only [again, exact]
  rw [hdelta]
  constructor
  · rintro (hq | ⟨hq, hzero⟩)
    · have hle : anc * (2 ^ p / anc + 1) ≤ anc * delta ad p := Nat.mul_le_mul_left anc hq
      rw [mul_add, mul_one] at hle
      omega
    · rw [← hq]
      omega
  · intro hle
    rcases Nat.lt_or_ge (2 ^ p / anc) (delta ad p) with hq | hq
    · exact Or.inl hq
    · have hmul : anc * delta ad p ≤ anc * (2 ^ p / anc) := Nat.mul_le_mul_left anc hq
      refine Or.inr ⟨?_, by omega⟩
      exact Nat.le_antisymm ((Nat.div_le_div_right hle).trans_eq (Nat.mul_div_cancel_left _ hanc)) hq

/-- What the search needs to know of a divisor that is not a power of two. -/
structure Range (ad anc k : ℕ) : Prop where
  pow_lt : 2 ^ k < ad
  lt_pow : ad < 2 ^ (k + 1)
  le_thirty : k ≤ 30
  le_anc : 2 ^ 30 ≤ anc
  anc_lt : anc < 2 ^ 31

namespace Range

variable {k : ℕ}

theorem ad_pos (h : Range ad anc k) : 0 < ad := Nat.zero_lt_of_lt h.pow_lt

theorem anc_pos (h : Range ad anc k) : 0 < anc := Nat.zero_lt_of_lt h.le_anc

theorem ad_lt (h : Range ad anc k) : ad < 2 ^ 31 :=
  h.lt_pow.trans_le (Nat.pow_le_pow_right (by decide) (by have := h.le_thirty; omega))

/-- The quotients of the powers of two, one below the power that they fit. -/
theorem quot_lt (h : Range ad anc k) {j : ℕ} (hj : j = 31 ∨ j = 32) (hp : p ≤ j + k) :
    2 ^ p / ad < 2 ^ j - 1 := by
  have hk : 2 ^ k ≤ 2 ^ 30 := Nat.pow_le_pow_right (by decide) h.le_thirty
  have hpow : 2 ^ p ≤ 2 ^ j * 2 ^ k := by
    rw [← pow_add]
    exact Nat.pow_le_pow_right (by decide) hp
  have hprod : (2 ^ j - 1) * (2 ^ k + 1) ≤ (2 ^ j - 1) * ad := Nat.mul_le_mul_left _ h.pow_lt
  rw [Nat.div_lt_iff_lt_mul h.ad_pos]
  rcases hj with rfl | rfl <;> omega

theorem le_quot (h : Range ad anc k) : 2 ^ 31 ≤ 2 ^ (32 + k) / ad := by
  rw [Nat.le_div_iff_mul_le h.ad_pos]
  calc 2 ^ 31 * ad ≤ 2 ^ 31 * 2 ^ (k + 1) := Nat.mul_le_mul_left _ h.lt_pow.le
    _ = 2 ^ (32 + k) := by rw [← pow_add]; congr 1; omega

theorem noWrap (h : Range ad anc k) (hp : p ≤ 31 + k)
    (hagain : p = 31 ∨ 2 ^ p ≤ anc * delta ad p) : (exact ad anc p).NoWrap := by
  have had := h.ad_lt
  have hanc := h.anc_lt
  have hr1 : 2 ^ p % anc < anc := Nat.mod_lt _ h.anc_pos
  have hr2 : 2 ^ p % ad < ad := Nat.mod_lt _ h.ad_pos
  have hq1 : 2 ^ p / anc < 2 ^ 31 := by
    rcases hagain with rfl | hle
    · exact (Nat.div_le_div_left h.le_anc (by decide)).trans_lt (by decide)
    · have hquot : 2 ^ p / anc ≤ delta ad p :=
        (Nat.div_le_div_right hle).trans_eq (Nat.mul_div_cancel_left _ h.anc_pos)
      unfold delta at hquot
      omega
  have hq2 : 2 ^ p / ad < 2 ^ 31 := by
    rw [Nat.div_lt_iff_lt_mul h.ad_pos]
    calc 2 ^ p ≤ 2 ^ (31 + k) := Nat.pow_le_pow_right (by decide) hp
      _ = 2 ^ 31 * 2 ^ k := pow_add 2 31 k
      _ < 2 ^ 31 * ad := Nat.mul_lt_mul_of_pos_left h.pow_lt (by decide)
  unfold NoWrap exact
  dsimp only
  omega

theorem large (h : Range ad anc k) : anc * delta ad (32 + k) < 2 ^ (32 + k) := by
  calc anc * delta ad (32 + k) ≤ anc * ad := Nat.mul_le_mul_left anc (Nat.sub_le _ _)
    _ ≤ anc * 2 ^ (k + 1) := Nat.mul_le_mul_left anc h.lt_pow.le
    _ < 2 ^ 31 * 2 ^ (k + 1) := Nat.mul_lt_mul_of_pos_right h.anc_lt (by positivity)
    _ = 2 ^ (32 + k) := by rw [← pow_add]; congr 1; omega

end Range

/-- **The loop stops** at the first power of two that is large enough, and nothing has wrapped. -/
theorem run_exact {k : ℕ} (h : Range ad anc k) : ∀ (fuel p : ℕ), 31 ≤ p → p ≤ 31 + k →
    (p = 31 ∨ 2 ^ p ≤ anc * delta ad p) → 32 + k ≤ p + fuel →
    ∃ n, run ad anc fuel (exact ad anc p) = some (exact ad anc (p + n)) ∧ 0 < n ∧ p + n ≤ 32 + k ∧
      anc * delta ad (p + n) < 2 ^ (p + n) ∧
      (∀ i, 0 < i → i < n → 2 ^ (p + i) ≤ anc * delta ad (p + i)) ∧
      (∀ i < n, (exact ad anc (p + i)).NoWrap) ∧
      ∀ i ≤ n, (body ad anc)^[i] (exact ad anc p) = exact ad anc (p + i)
  | 0, p, _, hp, _, hfuel => absurd hfuel (by omega)
  | fuel + 1, p, h31, hp, hagain, hfuel => by
    have hwrap := h.noWrap hp hagain
    have hbody := body_exact h.ad_pos h.anc_pos hwrap
    have hlt : ad < 2 ^ 32 := h.ad_lt.trans (by decide)
    unfold run
    dsimp only
    rw [hbody]
    by_cases hgo : 2 ^ (p + 1) ≤ anc * delta ad (p + 1)
    · have hp' : p + 1 ≤ 31 + k := by
        by_contra hgt
        have heq : p + 1 = 32 + k := by omega
        rw [heq] at hgo
        exact absurd h.large (not_lt.mpr hgo)
      obtain ⟨n, hrun, hpos, hle, hlarge, hsmall, hwraps, hiter⟩ :=
        run_exact h fuel (p + 1) (by omega) hp' (Or.inr hgo) (by omega)
      have hshift : ∀ i, p + 1 + i = p + (i + 1) := fun i => by omega
      simp only [hshift] at hrun hle hlarge hsmall hwraps hiter
      rw [if_pos ((again_exact h.ad_pos h.anc_pos hlt).mpr hgo)]
      refine ⟨n + 1, hrun, Nat.succ_pos n, hle, hlarge, fun i hi hin => ?_, fun i hin => ?_,
        fun i hin => ?_⟩
      · rcases Nat.eq_or_lt_of_le hi with rfl | hi
        · exact hgo
        · have hpred := hsmall (i - 1) (by omega) (by omega)
          rwa [Nat.sub_add_cancel (by omega)] at hpred
      · cases i with
        | zero => exact hwrap
        | succ i => exact hwraps i (by omega)
      · cases i with
        | zero => rfl
        | succ i =>
          rw [Function.iterate_succ_apply, hbody]
          exact hiter i (by omega)
    · rw [if_neg (mt (again_exact h.ad_pos h.anc_pos hlt).mp hgo)]
      refine ⟨1, rfl, Nat.one_pos, by omega, not_le.mp hgo, fun i hi hin => by omega, fun i hin => ?_,
        fun i hin => ?_⟩
      · rw [Nat.lt_one_iff.mp hin]
        exact hwrap
      · rcases Nat.le_one_iff_eq_zero_or_eq_one.mp hin with rfl | rfl
        · rfl
        · exact hbody

theorem large_mono (had : 0 < ad) {p' : ℕ} (hle : p ≤ p') (hlarge : anc * delta ad p < 2 ^ p) :
    anc * delta ad p' < 2 ^ p' := by
  induction p', hle using Nat.le_induction with
  | base => exact hlarge
  | succ p' _ ih =>
    have hgap : delta ad (p' + 1) ≤ 2 * delta ad p' := by
      unfold delta
      rw [pow_succ']
      exact gap_two_mul_le _ had
    calc anc * delta ad (p' + 1) ≤ anc * (2 * delta ad p') := Nat.mul_le_mul_left anc hgap
      _ = 2 * (anc * delta ad p') := by ring
      _ < 2 * 2 ^ p' := Nat.mul_lt_mul_of_pos_left ih (by decide)
      _ = 2 ^ (p' + 1) := (pow_succ' 2 p').symm

end Search

/-! ## The signed constants -/

/-- The divisor is not one that is handled on its own: its magnitude is at least 2 and not a power of
two. -/
def SignedPath (divisor : BitVec 32) : Prop :=
  2 ≤ absDivisor divisor ∧ ∀ j, absDivisor divisor ≠ 2 ^ j

/-- The number of bits of the divisor, less one. -/
def bits (divisor : BitVec 32) : ℕ := Nat.log 2 (absDivisor divisor)

/-- The power of two below twice the divisor's length is not large enough, so the multiplier needs all
32 bits. -/
def NeedsAllBits (divisor : BitVec 32) : Prop :=
  2 ^ (31 + bits divisor) ≤
    absNc divisor * Search.delta (absDivisor divisor) (31 + bits divisor)

section SignedConstants

variable {divisor : BitVec 32}

theorem SignedPath.lt (h : SignedPath divisor) : absDivisor divisor < 2 ^ 31 := by
  have hle : absDivisor divisor ≤ 2 ^ 31 := by
    have hlt := BitVec.toInt_lt (x := divisor)
    have hge := BitVec.le_toInt divisor
    unfold absDivisor
    omega
  exact lt_of_le_of_ne hle (h.2 31)

theorem SignedPath.not_dvd (h : SignedPath divisor) (p : ℕ) : ¬ absDivisor divisor ∣ 2 ^ p := by
  intro hdvd
  obtain ⟨j, -, heq⟩ := (Nat.dvd_prime_pow Nat.prime_two).mp hdvd
  exact h.2 j heq

/-- The number `t` of `SignedDivisionConstants`. -/
def topDividend (divisor : BitVec 32) : ℕ := 2147483648 - (if divisor.toInt < 0 then 1 else 0)

theorem topDividend_cases (divisor : BitVec 32) :
    (divisor.toInt < 0 ∧ topDividend divisor = 2 ^ 31 - 1) ∨
    (0 ≤ divisor.toInt ∧ topDividend divisor = 2 ^ 31) := by
  unfold topDividend
  split
  · next hneg => exact Or.inl ⟨hneg, rfl⟩
  · next hpos => exact Or.inr ⟨not_lt.mp hpos, rfl⟩

theorem absNc_eq : absNc divisor =
    topDividend divisor - 1 - topDividend divisor % absDivisor divisor := rfl

theorem SignedPath.range (h : SignedPath divisor) :
    Search.Range (absDivisor divisor) (absNc divisor) (bits divisor) := by
  have hlt := h.lt
  have htwo := h.1
  have hne := h.2 30
  have hpos : absDivisor divisor ≠ 0 := by omega
  have hmod : topDividend divisor % absDivisor divisor < absDivisor divisor :=
    Nat.mod_lt _ (by omega)
  have hself := Nat.mod_le (topDividend divisor) (absDivisor divisor)
  -- above half of the dividends there is one multiple only
  have hlarge : 2 ^ 30 < absDivisor divisor →
      topDividend divisor % absDivisor divisor = topDividend divisor - absDivisor divisor := by
    intro hgt
    rw [Nat.mod_eq_sub_mod (by rcases topDividend_cases divisor with h | h <;> omega),
      Nat.mod_eq_of_lt (by rcases topDividend_cases divisor with h | h <;> omega)]
  rw [absNc_eq]
  refine ⟨lt_of_le_of_ne (Nat.pow_log_le_self 2 hpos) fun heq => h.2 _ heq.symm,
    Nat.lt_pow_succ_log_self (by decide) _, ?_, ?_, ?_⟩
  · have hlog := Nat.log_lt_of_lt_pow hpos hlt
    unfold bits
    omega
  · rcases topDividend_cases divisor with ⟨-, ht⟩ | ⟨-, ht⟩ <;>
      rw [ht] at hmod hlarge ⊢ <;> omega
  · rcases topDividend_cases divisor with ⟨-, ht⟩ | ⟨-, ht⟩ <;> rw [ht] <;> omega

theorem searchStart_eq (divisor : BitVec 32) :
    searchStart divisor = Search.exact (absDivisor divisor) (absNc divisor) 31 := by
  have hmod : ∀ a b : ℕ, a - a / b * b = a % b := fun a b => by
    rw [Nat.mod_def, mul_comm]
  simp only [searchStart, Search.exact, hmod]
  rfl

/-- The multiplier for a power of two. -/
def magicMultiplier (divisor : BitVec 32) (p : ℕ) : ℕ := 2 ^ p / absDivisor divisor + 1

/-- **What the signed constants are**: the search ends without a wrap, at a power of two that is large
enough, and whether the multiplier needs all 32 bits is known from the divisor. -/
theorem signedDivisionConstants_spec (h : SignedPath divisor) : ∃ p, 32 ≤ p ∧ p ≤ 62 ∧
    signedDivisionConstants divisor = some ⟨if divisor.toInt < 0 then
      -BitVec.ofNat 32 (magicMultiplier divisor p) else BitVec.ofNat 32 (magicMultiplier divisor p),
      p - 32⟩ ∧
    absNc divisor * Search.delta (absDivisor divisor) p < 2 ^ p ∧
    magicMultiplier divisor p < 2 ^ 32 ∧ magicMultiplier divisor p ≠ 2 ^ 31 ∧
    (2 ^ 31 ≤ magicMultiplier divisor p ↔ NeedsAllBits divisor) ∧
    (∀ i, 32 ≤ i → i < p → 2 ^ i ≤ absNc divisor * Search.delta (absDivisor divisor) i) := by
  have hrange := h.range
  have hthirty := hrange.le_thirty
  obtain ⟨n, hrun, hpos, hle, hlarge, hsmall, -, -⟩ :=
    Search.run_exact hrange 32 31 le_rfl (by omega) (Or.inl rfl) (by omega)
  have hsmall' : ∀ i, 32 ≤ i → i < 31 + n →
      2 ^ i ≤ absNc divisor * Search.delta (absDivisor divisor) i := by
    intro i hi hin
    have hat := hsmall (i - 31) (by omega) (by omega)
    rwa [Nat.add_sub_cancel' (by omega)] at hat
  refine ⟨31 + n, by omega, by omega, ?_, hlarge, ?_, ?_, ?_, hsmall'⟩
  · rw [signedDivisionConstants, searchStart_eq, hrun]
    rfl
  · have hquot := hrange.quot_lt (j := 32) (p := 31 + n) (by decide) (by omega)
    unfold magicMultiplier
    omega
  · rcases Nat.lt_or_ge (31 + n) (32 + bits divisor) with hshort | hlong
    · have hquot := hrange.quot_lt (j := 31) (p := 31 + n) (by decide) (by omega)
      unfold magicMultiplier
      omega
    · have hquot := hrange.le_quot
      have heq : 31 + n = 32 + bits divisor := by omega
      unfold magicMultiplier
      rw [heq]
      omega
  · rcases Nat.lt_or_ge (31 + n) (32 + bits divisor) with hshort | hlong
    · have hquot := hrange.quot_lt (j := 31) (p := 31 + n) (by decide) (by omega)
      have hnot : absNc divisor * Search.delta (absDivisor divisor) (31 + bits divisor) <
          2 ^ (31 + bits divisor) := Search.large_mono hrange.ad_pos (by omega) hlarge
      refine iff_of_false ?_ (not_le.mpr hnot)
      unfold magicMultiplier
      omega
    · have hquot := hrange.le_quot
      have heq : 31 + n = 32 + bits divisor := by omega
      have hbits : 0 < bits divisor :=
        Nat.log_pos (by decide) (by have := h.1; omega)
      refine iff_of_true ?_ (hsmall' (31 + bits divisor) (by omega) (by omega))
      unfold magicMultiplier
      rw [heq]
      omega

/-- The search ends, and no doubling and no increment on the way wraps. -/
def SearchEnds (divisor : BitVec 32) : Prop :=
  ∃ n, Search.run (absDivisor divisor) (absNc divisor) 32 (searchStart divisor) =
      some ((Search.body (absDivisor divisor) (absNc divisor))^[n] (searchStart divisor)) ∧
    ∀ i < n, ((Search.body (absDivisor divisor) (absNc divisor))^[i] (searchStart divisor)).NoWrap

theorem SignedPath.searchEnds (h : SignedPath divisor) : SearchEnds divisor := by
  have hthirty := h.range.le_thirty
  obtain ⟨n, hrun, -, -, -, -, hwraps, hiter⟩ :=
    Search.run_exact h.range 32 31 le_rfl (by omega) (Or.inl rfl) (by omega)
  rw [SearchEnds, searchStart_eq]
  refine ⟨n, hrun.trans (congrArg some (hiter n le_rfl).symm), fun i hi => ?_⟩
  rw [hiter i hi.le]
  exact hwraps i hi

/-! ## The error of the multiplier -/

variable {n p : ℕ}

theorem dvd_succ_of_last (hd : 0 < absDivisor divisor)
    (hlast : n % absDivisor divisor = absDivisor divisor - 1) : absDivisor divisor ∣ n + 1 := by
  refine ⟨n / absDivisor divisor + 1, ?_⟩
  have hn := Nat.div_add_mod n (absDivisor divisor)
  rw [mul_add, mul_one]
  omega

theorem SignedPath.le_absNc (h : SignedPath divisor) (hn : n < 2 ^ 31)
    (hlast : n % absDivisor divisor = absDivisor divisor - 1) : n ≤ absNc divisor := by
  have hd := h.range.ad_pos
  have hdvd := dvd_succ_of_last hd hlast
  have hne : n + 1 ≠ 2 ^ 31 := fun heq => h.not_dvd 31 (heq ▸ hdvd)
  have hle : n + 1 ≤ topDividend divisor := by
    rcases topDividend_cases divisor with ⟨-, ht⟩ | ⟨-, ht⟩ <;> omega
  obtain ⟨c, hc⟩ := hdvd
  have hquot : c ≤ topDividend divisor / absDivisor divisor := by
    rw [Nat.le_div_iff_mul_le hd, mul_comm, ← hc]
    exact hle
  have hmul := Nat.mul_le_mul_left (absDivisor divisor) hquot
  have htop := Nat.div_add_mod (topDividend divisor) (absDivisor divisor)
  rw [absNc_eq]
  omega

theorem SignedPath.mul_delta_lt (h : SignedPath divisor) (hn : n ≤ 2 ^ 31)
    (hlarge : absNc divisor * Search.delta (absDivisor divisor) p < 2 ^ p) :
    n * Search.delta (absDivisor divisor) p < 2 * 2 ^ p := by
  have hle : n ≤ 2 * absNc divisor := by
    have := h.range.le_anc
    omega
  calc n * Search.delta (absDivisor divisor) p
      ≤ 2 * absNc divisor * Search.delta (absDivisor divisor) p := Nat.mul_le_mul_right _ hle
    _ = 2 * (absNc divisor * Search.delta (absDivisor divisor) p) := mul_assoc _ _ _
    _ < 2 * 2 ^ p := Nat.mul_lt_mul_of_pos_left hlarge (by decide)

/-- Where the divisor divides 0x80000001, the distance is that of half the power. -/
theorem SignedPath.delta_of_dvd (h : SignedPath divisor) (hdvd : absDivisor divisor ∣ 2 ^ 31 + 1)
    (hp : 31 ≤ p) : absDivisor divisor ∣ Search.delta (absDivisor divisor) p + (2 ^ 31 * 2 ^ (p - 31))
      ∧ absDivisor divisor ∣ 2 ^ (p - 31) + 2 ^ 31 * 2 ^ (p - 31) := by
  have hpow : 2 ^ 31 * 2 ^ (p - 31) = 2 ^ p := by
    rw [← pow_add]
    congr 1
    omega
  have hsum : Search.delta (absDivisor divisor) p + 2 ^ p =
      absDivisor divisor * (2 ^ p / absDivisor divisor + 1) := by
    have hr := Nat.mod_lt (2 ^ p) h.range.ad_pos
    have hdiv := Nat.div_add_mod (2 ^ p) (absDivisor divisor)
    unfold Search.delta
    rw [mul_add, mul_one]
    omega
  constructor
  · rw [hpow, hsum]
    exact Nat.dvd_mul_right _ _
  · have hmul : 2 ^ (p - 31) + 2 ^ 31 * 2 ^ (p - 31) = (2 ^ 31 + 1) * 2 ^ (p - 31) := by ring
    rw [hmul]
    exact hdvd.mul_right _

theorem SignedPath.top_mul_delta_le (h : SignedPath divisor) (hp : 31 ≤ p)
    (hdvd : absDivisor divisor ∣ 2 ^ 31 + 1) :
    2 ^ 31 * Search.delta (absDivisor divisor) p ≤ 2 ^ p := by
  obtain ⟨hdelta, hhalf⟩ := h.delta_of_dvd hdvd hp
  have hpow : 2 ^ p = 2 ^ 31 * 2 ^ (p - 31) := by
    rw [← pow_add]
    congr 1
    omega
  have hle : Search.delta (absDivisor divisor) p ≤ 2 ^ (p - 31) := by
    by_contra hgt
    have hdiff : absDivisor divisor ∣ Search.delta (absDivisor divisor) p - 2 ^ (p - 31) := by
      have hsub := Nat.dvd_sub hdelta hhalf
      rwa [Nat.add_sub_add_right] at hsub
    have hbound := Nat.le_of_dvd (by omega) hdiff
    have hpos : 0 < 2 ^ (p - 31) := by positivity
    have hself : Search.delta (absDivisor divisor) p ≤ absDivisor divisor := Nat.sub_le _ _
    omega
  rw [hpow]
  exact Nat.mul_le_mul_left _ hle

theorem SignedPath.error_lt (h : SignedPath divisor) (hn : n ≤ 2 ^ 31)
    (hlarge : absNc divisor * Search.delta (absDivisor divisor) p < 2 ^ p)
    (htop : n = 2 ^ 31 → ¬ absDivisor divisor ∣ 2 ^ 31 + 1) :
    n % absDivisor divisor * 2 ^ p + n * Search.delta (absDivisor divisor) p <
      absDivisor divisor * 2 ^ p := by
  refine ReciprocalDivision.error_lt h.range.ad_pos (h.mul_delta_lt hn hlarge) fun hlast => ?_
  have hdvd := dvd_succ_of_last h.range.ad_pos hlast
  have hne : n ≠ 2 ^ 31 := fun heq => htop heq (heq ▸ hdvd)
  exact (Nat.mul_le_mul_right _ (h.le_absNc (lt_of_le_of_ne hn hne) hlast)).trans_lt hlarge

theorem SignedPath.error_le (h : SignedPath divisor) (hn : n ≤ 2 ^ 31) (hp : 31 ≤ p)
    (hlarge : absNc divisor * Search.delta (absDivisor divisor) p < 2 ^ p) :
    n % absDivisor divisor * 2 ^ p + n * Search.delta (absDivisor divisor) p ≤
      absDivisor divisor * 2 ^ p := by
  refine ReciprocalDivision.error_le h.range.ad_pos (h.mul_delta_lt hn hlarge) fun hlast => ?_
  have hdvd := dvd_succ_of_last h.range.ad_pos hlast
  rcases eq_or_lt_of_le hn with rfl | hlt
  · exact h.top_mul_delta_le hp hdvd
  · exact ((Nat.mul_le_mul_right _ (h.le_absNc hlt hlast)).trans_lt hlarge).le

theorem SignedPath.magicMultiplier_mul (h : SignedPath divisor) (p : ℕ) :
    magicMultiplier divisor p * absDivisor divisor =
      2 ^ p + Search.delta (absDivisor divisor) p := by
  have hr := Nat.mod_lt (2 ^ p) h.range.ad_pos
  have hdiv := Nat.div_add_mod' (2 ^ p) (absDivisor divisor)
  unfold magicMultiplier Search.delta
  rw [add_mul, one_mul]
  omega

theorem SignedPath.delta_pos (h : SignedPath divisor) (p : ℕ) :
    0 < Search.delta (absDivisor divisor) p :=
  Nat.sub_pos_of_lt (Nat.mod_lt _ h.range.ad_pos)

end SignedConstants

/-! ## Unsigned division -/

structure UnsignedMagic where
  multiplier : BitVec 32
  shift : ℕ
  fast : Bool

/-- `countr_zero` of a value of `n` bits. -/
def countrZero : ℕ → ℕ → ℕ
  | 0, _ => 0
  | n + 1, x => if x % 2 = 0 then countrZero n (x / 2) + 1 else 0

/-- `UnsignedDivisionConstants`. The shift is `31 - countl_zero(divisor)`. -/
def unsignedDivisionConstants (divisor : BitVec 32) : UnsignedMagic :=
  let divisor := divisor.toNat
  let shift := Nat.log 2 divisor
  let magicDividend := 2 ^ 32 <<< shift
  let multiplier := u32 (magicDividend / divisor)
  let maxQuotient := multiplier >>> shift
  let roundUp := u32 ((u32 (multiplier + 1) * u32 (u32 (maxQuotient * divisor) + (2 ^ 32 - 1)) %
    2 ^ 64) >>> (shift + 32))
  if roundUp = u32 (maxQuotient + (2 ^ 32 - 1)) then
    let multiplier := u32 (multiplier + 1)
    let trailingZeroes := min shift (countrZero 32 multiplier)
    ⟨BitVec.ofNat 32 (multiplier >>> trailingZeroes), shift - trailingZeroes, true⟩
  else ⟨BitVec.ofNat 32 multiplier, shift, false⟩

theorem pow_countrZero_dvd : ∀ n x, 2 ^ countrZero n x ∣ x
  | 0, x => one_dvd x
  | n + 1, x => by
    unfold countrZero
    split
    · next heven =>
      obtain ⟨c, hc⟩ := pow_countrZero_dvd n (x / 2)
      refine ⟨c, ?_⟩
      rw [pow_succ, mul_right_comm, ← hc]
      omega
    · exact one_dvd x

/-- The divisor is at least 3 and not a power of two. -/
def UnsignedPath (divisor : BitVec 32) : Prop :=
  3 ≤ divisor.toNat ∧ ∀ j, divisor.toNat ≠ 2 ^ j

section UnsignedConstants

variable {divisor : BitVec 32}

/-- The number of bits of the divisor, less one. -/
def unsignedBits (divisor : BitVec 32) : ℕ := Nat.log 2 divisor.toNat

theorem UnsignedPath.bounds (h : UnsignedPath divisor) :
    2 ^ unsignedBits divisor < divisor.toNat ∧ divisor.toNat < 2 ^ (unsignedBits divisor + 1) ∧
      unsignedBits divisor ≤ 31 := by
  have hpos : divisor.toNat ≠ 0 := by
    have := h.1
    omega
  refine ⟨lt_of_le_of_ne (Nat.pow_log_le_self 2 hpos) fun heq => h.2 _ heq.symm,
    Nat.lt_pow_succ_log_self (by decide) _, ?_⟩
  have hlog := Nat.log_lt_of_lt_pow hpos divisor.isLt
  unfold unsignedBits
  omega

theorem UnsignedPath.not_dvd (h : UnsignedPath divisor) (p : ℕ) : ¬ divisor.toNat ∣ 2 ^ p := by
  intro hdvd
  obtain ⟨j, -, heq⟩ := (Nat.dvd_prime_pow Nat.prime_two).mp hdvd
  exact h.2 j heq

/-- The exponent of the power of two whose reciprocal is used. -/
def unsignedExponent (divisor : BitVec 32) : ℕ := 32 + unsignedBits divisor

/-- The reciprocal, rounded down. -/
def reciprocal (divisor : BitVec 32) : ℕ := 2 ^ unsignedExponent divisor / divisor.toNat

/-- The last dividend of 32 bits before a multiple. -/
def lastDividend (divisor : BitVec 32) : ℕ := 2 ^ 32 / divisor.toNat * divisor.toNat - 1

theorem UnsignedPath.reciprocal_lt (h : UnsignedPath divisor) : reciprocal divisor + 1 < 2 ^ 32 := by
  obtain ⟨hlow, -, hbits⟩ := h.bounds
  have hk : 2 ^ unsignedBits divisor ≤ 2 ^ 31 := Nat.pow_le_pow_right (by decide) hbits
  have hprod := Nat.mul_le_mul_left (2 ^ 32 - 1) hlow
  have hquot : reciprocal divisor < 2 ^ 32 - 1 := by
    rw [reciprocal, Nat.div_lt_iff_lt_mul (Nat.zero_lt_of_lt hlow), unsignedExponent, pow_add]
    omega
  omega

/-- The number that `UnsignedDivisionConstants` calls `max_quotient`. -/
theorem UnsignedPath.maxQuotient_spec (h : UnsignedPath divisor) :
    reciprocal divisor >>> unsignedBits divisor = 2 ^ 32 / divisor.toNat ∧
      0 < 2 ^ 32 / divisor.toNat ∧ 2 ^ 32 / divisor.toNat < 2 ^ 32 ∧
      0 < 2 ^ 32 / divisor.toNat * divisor.toNat ∧
      2 ^ 32 / divisor.toNat * divisor.toNat < 2 ^ 32 := by
  have hthree := h.1
  have hpos : 0 < 2 ^ 32 / divisor.toNat := Nat.div_pos divisor.isLt.le (by omega)
  refine ⟨?_, hpos, Nat.div_lt_self (by decide) (by omega), Nat.mul_pos hpos (by omega), ?_⟩
  · rw [Nat.shiftRight_eq_div_pow, reciprocal, unsignedExponent, pow_add, Nat.div_div_eq_div_mul,
      Nat.mul_div_mul_right _ _ (by positivity)]
  · refine lt_of_le_of_ne (Nat.div_mul_le_self _ _) fun heq => h.not_dvd 32 ?_
    exact ⟨_, (mul_comm _ _).trans heq |>.symm⟩

theorem UnsignedPath.roundUp_eq (h : UnsignedPath divisor) :
    u32 ((u32 (reciprocal divisor + 1) *
        u32 (u32 (2 ^ 32 / divisor.toNat * divisor.toNat) + (2 ^ 32 - 1)) % 2 ^ 64) >>>
          (unsignedBits divisor + 32)) =
      (reciprocal divisor + 1) * lastDividend divisor / 2 ^ unsignedExponent divisor := by
  obtain ⟨-, -, -, hpos, hlt⟩ := h.maxQuotient_spec
  have hrecip := h.reciprocal_lt
  have hlast : u32 (2 ^ 32 / divisor.toNat * divisor.toNat + (2 ^ 32 - 1)) = lastDividend divisor := by
    unfold u32 lastDividend
    omega
  have hlast' : lastDividend divisor < 2 ^ 32 := by
    unfold lastDividend
    omega
  have hprod : (reciprocal divisor + 1) * lastDividend divisor < 2 ^ 32 * 2 ^ 32 :=
    Nat.mul_lt_mul'' hrecip hlast'
  rw [u32_of_lt hlt, u32_of_lt hrecip, hlast, Nat.mod_eq_of_lt (hprod.trans_le (by decide)),
    Nat.shiftRight_eq_div_pow, unsignedExponent, Nat.add_comm (unsignedBits divisor)]
  refine u32_of_lt (Nat.div_lt_of_lt_mul (hprod.trans_le ?_))
  exact Nat.mul_le_mul_right _ (Nat.pow_le_pow_right (by decide) (Nat.le_add_right _ _))

/-- **What the unsigned constants are**: a reciprocal that is rounded up, if that is exact for the last
dividend before a multiple, and else one that is rounded down. -/
theorem unsignedDivisionConstants_spec (h : UnsignedPath divisor) :
    ((reciprocal divisor + 1) * lastDividend divisor / 2 ^ unsignedExponent divisor =
        2 ^ 32 / divisor.toNat - 1 ∧
      ∃ multiplier shift trailing, unsignedDivisionConstants divisor =
          ⟨BitVec.ofNat 32 multiplier, shift, true⟩ ∧
        multiplier * 2 ^ trailing = reciprocal divisor + 1 ∧
        shift + trailing = unsignedBits divisor) ∨
    ((reciprocal divisor + 1) * lastDividend divisor / 2 ^ unsignedExponent divisor ≠
        2 ^ 32 / divisor.toNat - 1 ∧
      unsignedDivisionConstants divisor =
        ⟨BitVec.ofNat 32 (reciprocal divisor), unsignedBits divisor, false⟩) := by
  obtain ⟨hmax, hpos, hlt, -, -⟩ := h.maxQuotient_spec
  have hrecip := h.reciprocal_lt
  have hmultiplier : u32 (2 ^ 32 <<< Nat.log 2 divisor.toNat / divisor.toNat) = reciprocal divisor := by
    rw [Nat.shiftLeft_eq, ← pow_add]
    exact u32_of_lt (Nat.lt_of_succ_lt hrecip)
  have hpred : u32 (2 ^ 32 / divisor.toNat + (2 ^ 32 - 1)) = 2 ^ 32 / divisor.toNat - 1 := by
    unfold u32
    omega
  have hbits : Nat.log 2 divisor.toNat = unsignedBits divisor := rfl
  unfold unsignedDivisionConstants
  dsimp only
  rw [hmultiplier, hbits, hmax, hpred, h.roundUp_eq]
  split
  · next hfast =>
    refine Or.inl ⟨hfast, _, _, _, rfl, ?_, Nat.sub_add_cancel (Nat.min_le_left _ _)⟩
    rw [u32_of_lt hrecip, Nat.shiftRight_eq_div_pow]
    refine Nat.div_mul_cancel ((Nat.pow_dvd_pow 2 (Nat.min_le_right _ _)).trans ?_)
    exact pow_countrZero_dvd _ _
  · next hslow => exact Or.inr ⟨hslow, rfl⟩

/-! ## The error of the reciprocal -/

/-- The gap of the reciprocal that is rounded up. -/
def unsignedGap (divisor : BitVec 32) : ℕ :=
  divisor.toNat - 2 ^ unsignedExponent divisor % divisor.toNat

theorem UnsignedPath.succ_reciprocal_mul (h : UnsignedPath divisor) :
    (reciprocal divisor + 1) * divisor.toNat = 2 ^ unsignedExponent divisor + unsignedGap divisor := by
  have hthree := h.1
  have hr := Nat.mod_lt (2 ^ unsignedExponent divisor) (show 0 < divisor.toNat by omega)
  have hdiv := Nat.div_add_mod' (2 ^ unsignedExponent divisor) divisor.toNat
  unfold reciprocal unsignedGap
  rw [add_mul, one_mul]
  omega

theorem UnsignedPath.lastDividend_succ (h : UnsignedPath divisor) :
    lastDividend divisor + 1 = 2 ^ 32 / divisor.toNat * divisor.toNat := by
  have hpos := h.maxQuotient_spec.2.2.2.1
  unfold lastDividend
  omega

theorem UnsignedPath.last_iff (h : UnsignedPath divisor) :
    (reciprocal divisor + 1) * lastDividend divisor / 2 ^ unsignedExponent divisor =
      2 ^ 32 / divisor.toNat - 1 ↔
    lastDividend divisor * unsignedGap divisor < 2 ^ unsignedExponent divisor := by
  have hd : 0 < divisor.toNat := by
    have := h.1
    omega
  have hN : 0 < 2 ^ unsignedExponent divisor := by positivity
  have hlast := h.lastDividend_succ
  have hpos := h.maxQuotient_spec.2.1
  have hscaled : (reciprocal divisor + 1) * lastDividend divisor * divisor.toNat =
      lastDividend divisor * 2 ^ unsignedExponent divisor +
        lastDividend divisor * unsignedGap divisor := by
    rw [mul_right_comm, h.succ_reciprocal_mul]
    ring
  have hquot : 2 ^ 32 / divisor.toNat * 2 ^ unsignedExponent divisor * divisor.toNat =
      lastDividend divisor * 2 ^ unsignedExponent divisor + 2 ^ unsignedExponent divisor := by
    rw [mul_right_comm, ← hlast]
    ring
  have hpred : (2 ^ 32 / divisor.toNat - 1) * 2 ^ unsignedExponent divisor * divisor.toNat +
      2 ^ unsignedExponent divisor * divisor.toNat =
      2 ^ 32 / divisor.toNat * 2 ^ unsignedExponent divisor * divisor.toNat := by
    rw [← add_mul, ← Nat.succ_mul, Nat.succ_eq_add_one, Nat.sub_add_cancel hpos]
  have hle : 2 ^ unsignedExponent divisor ≤ 2 ^ unsignedExponent divisor * divisor.toNat :=
    Nat.le_mul_of_pos_right _ hd
  constructor
  · intro heq
    have hlt : (reciprocal divisor + 1) * lastDividend divisor <
        2 ^ 32 / divisor.toNat * 2 ^ unsignedExponent divisor := by
      rw [← Nat.div_lt_iff_lt_mul hN, heq]
      omega
    have hscale := Nat.mul_lt_mul_of_pos_right hlt hd
    omega
  · intro hlt
    refine Nat.div_eq_of_lt_le ?_ ?_
    · refine le_of_mul_le_mul_right ?_ hd
      omega
    · rw [Nat.sub_add_cancel hpos]
      refine lt_of_mul_lt_mul_right ?_ (Nat.zero_le divisor.toNat)
      omega

/-- The quotient of the reciprocal that is rounded up, when it is right for the last dividend. -/
theorem UnsignedPath.mul_reciprocal_succ (h : UnsignedPath divisor) {n : ℕ} (hn : n < 2 ^ 32)
    (hlast : lastDividend divisor * unsignedGap divisor < 2 ^ unsignedExponent divisor) :
    n * (reciprocal divisor + 1) / 2 ^ unsignedExponent divisor = n / divisor.toNat := by
  obtain ⟨hlow, hhigh, -⟩ := h.bounds
  have hd : 0 < divisor.toNat := Nat.zero_lt_of_lt hlow
  refine mul_div_eq hd h.succ_reciprocal_mul (error_lt hd ?_ fun hmod => ?_)
  · have hgap : unsignedGap divisor < 2 ^ (unsignedBits divisor + 1) :=
      (Nat.sub_le _ _).trans_lt hhigh
    calc n * unsignedGap divisor < 2 ^ 32 * 2 ^ (unsignedBits divisor + 1) :=
          Nat.mul_lt_mul'' hn hgap
      _ = 2 * 2 ^ unsignedExponent divisor := by
        rw [unsignedExponent, ← pow_add, ← pow_succ']
        congr 1
  · have hn' := Nat.div_add_mod' n divisor.toNat
    have hquot : n / divisor.toNat + 1 ≤ 2 ^ 32 / divisor.toNat := by
      rw [Nat.le_div_iff_mul_le hd, Nat.succ_mul]
      omega
    have hmul := Nat.mul_le_mul_right divisor.toNat hquot
    rw [← h.lastDividend_succ, add_mul, one_mul] at hmul
    have hle : n ≤ lastDividend divisor := by omega
    exact (Nat.mul_le_mul_right _ hle).trans_lt hlast

/-- The quotient of the reciprocal that is rounded down, when the other one does not do. -/
theorem UnsignedPath.succ_mul_reciprocal (h : UnsignedPath divisor) {n : ℕ} (hn : n < 2 ^ 32)
    (hlast : ¬ lastDividend divisor * unsignedGap divisor < 2 ^ unsignedExponent divisor) :
    (n + 1) * reciprocal divisor / 2 ^ unsignedExponent divisor = n / divisor.toNat := by
  obtain ⟨hlow, hhigh, -⟩ := h.bounds
  have hd : 0 < divisor.toNat := Nat.zero_lt_of_lt hlow
  have hpow : 2 ^ unsignedExponent divisor = 2 ^ 32 * 2 ^ unsignedBits divisor := pow_add 2 32 _
  have hgap : 2 ^ unsignedBits divisor < unsignedGap divisor := by
    by_contra hle
    have hlt : lastDividend divisor < 2 ^ 32 := by
      have := h.lastDividend_succ
      have := h.maxQuotient_spec.2.2.2.2
      omega
    refine hlast (hpow ▸ ?_)
    exact Nat.mul_lt_mul_of_lt_of_le hlt (not_lt.mp hle) (by positivity)
  have hf : 0 < 2 ^ unsignedExponent divisor % divisor.toNat :=
    Nat.pos_of_ne_zero fun hzero => h.not_dvd _ (Nat.dvd_of_mod_eq_zero hzero)
  refine succ_mul_div_eq hd (Nat.div_add_mod' _ _) hf ?_
  have hsmall : 2 ^ unsignedExponent divisor % divisor.toNat ≤ 2 ^ unsignedBits divisor := by
    unfold unsignedGap at hgap
    rw [pow_succ'] at hhigh
    omega
  calc (n + 1) * (2 ^ unsignedExponent divisor % divisor.toNat)
      ≤ 2 ^ 32 * 2 ^ unsignedBits divisor := Nat.mul_le_mul hn hsmall
    _ = 1 * 2 ^ unsignedExponent divisor := by rw [hpow, one_mul]
    _ ≤ (n % divisor.toNat + 1) * 2 ^ unsignedExponent divisor :=
      Nat.mul_le_mul_right _ (Nat.le_add_left 1 _)

end UnsignedConstants

end JitCommon
