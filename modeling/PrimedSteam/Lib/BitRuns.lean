import Mathlib.Data.Int.GCD
import Mathlib.Tactic.Ring

/-!
# Runs of ones in words

A word as a function on the positions: trailing zeros and ones, rotations, and words that repeat an element
which is a run of ones followed by zeros.

* `getLsbD_and_add_one`: `x &&& (x + 1)` is `x` without its trailing ones.
* `getLsbD_rotate`: a rotation moves the positions.
* `run_periodic`: a word that starts with a run and has a period just behind its first element repeats that
  element, and the period divides the length.
-/

set_option autoImplicit false

namespace BitRuns

variable {w : ℕ}

/-- The bits of a mask of low ones. -/
theorem getLsbD_of_low_ones {mask : BitVec w} {k : ℕ} (hmask : mask.toNat = 2 ^ k - 1) (i : ℕ) :
    mask.getLsbD i = decide (i < k) := by
  rw [← BitVec.testBit_toNat, hmask, Nat.testBit_two_pow_sub_one]

/-! ## Trailing bits -/

/-- The number of zeros below the lowest one. -/
def countrZero (x : BitVec w) : ℕ := ((List.range w).find? fun i => x.getLsbD i).getD w

def countrOne (x : BitVec w) : ℕ := countrZero (~~~x)

theorem countrZero_le (x : BitVec w) : countrZero x ≤ w := by
  rw [countrZero]
  cases h : (List.range w).find? fun i => x.getLsbD i with
  | none => exact le_rfl
  | some i => exact le_of_lt (List.mem_range.mp (List.mem_of_find?_eq_some h))

theorem getLsbD_of_lt_countrZero {x : BitVec w} {i : ℕ} (hi : i < countrZero x) : x.getLsbD i = false := by
  have hw := countrZero_le x
  rw [countrZero] at hi
  cases h : (List.range w).find? fun i => x.getLsbD i with
  | none =>
    rw [h] at hi
    have hnone := List.find?_eq_none.mp h i (List.mem_range.mpr hi)
    simpa using hnone
  | some j =>
    rw [h] at hi
    have hbefore := (List.find?_range_eq_some.mp h).2.2 i hi
    simpa using hbefore

theorem getLsbD_countrZero {x : BitVec w} (h : countrZero x < w) : x.getLsbD (countrZero x) = true := by
  rw [countrZero] at h ⊢
  cases hfind : (List.range w).find? fun i => x.getLsbD i with
  | none =>
    rw [hfind] at h
    exact absurd h (lt_irrefl w)
  | some i => simpa using List.find?_some hfind

/-- What determines the number of trailing zeros. -/
theorem countrZero_eq {x : BitVec w} {n : ℕ} (hn : n ≤ w) (hbelow : ∀ i < n, x.getLsbD i = false)
    (hat : n < w → x.getLsbD n = true) : countrZero x = n := by
  have hle := countrZero_le x
  rcases Nat.lt_trichotomy (countrZero x) n with hlt | heq | hgt
  · have hbit := getLsbD_countrZero (lt_of_lt_of_le hlt hn)
    rw [hbelow _ hlt] at hbit
    cases hbit
  · exact heq
  · have hbit := getLsbD_of_lt_countrZero hgt
    rw [hat (by omega)] at hbit
    cases hbit

theorem countrOne_le (x : BitVec w) : countrOne x ≤ w := countrZero_le _

theorem getLsbD_of_lt_countrOne {x : BitVec w} {i : ℕ} (hi : i < countrOne x) : x.getLsbD i = true := by
  have hbit := getLsbD_of_lt_countrZero hi
  have hw : i < w := lt_of_lt_of_le hi (countrOne_le x)
  simpa [hw] using hbit

theorem getLsbD_countrOne {x : BitVec w} (h : countrOne x < w) : x.getLsbD (countrOne x) = false := by
  have hbit := getLsbD_countrZero h
  rw [BitVec.getLsbD_not, Bool.and_eq_true, Bool.not_eq_true'] at hbit
  exact hbit.2

theorem countrOne_eq {x : BitVec w} {n : ℕ} (hn : n ≤ w) (hbelow : ∀ i < n, x.getLsbD i = true)
    (hat : n < w → x.getLsbD n = false) : countrOne x = n := by
  refine countrZero_eq hn (fun i hi => ?_) fun hlt => ?_
  · simp [hbelow i hi]
  · rw [BitVec.getLsbD_not, hat hlt, decide_eq_true hlt]
    rfl

theorem toNat_mod_eq_iff (x : BitVec w) {i : ℕ} (hi : i ≤ w) :
    x.toNat % 2 ^ i = 2 ^ i - 1 ↔ i ≤ countrOne x := by
  constructor
  · intro h
    by_contra hlt
    have hbit := getLsbD_countrOne (lt_of_lt_of_le (Nat.lt_of_not_le hlt) hi)
    have htest := congrArg (fun n => n.testBit (countrOne x)) h
    simp only [Nat.testBit_mod_two_pow, Nat.testBit_two_pow_sub_one] at htest
    rw [BitVec.getLsbD] at hbit
    simp [hbit, Nat.lt_of_not_le hlt] at htest
  · intro h
    refine Nat.eq_of_testBit_eq fun j => ?_
    rw [Nat.testBit_mod_two_pow, Nat.testBit_two_pow_sub_one]
    by_cases hj : j < i
    · have hbit := getLsbD_of_lt_countrOne (lt_of_lt_of_le hj h)
      rw [BitVec.getLsbD] at hbit
      simp [hj, hbit]
    · simp [hj]

theorem getLsbD_and_add_one (x : BitVec w) (i : ℕ) :
    (x &&& (x + 1)).getLsbD i = (x.getLsbD i && decide (countrOne x ≤ i)) := by
  rcases Nat.lt_or_ge i w with hi | hi
  · rw [BitVec.getLsbD_and, BitVec.getLsbD_add hi]
    have hw : 1 % 2 ^ w = 1 := Nat.mod_eq_of_lt (Nat.one_lt_two_pow (by omega))
    have hnat : (1 : BitVec w).toNat = 1 := by simpa using hw
    have hcarry : BitVec.carry i x 1 false = decide (0 < i ∧ i ≤ countrOne x) := by
      rw [Bool.eq_iff_iff, decide_eq_true_iff]
      have hlt := Nat.mod_lt x.toNat (Nat.two_pow_pos i)
      rw [← toNat_mod_eq_iff x hi.le, BitVec.carry, decide_eq_true_iff, hnat]
      rcases Nat.eq_zero_or_pos i with rfl | hpos
      · simp [Nat.mod_one]
      · rw [Nat.mod_eq_of_lt (Nat.one_lt_two_pow hpos.ne')]
        simp only [Bool.toNat_false]
        omega
    have hone : (1 : BitVec w).getLsbD i = decide (i = 0) := by
      rw [BitVec.getLsbD, hnat, Bool.eq_iff_iff, decide_eq_true_iff]
      exact Nat.testBit_one_eq_true_iff_self_eq_zero
    cases hx : x.getLsbD i with
    | false => rfl
    | true =>
      have hne : i ≠ countrOne x := by
        rintro rfl
        rw [getLsbD_countrOne hi] at hx
        cases hx
      rw [hcarry, hone]
      rcases Nat.lt_or_gt_of_ne hne with hlt | hgt
      · rcases Nat.eq_zero_or_pos i with rfl | hpos
        · simp [hlt.ne']
        · have hnot : ¬countrOne x ≤ i := by omega
          simp [hpos, hpos.ne', hlt.le, hnot]
      · have hnot : ¬i ≤ countrOne x := by omega
        have hpos : i ≠ 0 := by omega
        simp [hnot, hpos, hgt.le]
  · rw [BitVec.getLsbD_of_ge _ _ hi, BitVec.getLsbD_of_ge _ _ hi, Bool.false_and]

/-! ## Rotations -/

theorem getLsbD_rotate (x : BitVec w) (r : ℕ) {i : ℕ} (hi : i < w) :
    (x.rotateRight r).getLsbD i = x.getLsbD ((i + r) % w) := by
  have hr := Nat.mod_lt r (show 0 < w by omega)
  have hmod : (i + r) % w = (i + r % w) % w := by rw [Nat.add_mod_mod]
  rw [BitVec.getLsbD_rotateRight, hmod]
  by_cases hlt : i < w - r % w
  · rw [decide_eq_true hlt, cond_true, Nat.mod_eq_of_lt (show i + r % w < w by omega), Nat.add_comm]
  · rw [decide_eq_false hlt, cond_false, decide_eq_true hi, Bool.true_and,
      Nat.mod_eq_sub_mod (show w ≤ i + r % w by omega),
      Nat.mod_eq_of_lt (show i + r % w - w < w by omega)]
    congr 1
    omega

/-! ## Periods -/

/-- **Runs that repeat.** -/
theorem run_periodic {b : ℕ → Bool} {w e o : ℕ} (hw : 0 < w) (hb : ∀ i, b (i + w) = b i)
    (he : ∀ i, b (i + e) = b i) (ho : 0 < o) (hoe : o < e)
    (hones : ∀ i < o, b i = true) (hzeros : ∀ i, o ≤ i → i < e → b i = false)
    (hlast : b (w - 1) = false) :
    e ∣ w ∧ ∀ i, b i = decide (i % e < o) := by
  have hmul : ∀ {p : ℕ}, (∀ i, b (i + p) = b i) → ∀ k i, b (i + k * p) = b i := by
    intro p hp k i
    induction k with
    | zero => rw [Nat.zero_mul, Nat.add_zero]
    | succ k ih => rw [Nat.succ_mul, ← Nat.add_assoc, hp, ih]
  have hmod : ∀ {p : ℕ}, (∀ i, b (i + p) = b i) → ∀ i, b (i % p) = b i := by
    intro p hp i
    conv_rhs => rw [← Nat.mod_add_div i p, Nat.mul_comm, hmul hp]
  -- the greatest common divisor is a period as well
  have hgcd : ∀ i, b (i + Nat.gcd e w) = b i := by
    intro i
    rcases Nat.lt_or_ge (Nat.gcd e w) w with hlt | hge
    · obtain ⟨m, -, hm⟩ := Nat.exists_mul_mod_eq_gcd hlt
      have hsplit : i + Nat.gcd e w + e * m / w * w = i + m * e := by
        rw [← hm, Nat.add_assoc, Nat.mul_comm (e * m / w), Nat.mod_add_div, Nat.mul_comm]
      rw [← hmul hb (e * m / w) (i + Nat.gcd e w), hsplit, hmul he]
    · have heq : Nat.gcd e w = w := Nat.le_antisymm (Nat.gcd_le_right e hw) hge
      rw [heq, hb]
  have hg : 0 < Nat.gcd e w := Nat.gcd_pos_of_pos_right e hw
  have hge : Nat.gcd e w = e := by
    by_contra hne
    have hlt : Nat.gcd e w < e := lt_of_le_of_ne (Nat.gcd_le_left w (by omega)) hne
    have hfirst : b (Nat.gcd e w) = true := by
      have h0 := hgcd 0
      rw [Nat.zero_add] at h0
      rw [h0, hones 0 ho]
    have hshort : Nat.gcd e w < o := by
      by_contra hle
      rw [hzeros _ (Nat.le_of_not_lt hle) hlt] at hfirst
      cases hfirst
    have hall := hmod hgcd (w - 1)
    rw [hones _ ((Nat.mod_lt _ hg).trans hshort), hlast] at hall
    cases hall
  refine ⟨hge ▸ Nat.gcd_dvd_right e w, fun i => ?_⟩
  rw [← hmod he i]
  by_cases hi : i % e < o
  · rw [hones _ hi, decide_eq_true hi]
  · rw [hzeros _ (Nat.le_of_not_lt hi) (Nat.mod_lt i (by omega)), decide_eq_false hi]

end BitRuns
