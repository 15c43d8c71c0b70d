import Mathlib.Algebra.Order.Ring.Int
import Mathlib.Algebra.Order.Ring.Nat
import Mathlib.Tactic.Linarith
import Mathlib.Tactic.Ring

/-!
# Division by multiplication with a reciprocal

A quotient `n / d` is computed as `n * M / N` for a multiplier `M` next to `N / d`.

* `mul_div_eq`, `lt_mul_and_mul_le`: `M` is rounded up, `M * d = N + δ`. What matters is the product
  `n * δ`, above all for the numbers `n` just below a multiple of `d` (`error_lt`).
* `signed_mul_div_eq`: the same for integers, with the quotient rounded towards zero.
* `succ_mul_div_eq`: `M` is rounded down, and `n + 1` is multiplied.
* `gap_two_mul_le`: the gap `d - a % d` is at most doubled when `a` is doubled.
-/

set_option autoImplicit false

namespace ReciprocalDivision

variable {N M d n : ℕ}

section RoundUp

variable {δ : ℕ}

/-- **The product with a reciprocal that is rounded up.** -/
theorem mul_div_eq (hd : 0 < d) (hM : M * d = N + δ) (h : n % d * N + n * δ < d * N) :
    n * M / N = n / d := by
  have hn : d * (n / d) + n % d = n := Nat.div_add_mod n d
  have hprod : n * M * d = n * N + n * δ := by rw [mul_assoc, hM, mul_add]
  have hsplit : n * N = n / d * N * d + n % d * N := by
    calc n * N = (d * (n / d) + n % d) * N := by rw [hn]
      _ = n / d * N * d + n % d * N := by ring
  refine Nat.div_eq_of_lt_le ?_ ?_
  · refine le_of_mul_le_mul_right ?_ hd
    rw [hprod, hsplit]
    omega
  · refine lt_of_mul_lt_mul_right ?_ (Nat.zero_le d)
    rw [hprod, hsplit, Nat.succ_mul, add_mul, mul_comm N d]
    omega

theorem lt_mul_and_mul_le (hd : 0 < d) (hM : M * d = N + δ) (hn : 0 < n) (hδ : 0 < δ)
    (h : n % d * N + n * δ ≤ d * N) : n / d * N < n * M ∧ n * M ≤ (n / d + 1) * N := by
  have hn' : d * (n / d) + n % d = n := Nat.div_add_mod n d
  have hprod : n * M * d = n * N + n * δ := by rw [mul_assoc, hM, mul_add]
  have hpos : 0 < n * δ := Nat.mul_pos hn hδ
  have hsplit : n * N = n / d * N * d + n % d * N := by
    calc n * N = (d * (n / d) + n % d) * N := by rw [hn']
      _ = n / d * N * d + n % d * N := by ring
  constructor
  · refine lt_of_mul_lt_mul_right ?_ (Nat.zero_le d)
    rw [hprod, hsplit]
    omega
  · refine le_of_mul_le_mul_right ?_ hd
    rw [hprod, hsplit, add_mul, one_mul, add_mul, mul_comm N d]
    omega

theorem remainder_last_or (hd : 0 < d) :
    n % d = d - 1 ∧ d * N = n % d * N + N ∨ n % d * N + 2 * N ≤ d * N := by
  have hr : n % d < d := Nat.mod_lt n hd
  rcases eq_or_ne (n % d) (d - 1) with heq | hne
  · left
    refine ⟨heq, ?_⟩
    rw [heq, ← Nat.succ_mul]
    congr 1
    omega
  · right
    rw [← add_mul]
    exact Nat.mul_le_mul_right N (by omega)

theorem error_lt (hd : 0 < d) (hbound : n * δ < 2 * N) (hlast : n % d = d - 1 → n * δ < N) :
    n % d * N + n * δ < d * N := by
  rcases remainder_last_or (N := N) hd with ⟨heq, hsplit⟩ | hroom
  · have := hlast heq
    omega
  · omega

theorem error_le (hd : 0 < d) (hbound : n * δ < 2 * N) (hlast : n % d = d - 1 → n * δ ≤ N) :
    n % d * N + n * δ ≤ d * N := by
  rcases remainder_last_or (N := N) hd with ⟨heq, hsplit⟩ | hroom
  · have := hlast heq
    omega
  · omega

/-- **Signed division**: the floor of the product, and one more for a negative number. -/
theorem signed_mul_div_eq {n : ℤ} (hd : 0 < d) (hN : 0 < N) (hM : M * d = N + δ) (hδ : 0 < δ)
    (hpos : 0 ≤ n → n.natAbs % d * N + n.natAbs * δ < d * N)
    (hneg : n < 0 → n.natAbs % d * N + n.natAbs * δ ≤ d * N) :
    n * M / N + (if n < 0 then 1 else 0) = n.tdiv d := by
  have hN' : (0 : ℤ) < N := by exact_mod_cast hN
  rcases le_or_gt 0 n with hn | hn
  · obtain ⟨k, rfl⟩ := Int.eq_ofNat_of_zero_le hn
    have hquot : k * M / N = k / d := mul_div_eq hd hM (hpos hn)
    rw [if_neg (not_lt.mpr hn), add_zero, Int.tdiv_eq_ediv_of_nonneg hn]
    exact_mod_cast hquot
  · obtain ⟨k, hk⟩ : ∃ k : ℕ, n = -(k : ℤ) := ⟨n.natAbs, by omega⟩
    have habs : n.natAbs = k := by omega
    have hmagnitude := hneg hn
    rw [habs] at hmagnitude
    obtain ⟨hlow, hhigh⟩ := lt_mul_and_mul_le hd hM (by omega) hδ hmagnitude
    have hlow' : (k / d : ℤ) * N < k * M := by exact_mod_cast hlow
    have hhigh' : (k * M : ℤ) ≤ (k / d + 1) * N := by exact_mod_cast hhigh
    have hfloor : -(k : ℤ) * M / N = -(k / d + 1) := by
      refine le_antisymm (Int.le_of_lt_add_one ?_) ?_
      · rw [Int.ediv_lt_iff_lt_mul hN']
        linarith
      · rw [Int.le_ediv_iff_mul_le hN']
        linarith
    rw [if_pos hn, hk, hfloor, Int.neg_tdiv, Int.tdiv_eq_ediv_of_nonneg (Int.natCast_nonneg k)]
    ring

end RoundUp

/-- **The product with a reciprocal that is rounded down.** -/
theorem succ_mul_div_eq {f : ℕ} (hd : 0 < d) (hM : M * d + f = N) (hf : 0 < f)
    (h : (n + 1) * f ≤ (n % d + 1) * N) : (n + 1) * M / N = n / d := by
  have hr : n % d < d := Nat.mod_lt n hd
  have hn : d * (n / d) + n % d = n := Nat.div_add_mod n d
  have hprod : (n + 1) * M * d + (n + 1) * f = (n + 1) * N := by rw [mul_assoc, ← mul_add, hM]
  have hsplit : (n + 1) * N = n / d * N * d + (n % d + 1) * N := by
    calc (n + 1) * N = (d * (n / d) + n % d + 1) * N := by rw [hn]
      _ = n / d * N * d + (n % d + 1) * N := by ring
  refine Nat.div_eq_of_lt_le ?_ ?_
  · refine le_of_mul_le_mul_right ?_ hd
    omega
  · have hpos : 0 < (n + 1) * f := Nat.mul_pos (Nat.succ_pos n) hf
    have hle : (n % d + 1) * N ≤ d * N := Nat.mul_le_mul_right N hr
    have hnext : (n / d + 1) * N * d = n / d * N * d + d * N := by ring
    refine lt_of_mul_lt_mul_right ?_ (Nat.zero_le d)
    rw [hnext]
    omega

/-! ## Doubling -/

theorem two_mul_div (a : ℕ) (hd : 0 < d) :
    2 * a / d = if d ≤ 2 * (a % d) then 2 * (a / d) + 1 else 2 * (a / d) := by
  have hr : a % d < d := Nat.mod_lt a hd
  have ha : 2 * a = 2 * (a / d) * d + 2 * (a % d) := by
    calc 2 * a = 2 * (d * (a / d) + a % d) := by rw [Nat.div_add_mod a d]
      _ = 2 * (a / d) * d + 2 * (a % d) := by ring
  split
  · refine Nat.div_eq_of_lt_le ?_ ?_
    · linarith
    · linarith
  · refine Nat.div_eq_of_lt_le ?_ ?_
    · linarith [Nat.zero_le (a % d)]
    · linarith

theorem two_mul_mod (a : ℕ) (hd : 0 < d) :
    2 * a % d = if d ≤ 2 * (a % d) then 2 * (a % d) - d else 2 * (a % d) := by
  have hr : a % d < d := Nat.mod_lt a hd
  have hsum : 2 * (a % d) % d = 2 * a % d := Nat.mul_mod_mod 2 a d
  rw [← hsum]
  split
  · next hle => rw [Nat.mod_eq_sub_mod hle, Nat.mod_eq_of_lt (by omega)]
  · next hlt => exact Nat.mod_eq_of_lt (by omega)

theorem gap_two_mul_le (a : ℕ) (hd : 0 < d) : d - 2 * a % d ≤ 2 * (d - a % d) := by
  have hr : a % d < d := Nat.mod_lt a hd
  rw [two_mul_mod a hd]
  split <;> omega

end ReciprocalDivision
