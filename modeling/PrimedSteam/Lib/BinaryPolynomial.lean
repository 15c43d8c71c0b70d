import Mathlib.Data.Nat.Bitwise
import Mathlib.FieldTheory.Finite.Basic
import Mathlib.RingTheory.AdjoinRoot
import Mathlib.Tactic.FinCases

/-!
# Polynomials over two elements

The bits of a number are the coefficients of a polynomial, which is evaluated in a ring of characteristic two.

* `eval`: the polynomial of the lowest bits. The exclusive or is the sum.
* `squareMod`: the square of a polynomial, reduced by `t ^ N = t ^ k + 1`.
* **`irreducible_of_dvd`**: a polynomial of prime degree `p` without roots is irreducible if it divides
  `X ^ 2 ^ p - X`.
* `irreducible_trinomial`: this is so for `X ^ N + X ^ k + 1` if `N` squares of `X` are `X`.
-/

set_option autoImplicit false

namespace BinaryPolynomial

variable {R : Type*} [CommRing R]

/-- The polynomial of the lowest `f` bits. -/
def eval (t : R) : ℕ → ℕ → R
  | 0, _ => 0
  | f + 1, n => (if n % 2 = 1 then 1 else 0) + t * eval t f (n / 2)

/-- The bits with zeros between them. -/
def spread : ℕ → ℕ → ℕ
  | 0, _ => 0
  | f + 1, n => n % 2 + 4 * spread f (n / 2)

/-- The terms from `t ^ N` on are reduced. -/
def fold (N k n : ℕ) : ℕ := n % 2 ^ N ^^^ n / 2 ^ N ^^^ n / 2 ^ N * 2 ^ k

/-- The square of a polynomial of `N` bits. -/
def squareMod (N k n : ℕ) : ℕ := fold N k (fold N k (spread N n))

section Eval

variable (t : R)

theorem eval_zero (f : ℕ) : eval t f 0 = 0 := by
  induction f with
  | zero => rfl
  | succ f ih => rw [eval, Nat.zero_div, ih, mul_zero, add_zero, if_neg (by norm_num)]

theorem eval_add (m f n : ℕ) : eval t (m + f) n = eval t m n + t ^ m * eval t f (n / 2 ^ m) := by
  induction m generalizing n with
  | zero => rw [Nat.zero_add, eval, pow_zero, pow_zero, Nat.div_one, one_mul, zero_add]
  | succ m ih =>
    rw [Nat.add_right_comm, eval, eval, ih, Nat.div_div_eq_div_mul, pow_succ' 2 m]
    ring

theorem eval_mod (m n : ℕ) : eval t m (n % 2 ^ m) = eval t m n := by
  induction m generalizing n with
  | zero => rfl
  | succ m ih =>
    have hbit : n % 2 ^ (m + 1) % 2 = n % 2 := Nat.mod_mod_of_dvd n (dvd_pow_self 2 (Nat.succ_ne_zero m))
    have hrest : n % 2 ^ (m + 1) / 2 = n / 2 % 2 ^ m := by
      rw [pow_succ', Nat.mod_mul_right_div_self]
    rw [eval, eval, hbit, hrest, ih]

theorem eval_of_lt {m n : ℕ} (h : n < 2 ^ m) {f : ℕ} (hf : m ≤ f) : eval t f n = eval t m n := by
  obtain ⟨k, rfl⟩ := Nat.exists_eq_add_of_le hf
  rw [eval_add, Nat.div_eq_of_lt h, eval_zero, mul_zero, add_zero]

theorem eval_shift (m f n : ℕ) : eval t (m + f) (n * 2 ^ m) = t ^ m * eval t f n := by
  have hzero : eval t m (n * 2 ^ m) = 0 := by
    rw [← eval_mod, Nat.mul_mod_left, eval_zero]
  rw [eval_add, hzero, zero_add, Nat.mul_div_cancel _ (Nat.two_pow_pos m)]

variable [CharP R 2]

theorem eval_xor (f a b : ℕ) : eval t f (a ^^^ b) = eval t f a + eval t f b := by
  induction f generalizing a b with
  | zero => exact (add_zero _).symm
  | succ f ih =>
    have hbit : (if (a ^^^ b) % 2 = 1 then (1 : R) else 0) =
        (if a % 2 = 1 then 1 else 0) + if b % 2 = 1 then 1 else 0 := by
      have hxor : (a ^^^ b) % 2 = (a % 2 + b % 2) % 2 := by
        rw [← Nat.add_mod]
        exact Nat.xor_mod_two_eq
      rw [hxor]
      rcases Nat.mod_two_eq_zero_or_one a with ha | ha <;> rcases Nat.mod_two_eq_zero_or_one b with hb | hb <;>
        simp [ha, hb, CharTwo.add_self_eq_zero]
    rw [eval, eval, eval, Nat.xor_div_two, ih, hbit]
    ring

theorem eval_spread (f n : ℕ) : eval t (2 * f) (spread f n) = eval t f n ^ 2 := by
  induction f generalizing n with
  | zero => exact (zero_pow two_ne_zero).symm
  | succ f ih =>
    have hbit : (n % 2 + 4 * spread f (n / 2)) % 2 = n % 2 := by omega
    have hzero : (n % 2 + 4 * spread f (n / 2)) / 2 % 2 = 0 := by omega
    have hrest : (n % 2 + 4 * spread f (n / 2)) / 2 / 2 = spread f (n / 2) := by omega
    rw [spread, show 2 * (f + 1) = 2 * f + 1 + 1 by ring, eval, eval, eval, hbit, hzero, hrest, ih, CharTwo.add_sq,
      mul_pow, if_neg zero_ne_one]
    split_ifs <;> ring

theorem spread_lt (f n : ℕ) : spread f n < 2 ^ (2 * f) := by
  induction f generalizing n with
  | zero => exact Nat.one_pos
  | succ f ih =>
    have hlt := ih (n / 2)
    rw [spread, show 2 * (f + 1) = 2 * f + 2 by ring, pow_add]
    omega

variable {t} {N k : ℕ}

theorem eval_fold (ht : t ^ N = t ^ k + 1) (hk : k ≤ N) {m n : ℕ} (hn : n < 2 ^ (N + m)) :
    eval t (N + m) (fold N k n) = eval t (N + m) n := by
  have hlow : n % 2 ^ N < 2 ^ N := Nat.mod_lt n (Nat.two_pow_pos N)
  have hhigh : n / 2 ^ N < 2 ^ m := Nat.div_lt_of_lt_mul (by rwa [← pow_add])
  have hshift : n / 2 ^ N * 2 ^ k < 2 ^ (k + m) := by
    rw [pow_add, mul_comm]
    exact Nat.mul_lt_mul_of_pos_left hhigh (Nat.two_pow_pos k)
  rw [fold, eval_xor, eval_xor, eval_of_lt t hlow (Nat.le_add_right N m), eval_of_lt t hhigh (Nat.le_add_left m N),
    eval_of_lt t hshift (Nat.add_le_add_right hk m), eval_shift, eval_mod, eval_add, ht]
  ring

theorem fold_lt {m n : ℕ} (hn : n < 2 ^ (N + m)) : fold N k n < 2 ^ max N (k + m) := by
  have hlow : n % 2 ^ N < 2 ^ N := Nat.mod_lt n (Nat.two_pow_pos N)
  have hhigh : n / 2 ^ N < 2 ^ m := Nat.div_lt_of_lt_mul (by rwa [← pow_add])
  have hshift : n / 2 ^ N * 2 ^ k < 2 ^ (k + m) := by
    rw [pow_add, mul_comm]
    exact Nat.mul_lt_mul_of_pos_left hhigh (Nat.two_pow_pos k)
  have hle : ∀ {a b : ℕ}, a ≤ b → 2 ^ a ≤ 2 ^ b := fun h => Nat.pow_le_pow_right two_pos h
  refine Nat.xor_lt_two_pow (Nat.xor_lt_two_pow ?_ ?_) ?_
  · exact hlow.trans_le (hle (le_max_left _ _))
  · exact hhigh.trans_le (hle ((Nat.le_add_left m k).trans (le_max_right _ _)))
  · exact hshift.trans_le (hle (le_max_right _ _))

/-- **The square** of a polynomial, where the low term is below half of the degree. -/
theorem squareMod_spec (ht : t ^ N = t ^ k + 1) (hk : 2 * k ≤ N) (n : ℕ) :
    squareMod N k n < 2 ^ N ∧ eval t N (squareMod N k n) = eval t N n ^ 2 := by
  have hspread : spread N n < 2 ^ (N + N) := by
    rw [← two_mul]
    exact spread_lt N n
  have hfirst : fold N k (spread N n) < 2 ^ (N + k) := by
    refine (fold_lt hspread).trans_le (Nat.pow_le_pow_right two_pos ?_)
    omega
  have hsecond : squareMod N k n < 2 ^ N := by
    refine (fold_lt hfirst).trans_le (Nat.pow_le_pow_right two_pos ?_)
    omega
  refine ⟨hsecond, ?_⟩
  rw [← eval_of_lt t hsecond (Nat.le_add_right N k), squareMod, eval_fold ht (by omega) hfirst,
    ← eval_of_lt t hfirst (Nat.add_le_add_left (by omega : k ≤ N) N), eval_fold ht (by omega) hspread,
      ← two_mul, eval_spread]

theorem eval_iterate_squareMod (ht : t ^ N = t ^ k + 1) (hk : 2 * k ≤ N) (j n : ℕ) :
    eval t N ((squareMod N k)^[j] n) = eval t N n ^ 2 ^ j := by
  induction j with
  | zero => rw [pow_zero, pow_one]; rfl
  | succ j ih => rw [Function.iterate_succ_apply', (squareMod_spec ht hk _).2, ih, ← pow_mul, pow_succ]

end Eval

/-! ## Irreducible polynomials -/

open Polynomial

/-- **A polynomial of prime degree** without roots is irreducible if it divides `X ^ 2 ^ p - X`. -/
theorem irreducible_of_dvd {f : (ZMod 2)[X]} {p : ℕ} (hp : p.Prime) (hmonic : f.Monic) (hdegree : f.natDegree = p)
    (hroot : ∀ x, f.eval x ≠ 0) (hdvd : f ∣ X ^ 2 ^ p - X) : Irreducible f := by
  have hunit : ¬IsUnit f := fun h => by
    rw [natDegree_eq_zero_of_isUnit h] at hdegree
    exact hp.ne_zero hdegree.symm
  obtain ⟨g, hg, c, hc⟩ := WfDvdMonoid.exists_irreducible_factor hunit hmonic.ne_zero
  -- the Frobenius map of the field of `g` has the degree of `g` as its order
  have : Fact (Irreducible g) := ⟨hg⟩
  let basis := AdjoinRoot.powerBasis hg.ne_zero
  have : Module.Finite (ZMod 2) (AdjoinRoot g) := basis.finite
  have : Finite (AdjoinRoot g) := Module.finite_of_finite (ZMod 2)
  have horder := FiniteField.orderOf_frobeniusAlgHom (ZMod 2) (AdjoinRoot g)
  have hfinrank : Module.finrank (ZMod 2) (AdjoinRoot g) = g.natDegree := by
    rw [basis.finrank, AdjoinRoot.powerBasis_dim]
  have hfrobenius : FiniteField.frobeniusAlgHom (ZMod 2) (AdjoinRoot g) ^ p = 1 := by
    refine AdjoinRoot.algHom_ext ?_
    have hzero : AdjoinRoot.mk g (X ^ 2 ^ p - X) = 0 := AdjoinRoot.mk_eq_zero.mpr ((Dvd.intro c hc.symm).trans hdvd)
    rw [map_sub, map_pow, AdjoinRoot.mk_X, sub_eq_zero] at hzero
    rw [AlgHom.coe_pow, FiniteField.coe_frobeniusAlgHom, pow_iterate, ZMod.card]
    exact hzero
  have hdiv : g.natDegree ∣ p := by
    rw [← hfinrank, ← horder]
    exact orderOf_dvd_of_pow_eq_one hfrobenius
  have hcne : c ≠ 0 := fun h => hmonic.ne_zero (by rw [hc, h, mul_zero])
  have hsum : g.natDegree + c.natDegree = p := by
    rw [← natDegree_mul hg.ne_zero hcne, ← hc, hdegree]
  rcases (Nat.dvd_prime hp).mp hdiv with hone | hsame
  · obtain ⟨x, hx⟩ := exists_root_of_degree_eq_one ((degree_eq_iff_natDegree_eq_of_pos one_pos).mpr hone)
    exact absurd (by rw [hc, eval_mul, hx.eq_zero, zero_mul]) (hroot x)
  · have hconstant : IsUnit c := by
      rw [isUnit_iff_degree_eq_zero, degree_eq_natDegree hcne]
      have hzero : c.natDegree = 0 := by omega
      rw [hzero]
      rfl
    rw [hc]
    exact (irreducible_mul_isUnit hconstant).mpr hg

/-- Polynomials below the degree are different modulo a polynomial. -/
theorem eq_of_mk_eq {f p q : (ZMod 2)[X]} (h : AdjoinRoot.mk f p = AdjoinRoot.mk f q)
    (hdegree : (p - q).degree < f.degree) : p = q :=
  sub_eq_zero.mp (eq_zero_of_dvd_of_degree_lt (AdjoinRoot.mk_eq_mk.mp h) hdegree)

/-- `X ^ N + X ^ k + 1` -/
noncomputable def trinomial (N k : ℕ) : (ZMod 2)[X] := X ^ N + (X ^ k + 1)

section Trinomial

variable {N k : ℕ}

theorem degree_low_lt (hk : k < N) : (X ^ k + 1 : (ZMod 2)[X]).degree < N := by
  refine (degree_add_le _ _).trans_lt (max_lt ?_ ?_)
  · rw [degree_X_pow]
    exact_mod_cast hk
  · rw [degree_one]
    exact_mod_cast Nat.zero_lt_of_lt hk

theorem trinomial_monic (hk : k < N) : (trinomial N k).Monic := monic_X_pow_add (degree_low_lt hk)

theorem natDegree_trinomial (hk : k < N) : (trinomial N k).natDegree = N := by
  rw [trinomial, natDegree_add_eq_left_of_degree_lt]
  · exact natDegree_X_pow N
  · rw [degree_X_pow]
    exact degree_low_lt hk

theorem degree_trinomial (hk : k < N) : (trinomial N k).degree = N := by
  rw [degree_eq_natDegree (trinomial_monic hk).ne_zero, natDegree_trinomial hk]

theorem charP_trinomial (hk : k < N) : CharP (AdjoinRoot (trinomial N k)) 2 := by
  have : Nontrivial (AdjoinRoot (trinomial N k)) := AdjoinRoot.nontrivial _ (by
    rw [degree_trinomial hk]
    exact_mod_cast Nat.ne_zero_of_lt hk)
  exact charP_of_injective_algebraMap (algebraMap (ZMod 2) (AdjoinRoot (trinomial N k))).injective 2

/-- The root is reduced as the trinomial says. -/
theorem root_pow (hk : k < N) : AdjoinRoot.root (trinomial N k) ^ N = AdjoinRoot.root (trinomial N k) ^ k + 1 := by
  have hzero : AdjoinRoot.mk (trinomial N k) (trinomial N k) = 0 := AdjoinRoot.mk_self
  change AdjoinRoot.mk (trinomial N k) (X ^ N + (X ^ k + 1)) = 0 at hzero
  simp only [map_add, map_pow, AdjoinRoot.mk_X, map_one] at hzero
  have := charP_trinomial hk
  exact CharTwo.add_eq_zero.mp hzero

/-- **A trinomial is irreducible** if its degree is prime and as many squares of `X` are `X`. -/
theorem irreducible_trinomial (hN : N.Prime) (hk : 0 < k) (hhalf : 2 * k ≤ N)
    (hsquares : (squareMod N k)^[N] 2 = 2) :
    Irreducible (trinomial N k) := by
  have hlt : k < N := by omega
  refine irreducible_of_dvd hN (trinomial_monic hlt) (natDegree_trinomial hlt) (fun x => ?_) ?_
  · rw [trinomial]
    simp only [Polynomial.eval_add, eval_pow, eval_X, eval_one]
    fin_cases x
    · change (0 : ZMod 2) ^ N + (0 ^ k + 1) ≠ 0
      rw [zero_pow hN.ne_zero, zero_pow hk.ne', zero_add, zero_add]
      decide
    · change (1 : ZMod 2) ^ N + (1 ^ k + 1) ≠ 0
      rw [one_pow, one_pow]
      decide
  · have := charP_trinomial hlt
    have hiterate := eval_iterate_squareMod (root_pow hlt) hhalf N 2
    have htwo : BinaryPolynomial.eval (AdjoinRoot.root (trinomial N k)) N 2 = AdjoinRoot.root (trinomial N k) := by
      rw [eval_of_lt (m := 2) _ (by norm_num) hN.two_le, BinaryPolynomial.eval, BinaryPolynomial.eval,
        BinaryPolynomial.eval]
      norm_num
    rw [hsquares, htwo] at hiterate
    rw [← AdjoinRoot.mk_eq_zero, map_sub, map_pow, AdjoinRoot.mk_X, sub_eq_zero]
    exact hiterate.symm

end Trinomial

end BinaryPolynomial
