import Mathlib.AlgebraicGeometry.EllipticCurve.Affine.Point
import PrimedSteam.Crypto.BinaryField

/-!
# The group of the curve

The points that the code adds are those of `y ^ 2 + x * y = x ^ 3 + x ^ 2 + b`; the bytes of zero stand for
the point at
infinity.

* `Stands`: the bytes of a point of the curve.
* `stands_double`, `stands_add`: doubling and adding are those of the group.
* **`Point.group_operations`**: so are the multiples by the numbers of bytes.
* **`sharedSecret_comm`**: two keys have one shared secret.
-/

set_option autoImplicit false

namespace EllipticCurve

open ByteOrder BigNumber Elt WeierstrassCurve.Affine

noncomputable section

instance : DecidableEq BinaryField := Classical.decEq _

/-- The curve with the last coefficient `b`. -/
def curve (b : BinaryField) : WeierstrassCurve.Affine BinaryField := ⟨1, 1, 0, 0, b⟩

namespace Point

variable {b : BinaryField}

/-- The coordinates of a point, which are zero at infinity. -/
def coordinates : (curve b).Point → BinaryField × BinaryField
  | .zero => (0, 0)
  | .some x y _ => (x, y)

/-- The bytes of a point of the curve. -/
structure Stands (p : Point) (P : (curve b).Point) : Prop where
  clear : p.Clear
  x_eq : toField p.x = (coordinates P).1
  y_eq : toField p.y = (coordinates P).2

theorem equation_iff' {x y : BinaryField} : (curve b).Equation x y ↔ y ^ 2 + x * y = x ^ 3 + x ^ 2 + b := by
  rw [equation_iff, curve]
  simp only [one_mul, zero_mul, add_zero]

theorem negY_eq (x y : BinaryField) : (curve b).negY x y = y + x := by
  rw [negY, curve]
  simp only [one_mul, CharTwo.sub_eq_add, CharTwo.neg_eq, add_zero]

theorem coordinates_ne (hb : b ≠ 0) {x y : BinaryField} (h : (curve b).Nonsingular x y) : ¬(x = 0 ∧ y = 0) := by
  rintro ⟨rfl, rfl⟩
  have hequation := equation_iff'.mp h.1
  refine hb ?_
  linear_combination -hequation

variable {p q : Point} {P Q : (curve b).Point}

theorem Stands.isZero_iff (hb : b ≠ 0) (h : Stands p P) : p.isZero = true ↔ P = 0 := by
  rw [isZero, Bool.and_eq_true, Elt.isZero_iff h.clear.x_clear, Elt.isZero_iff h.clear.y_clear, h.x_eq, h.y_eq]
  cases P with
  | zero => exact iff_of_true ⟨rfl, rfl⟩ rfl
  | some x y hxy => exact iff_of_false (coordinates_ne hb hxy) (WeierstrassCurve.Affine.Point.some_ne_zero hxy)

theorem stands_zero : Stands Point.zero (0 : (curve b).Point) := ⟨zero_clear, toField_zero, toField_zero⟩

theorem slope_double {x y : BinaryField} (hx : x ≠ 0) : (curve b).slope x x y y = y / x + x := by
  have hne : y ≠ (curve b).negY x y := by
    rw [negY_eq]
    exact fun h => hx (add_eq_left.mp h.symm)
  rw [slope_of_Y_ne rfl hne, negY_eq]
  have htwo : (2 : BinaryField) = 0 := CharTwo.two_eq_zero
  have hden : y - (y + x) = x := by
    linear_combination -x * htwo
  rw [hden, curve]
  field_simp
  linear_combination (x ^ 2 + x - y) * htwo

/-- **`Double`** adds a point to itself. -/
theorem stands_double (h : Stands p P) : Stands p.double (P + P) := by
  have htwo : (2 : BinaryField) = 0 := CharTwo.two_eq_zero
  rw [double]
  cases P with
  | zero =>
    have hzero : p.x.isZero = true := (Elt.isZero_iff h.clear.x_clear).mpr h.x_eq
    rw [if_pos hzero]
    exact stands_zero
  | some x y hxy =>
    have hx : toField p.x = x := h.x_eq
    have hy : toField p.y = y := h.y_eq
    by_cases hzero : p.x.isZero = true
    · have hx0 : x = 0 := by
        rw [← hx]
        exact (Elt.isZero_iff h.clear.x_clear).mp hzero
      rw [if_pos hzero, WeierstrassCurve.Affine.Point.add_self_of_Y_eq (by rw [negY_eq, hx0, add_zero])]
      exact stands_zero
    · have hx0 : x ≠ 0 := by
        rw [← hx]
        exact fun h0 => hzero ((Elt.isZero_iff h.clear.x_clear).mpr h0)
      have hne : y ≠ (curve b).negY x y := by
        rw [negY_eq]
        exact fun heq => hx0 (add_eq_left.mp heq.symm)
      have hclear := double_clear h.clear
      rw [double, if_neg hzero] at hclear
      rw [if_neg hzero, WeierstrassCurve.Affine.Point.add_self_of_Y_ne hne]
      -- the elements of the code, one after the other
      have hdiv := div_clear p.y h.clear.x_clear
      have hs := Elt.add_clear hdiv h.clear.x_clear
      have hss := Elt.add_clear (square_clear hs.length_eq) hs
      have hslope : toField (Elt.add (div p.y p.x) p.x) = y / x + x := by
        rw [toField_add hdiv h.clear.x_clear, toField_div h.clear.y_clear h.clear.x_clear, hx, hy]
      have hrx : toField (addOne (Elt.add (square (Elt.add (div p.y p.x) p.x)) (Elt.add (div p.y p.x) p.x))) =
          (y / x + x) ^ 2 + (y / x + x) + 1 := by
        rw [toField_addOne hss, toField_add (square_clear hs.length_eq) hs, toField_square hs, hslope]
      have haddX : (curve b).addX x x ((curve b).slope x x y y) = (y / x + x) ^ 2 + (y / x + x) + 1 := by
        rw [slope_double hx0, addX, curve]
        linear_combination (-1 - x) * htwo
      refine ⟨hclear, hrx.trans haddX.symm, ?_⟩
      have hx' := addOne_clear hss
      change toField (Elt.add (Elt.add (mul _ _) _) (square p.x)) = (curve b).addY x x y ((curve b).slope x x y y)
      rw [toField_add (Elt.add_clear (mul_clear _ hx') hx') (square_clear h.clear.x_clear.length_eq),
        toField_add (mul_clear _ hx') hx', toField_mul hs hx', toField_square h.clear.x_clear, hslope, hrx, hx, addY,
        negAddY, negY_eq, haddX, slope_double hx0]
      have hmul : (y / x + x) * x = y + x ^ 2 := by
        field_simp
      linear_combination hmul + x ^ 2 * htwo

/-- **`operator+`** is the sum. -/
theorem stands_add (hb : b ≠ 0) (hp : Stands p P) (hq : Stands q Q) : Stands (add p q) (P + Q) := by
  have htwo : (2 : BinaryField) = 0 := CharTwo.two_eq_zero
  have hclear := add_clear hp.clear hq.clear
  rw [add] at hclear ⊢
  dsimp only at hclear ⊢
  by_cases hpzero : p.isZero = true
  · rw [if_pos hpzero, (hp.isZero_iff hb).mp hpzero, zero_add]
    exact hq
  by_cases hqzero : q.isZero = true
  · rw [if_neg hpzero, if_pos hqzero, (hq.isZero_iff hb).mp hqzero, add_zero]
    exact hp
  rw [if_neg hpzero, if_neg hqzero] at hclear ⊢
  cases P with
  | zero => exact absurd ((hp.isZero_iff hb).mpr rfl) hpzero
  | some x y hxy =>
    cases Q with
    | zero => exact absurd ((hq.isZero_iff hb).mpr rfl) hqzero
    | some x' y' hxy' =>
      have hx : toField p.x = x := hp.x_eq
      have hy : toField p.y = y := hp.y_eq
      have hx' : toField q.x = x' := hq.x_eq
      have hy' : toField q.y = y' := hq.y_eq
      have hux := Elt.add_clear hp.clear.x_clear hq.clear.x_clear
      have huy := Elt.add_clear hp.clear.y_clear hq.clear.y_clear
      have hu : toField (Elt.add p.x q.x) = x + x' := by
        rw [toField_add hp.clear.x_clear hq.clear.x_clear, hx, hx']
      have hv : toField (Elt.add p.y q.y) = y + y' := by
        rw [toField_add hp.clear.y_clear hq.clear.y_clear, hy, hy']
      have huzero : (Elt.add p.x q.x).isZero = true ↔ x = x' := by
        rw [Elt.isZero_iff hux, hu, CharTwo.add_eq_zero]
      have hvzero : (Elt.add p.y q.y).isZero = true ↔ y = y' := by
        rw [Elt.isZero_iff huy, hv, CharTwo.add_eq_zero]
      by_cases hxx : x = x'
      · rw [if_pos (huzero.mpr hxx)]
        by_cases hyy : y = y'
        · subst hxx hyy
          rw [if_pos (hvzero.mpr rfl)]
          exact stands_double hp
        · have hneg := (Y_eq_of_X_eq hxy.1 hxy'.1 hxx).resolve_left hyy
          rw [if_neg (mt hvzero.mp hyy), WeierstrassCurve.Affine.Point.add_of_Y_eq hxx hneg]
          exact stands_zero
      · rw [if_neg (mt huzero.mp hxx)] at hclear ⊢
        rw [WeierstrassCurve.Affine.Point.add_of_X_ne hxx]
        have hne : x + x' ≠ 0 := mt CharTwo.add_eq_zero.mp hxx
        have hslope : (curve b).slope x x' y y' = (y + y') / (x + x') := by
          rw [slope_of_X_ne hxx, CharTwo.sub_eq_add, CharTwo.sub_eq_add]
        -- the elements of the code, one after the other
        have hs := div_clear (Elt.add p.y q.y) hux
        have hss := Elt.add_clear (square_clear hs.length_eq) hs
        have hssx := Elt.add_clear hss hq.clear.x_clear
        have ht := addOne_clear hssx
        have hsvalue : toField (div (Elt.add p.y q.y) (Elt.add p.x q.x)) = (y + y') / (x + x') := by
          rw [toField_div huy hux, hu, hv]
        generalize div (Elt.add p.y q.y) (Elt.add p.x q.x) = s at hs hss hssx ht hsvalue hclear ⊢
        generalize (y + y') / (x + x') = l at hslope hsvalue
        have htvalue : toField (addOne (Elt.add (Elt.add (square s) s) q.x)) = l ^ 2 + l + x' + 1 := by
          rw [toField_addOne hssx, toField_add hss hq.clear.x_clear, toField_add (square_clear hs.length_eq) hs,
            toField_square hs, hsvalue, hx']
        have haddX : (curve b).addX x x' ((curve b).slope x x' y y') = l ^ 2 + l + x' + 1 + x := by
          rw [hslope, addX, curve]
          linear_combination (-1 - x - x') * htwo
        have hrx : toField (Elt.add (addOne (Elt.add (Elt.add (square s) s) q.x)) p.x) = l ^ 2 + l + x' + 1 + x := by
          rw [toField_add ht hp.clear.x_clear, htvalue, hx]
        refine ⟨hclear, hrx.trans haddX.symm, ?_⟩
        have hrxclear := Elt.add_clear ht hp.clear.x_clear
        change toField (Elt.add (Elt.add (mul s _) p.y) _) = (curve b).addY x x' y ((curve b).slope x x' y y')
        rw [toField_add (Elt.add_clear (mul_clear _ ht) hp.clear.y_clear) hrxclear,
          toField_add (mul_clear _ ht) hp.clear.y_clear, toField_mul hs ht, hsvalue, htvalue, hrx, hy, addY, negAddY,
          negY_eq, haddX, hslope]
        ring

/-- **`operator*`** is the multiple of a point of the curve by the number of the bytes. -/
theorem stands_nsmul (hb : b ≠ 0) (h : Stands p P) (bytes : List Byte) :
    Stands (scalarMul bytes p) (bigEndian bytes • P) := by
  have hloop : ∀ (bs : List Bool) (d : Point) (v : ℕ), Stands d (v • P) →
      Stands (bs.foldl (fun d bit => let d := d.double; if bit then add d p else d) d) (bitsValue v bs • P) := by
    intro bs
    induction bs with
    | nil => exact fun d v hd => hd
    | cons bit bs ih =>
      intro d v hd
      have hdouble : Stands d.double ((2 * v) • P) := by
        rw [two_mul, add_nsmul]
        exact stands_double hd
      cases bit with
      | false => exact ih _ _ hdouble
      | true =>
        refine ih _ (2 * v + 1) ?_
        rw [add_nsmul, one_nsmul]
        exact stands_add hb hdouble h
  have hstart : Stands Point.zero (0 • P) := by
    rw [zero_nsmul]
    exact stands_zero
  have hbits := hloop (bits bytes) Point.zero 0 hstart
  rwa [bitsValue_bits, Nat.zero_mul, Nat.zero_add] at hbits

/-- **The operations are those of the group**: the double, the sum and the multiples. -/
theorem group_operations (hb : b ≠ 0) (hp : Stands p P) (hq : Stands q Q) (bytes : List Byte) :
    Stands p.double (P + P) ∧ Stands (add p q) (P + Q) ∧ Stands (scalarMul bytes p) (bigEndian bytes • P) :=
  ⟨stands_double hp, stands_add hb hp hq, stands_nsmul hb hp bytes⟩

theorem Stands.unique (hp : Stands p P) (hq : Stands q P) : p = q := by
  obtain ⟨px, py⟩ := p
  obtain ⟨qx, qy⟩ := q
  have hx : px = qx := (toField_inj hp.clear.x_clear hq.clear.x_clear).mp (hp.x_eq.trans hq.x_eq.symm)
  have hy : py = qy := (toField_inj hp.clear.y_clear hq.clear.y_clear).mp (hp.y_eq.trans hq.y_eq.symm)
  rw [hx, hy]

end Point

/-! ## Shared secrets -/

/-- `PrivToPub` -/
def privToPub (key : List Byte) : Point := Point.scalarMul key ecG

/-- `ComputeSharedSecret`, with the point of the public key. -/
def computeSharedSecret (privateKey : List Byte) (publicKey : Point) : Point := Point.scalarMul privateKey publicKey

/-- `ec_b` -/
def ecB : Elt :=
  [0x00, 0x66, 0x64, 0x7e, 0xde, 0x6c, 0x33, 0x2c, 0x7f, 0x8c, 0x09, 0x23, 0xbb, 0x58, 0x21, 0x3b, 0x33,
    0x3b, 0x20, 0xe9,
    0xce, 0x42, 0x81, 0xfe, 0x11, 0x5f, 0x7d, 0x8f, 0x90, 0xad]

theorem ecB_clear : ecB.Clear := ⟨rfl, by decide⟩

theorem ecB_ne_zero : toField ecB ≠ 0 := fun h =>
  absurd ((Elt.isZero_iff ecB_clear).mpr h) (by decide)

theorem ecG_equation : toField ecG.y ^ 2 + toField ecG.x * toField ecG.y =
    toField ecG.x ^ 3 + toField ecG.x ^ 2 + toField ecB := by
  have hx := ecG_clear.x_clear
  have hy := ecG_clear.y_clear
  have hxx := square_clear hx.length_eq
  have hbytes : Elt.add (square ecG.y) (mul ecG.x ecG.y) =
      Elt.add (Elt.add (mul (square ecG.x) ecG.x) (square ecG.x)) ecB := by decide +kernel
  have hfield := congrArg toField hbytes
  rw [toField_add (square_clear hy.length_eq) (mul_clear _ hy), toField_mul hx hy, toField_square hy,
    toField_add (Elt.add_clear (mul_clear _ hx) hxx) ecB_clear, toField_add (mul_clear _ hx) hxx, toField_mul hxx hx,
    toField_square hx] at hfield
  rw [hfield]
  ring

theorem nonsingular_of_equation {b x y : BinaryField} (hb : b ≠ 0) (h : y ^ 2 + x * y = x ^ 3 + x ^ 2 + b) :
    (curve b).Nonsingular x y := by
  have htwo : (2 : BinaryField) = 0 := CharTwo.two_eq_zero
  refine (nonsingular_iff _ _).mpr ⟨Point.equation_iff'.mpr h, ?_⟩
  by_contra hsingular
  rw [not_or, not_not, not_not] at hsingular
  obtain ⟨hderivative, hneg⟩ := hsingular
  rw [← negY, Point.negY_eq] at hneg
  have hx : x = 0 := add_eq_left.mp hneg.symm
  rw [curve] at hderivative
  have hy : y = 0 := by
    rw [hx] at hderivative
    linear_combination hderivative
  refine hb ?_
  rw [hx, hy] at h
  linear_combination -h

/-- `ec_G` as a point of the group -/
def basePoint : (curve (toField ecB)).Point :=
  .some _ _ (nonsingular_of_equation ecB_ne_zero ecG_equation)

theorem stands_ecG : Point.Stands ecG basePoint := ⟨ecG_clear, rfl, rfl⟩

/-- **Two keys have one shared secret**, whichever of them is kept private. -/
theorem sharedSecret_comm (key key' : List Byte) :
    computeSharedSecret key (privToPub key') = computeSharedSecret key' (privToPub key) := by
  have hpublic := Point.stands_nsmul ecB_ne_zero stands_ecG key
  have hpublic' := Point.stands_nsmul ecB_ne_zero stands_ecG key'
  have hsecret := Point.stands_nsmul ecB_ne_zero hpublic' key
  have hsecret' := Point.stands_nsmul ecB_ne_zero hpublic key'
  rw [smul_comm] at hsecret'
  exact hsecret.unique hsecret'

theorem Point.group_operations_ecG : Point.Stands ecG.double (basePoint + basePoint) ∧
    Point.Stands (Point.scalarMul [0x01, 0x02] ecG) (bigEndian [0x01, 0x02] • basePoint) :=
  have h := Point.group_operations ecB_ne_zero stands_ecG stands_ecG [0x01, 0x02]
  ⟨h.1, h.2.2⟩

end

end EllipticCurve
