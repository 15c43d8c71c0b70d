import Mathlib.FieldTheory.Finite.Basic
import PrimedSteam.Lib.ByteOrder

/-!
# Big numbers

Numbers are arrays of bytes, the highest one first, which are reduced by subtracting the modulus.

* `bnAdd`, `bnMul`, `bnExp`, `bnInv`: the operations. An array on the stack has 512 bytes; `none` writes beyond it.
* `bnAdd_spec`, `bnMul_spec`, `bnExp_spec`, `bnInv_spec`: they are those modulo the modulus, for reduced numbers.
* `Fits`: the numbers for which they are; the rest is in `arithmeticModular_iff`.
-/

set_option autoImplicit false

namespace BigNumber

open ByteOrder

abbrev Byte := BitVec 8

/-! ## Operations -/

/-- `bn_compare` -/
def bnCompare : List Byte → List Byte → ℤ
  | a :: as, b :: bs => if a = b then bnCompare as bs else (a.toNat : ℤ) - b.toNat
  | _, _ => 0

/-- The loop of `bn_sub_modulus`, with the borrow. -/
def subLoop : List Byte → List Byte → List Byte × Bool
  | a :: as, n :: ns =>
    let (ds, c) := subLoop as ns
    let dig := n.toNat + c.toNat
    ((a - BitVec.ofNat 8 dig) :: ds, decide (a.toNat < dig))
  | _, _ => ([], false)

/-- `bn_sub_modulus` -/
def bnSubModulus (a N : List Byte) : List Byte := (subLoop a N).1

/-- The loop of `bn_add`, with the carry. Each byte is read before it is written. -/
def addLoop : List Byte → List Byte → List Byte × Bool
  | a :: as, b :: bs =>
    let (ds, c) := addLoop as bs
    let dig := a.toNat + b.toNat + c.toNat
    (BitVec.ofNat 8 dig :: ds, decide (0x100 ≤ dig))
  | _, _ => ([], false)

/-- `bn_add` -/
def bnAdd (a b N : List Byte) : List Byte :=
  let (d, c) := addLoop a b
  let d := if c then bnSubModulus d N else d
  if 0 ≤ bnCompare d N then bnSubModulus d N else d

/-- The masks of the bits of a byte. -/
def masks : List Byte := [0x80, 0x40, 0x20, 0x10, 0x08, 0x04, 0x02, 0x01]

/-- The bits of bytes, in the order of the loops. -/
def bits (bytes : List Byte) : List Bool := bytes.flatMap fun b => masks.map fun mask => b &&& mask != 0

/-- An iteration of `bn_mul`. -/
def mulStep (b N d : List Byte) (bit : Bool) : List Byte :=
  let d := bnAdd d d N
  if bit then bnAdd d b N else d

/-- `bn_mul` -/
def bnMul (a b N : List Byte) : List Byte := (bits a).foldl (mulStep b N) (List.replicate N.length 0)

/-- An iteration of `bn_exp`. -/
def expStep (a N d : List Byte) (bit : Bool) : List Byte :=
  let t := bnMul d d N
  if bit then bnMul t a N else t

/-- A number of one byte. -/
def small (n : ℕ) (b : Byte) : List Byte := List.replicate (n - 1) 0 ++ [b]

/-- The size of the arrays. -/
def arraySize : ℕ := 512

/-- `bn_exp`: the array is for the squares, of which an exponent without bytes has none. -/
def bnExp (a N e : List Byte) : Option (List Byte) :=
  if N.length ≤ arraySize ∨ e = [] then some ((bits e).foldl (expStep a N) (small N.length 1)) else none

/-- `bn_inv` -/
def bnInv (a N : List Byte) : Option (List Byte) :=
  if N.length ≤ arraySize then bnExp a N (bnSubModulus N (small N.length 2)) else none

/-! ## Values -/

theorem littleEndian_append (l l' : List Byte) :
    littleEndian (l ++ l') = littleEndian l + 256 ^ l.length * littleEndian l' := by
  induction l with
  | nil => rw [List.nil_append, littleEndian, List.length_nil, pow_zero, one_mul, zero_add]
  | cons b l ih =>
    rw [List.cons_append, littleEndian, ih, littleEndian, List.length_cons, pow_succ]
    ring

theorem bigEndian_cons (b : Byte) (bs : List Byte) :
    bigEndian (b :: bs) = b.toNat * 256 ^ bs.length + bigEndian bs := by
  rw [bigEndian, List.reverse_cons, littleEndian_append, List.length_reverse, littleEndian, littleEndian, bigEndian]
  ring

theorem bigEndian_lt (bs : List Byte) : bigEndian bs < 256 ^ bs.length := by
  have h := littleEndian_lt bs.reverse
  rwa [List.length_reverse] at h

section Loops

variable {a b N d : List Byte} {n : ℕ}

theorem bnCompare_nonneg_iff (h : a.length = b.length) : 0 ≤ bnCompare a b ↔ bigEndian b ≤ bigEndian a := by
  induction a generalizing b with
  | nil =>
    rw [List.length_eq_zero_iff.mp h.symm]
    exact iff_of_true le_rfl le_rfl
  | cons x as ih =>
    cases b with
    | nil => cases h
    | cons y bs =>
      have hlength : as.length = bs.length := Nat.succ.inj h
      rw [bnCompare, bigEndian_cons, bigEndian_cons, hlength]
      have ha := bigEndian_lt as
      have hb := bigEndian_lt bs
      rw [hlength] at ha
      by_cases heq : x = y
      · rw [if_pos heq, ih hlength, heq]
        omega
      · have hne : x.toNat ≠ y.toNat := fun h => heq (BitVec.eq_of_toNat_eq h)
        rw [if_neg heq]
        constructor
        · intro hle
          have hlt : y.toNat + 1 ≤ x.toNat := by omega
          have hmul := Nat.mul_le_mul_right (256 ^ bs.length) hlt
          rw [Nat.add_mul] at hmul
          omega
        · intro hle
          by_contra hneg
          have hlt : x.toNat + 1 ≤ y.toNat := by omega
          have hmul := Nat.mul_le_mul_right (256 ^ bs.length) hlt
          rw [Nat.add_mul] at hmul
          omega

theorem subLoop_spec (h : a.length = N.length) : (subLoop a N).1.length = a.length ∧
    bigEndian a + (subLoop a N).2.toNat * 256 ^ a.length = bigEndian N + bigEndian (subLoop a N).1 := by
  induction a generalizing N with
  | nil =>
    rw [List.length_eq_zero_iff.mp h.symm]
    exact ⟨rfl, rfl⟩
  | cons x as ih =>
    cases N with
    | nil => cases h
    | cons y ns =>
      have hlength : as.length = ns.length := Nat.succ.inj h
      obtain ⟨hds, hvalue⟩ := ih hlength
      rw [subLoop]
      dsimp only
      generalize (subLoop as ns).2 = c at *
      refine ⟨by rw [List.length_cons, List.length_cons, hds], ?_⟩
      rw [bigEndian_cons, bigEndian_cons, bigEndian_cons, hds, ← hlength, List.length_cons, pow_succ]
      have hx := x.isLt
      have hy := y.isLt
      have hc : c.toNat ≤ 1 := Bool.toNat_le c
      have hdigit : x.toNat + (decide (x.toNat < y.toNat + c.toNat)).toNat * 256
          = y.toNat + c.toNat + (x - BitVec.ofNat 8 (y.toNat + c.toNat)).toNat := by
        rw [BitVec.toNat_sub, BitVec.toNat_ofNat]
        by_cases hlt : x.toNat < y.toNat + c.toNat
        · rw [decide_eq_true hlt, Bool.toNat_true]
          omega
        · rw [decide_eq_false hlt, Bool.toNat_false]
          omega
      generalize (decide (x.toNat < y.toNat + c.toNat)).toNat = c' at *
      generalize (x - BitVec.ofNat 8 (y.toNat + c.toNat)).toNat = digit at *
      have hmul := congrArg (fun v => v * 256 ^ as.length) hdigit
      linear_combination hmul + hvalue

theorem addLoop_spec (h : a.length = b.length) : (addLoop a b).1.length = a.length ∧
    bigEndian (addLoop a b).1 + (addLoop a b).2.toNat * 256 ^ a.length = bigEndian a + bigEndian b := by
  induction a generalizing b with
  | nil =>
    rw [List.length_eq_zero_iff.mp h.symm]
    exact ⟨rfl, rfl⟩
  | cons x as ih =>
    cases b with
    | nil => cases h
    | cons y bs =>
      have hlength : as.length = bs.length := Nat.succ.inj h
      obtain ⟨hds, hvalue⟩ := ih hlength
      rw [addLoop]
      dsimp only
      generalize (addLoop as bs).2 = c at *
      refine ⟨by rw [List.length_cons, List.length_cons, hds], ?_⟩
      rw [bigEndian_cons, bigEndian_cons, bigEndian_cons, hds, ← hlength, List.length_cons, pow_succ]
      have hx := x.isLt
      have hy := y.isLt
      have hc : c.toNat ≤ 1 := Bool.toNat_le c
      have hdigit : (BitVec.ofNat 8 (x.toNat + y.toNat + c.toNat)).toNat
          + (decide (0x100 ≤ x.toNat + y.toNat + c.toNat)).toNat * 256 = x.toNat + y.toNat + c.toNat := by
        rw [BitVec.toNat_ofNat]
        by_cases hle : 0x100 ≤ x.toNat + y.toNat + c.toNat
        · rw [decide_eq_true hle, Bool.toNat_true]
          omega
        · rw [decide_eq_false hle, Bool.toNat_false]
          omega
      generalize (decide (0x100 ≤ x.toNat + y.toNat + c.toNat)).toNat = c' at *
      generalize (BitVec.ofNat 8 (x.toNat + y.toNat + c.toNat)).toNat = digit at *
      have hmul := congrArg (fun v => v * 256 ^ as.length) hdigit
      linear_combination hmul + hvalue

/-- A number of the length of the modulus, below it. -/
structure Reduced (N d : List Byte) : Prop where
  length_eq : d.length = N.length
  lt : bigEndian d < bigEndian N

theorem length_bnSubModulus (h : a.length = N.length) : (bnSubModulus a N).length = N.length :=
  (subLoop_spec h).1.trans h

theorem bigEndian_bnSubModulus (h : a.length = N.length) (hle : bigEndian N ≤ bigEndian a) :
    bigEndian (bnSubModulus a N) = bigEndian a - bigEndian N := by
  obtain ⟨hlength, hvalue⟩ := subLoop_spec h
  have hd := bigEndian_lt (subLoop a N).1
  rw [hlength] at hd
  have hborrow : (subLoop a N).2.toNat = 0 := by
    cases hc : (subLoop a N).2 with
    | false => rfl
    | true =>
      rw [hc, Bool.toNat_true, Nat.one_mul] at hvalue
      have ha := bigEndian_lt a
      omega
  rw [hborrow, Nat.zero_mul] at hvalue
  change bigEndian (subLoop a N).1 = _
  omega

theorem bigEndian_bnSubModulus_carry (h : a.length = N.length) (hlt : bigEndian a < bigEndian N) :
    bigEndian (bnSubModulus a N) = bigEndian a + 256 ^ a.length - bigEndian N := by
  obtain ⟨hlength, hvalue⟩ := subLoop_spec h
  have hborrow : (subLoop a N).2.toNat = 1 := by
    cases hc : (subLoop a N).2 with
    | true => rfl
    | false =>
      rw [hc, Bool.toNat_false, Nat.zero_mul] at hvalue
      omega
  rw [hborrow, Nat.one_mul] at hvalue
  change bigEndian (subLoop a N).1 = _
  omega

/-- **The sum**, of numbers that are together below two moduli. -/
theorem bnAdd_spec (ha : a.length = N.length) (hb : b.length = N.length)
    (hlt : bigEndian a + bigEndian b < 2 * bigEndian N) :
    Reduced N (bnAdd a b N) ∧ bigEndian (bnAdd a b N) = (bigEndian a + bigEndian b) % bigEndian N := by
  obtain ⟨hlength, hvalue⟩ := addLoop_spec (ha.trans hb.symm)
  rw [ha] at hlength
  have hdlt := bigEndian_lt (addLoop a b).1
  rw [hlength] at hdlt
  rw [ha] at hvalue
  have hNlt := bigEndian_lt N
  have hmod : (bigEndian a + bigEndian b) % bigEndian N = if bigEndian N ≤ bigEndian a + bigEndian b then
      bigEndian a + bigEndian b - bigEndian N else bigEndian a + bigEndian b := by
    by_cases hle : bigEndian N ≤ bigEndian a + bigEndian b
    · rw [if_pos hle, Nat.mod_eq_sub_mod hle, Nat.mod_eq_of_lt (by omega)]
    · rw [if_neg hle, Nat.mod_eq_of_lt (by omega)]
  suffices hsum : (bnAdd a b N).length = N.length ∧
      bigEndian (bnAdd a b N) = (bigEndian a + bigEndian b) % bigEndian N from
    ⟨⟨hsum.1, by rw [hsum.2]; exact Nat.mod_lt _ (by omega)⟩, hsum.2⟩
  rw [hmod, bnAdd]
  dsimp only
  cases hc : (addLoop a b).2 with
  | true =>
    -- the carry is beyond the bytes
    rw [hc, Bool.toNat_true, Nat.one_mul] at hvalue
    have hsub := bigEndian_bnSubModulus_carry hlength (by omega)
    rw [hlength] at hsub
    have hlen := length_bnSubModulus hlength
    rw [if_pos rfl, if_neg (by rw [bnCompare_nonneg_iff hlen]; omega), if_pos (by omega)]
    exact ⟨hlen, by omega⟩
  | false =>
    rw [hc, Bool.toNat_false, Nat.zero_mul, Nat.add_zero] at hvalue
    rw [if_neg Bool.false_ne_true]
    by_cases hle : bigEndian N ≤ bigEndian (addLoop a b).1
    · rw [if_pos ((bnCompare_nonneg_iff hlength).mpr hle), if_pos (by omega)]
      exact ⟨length_bnSubModulus hlength, by rw [bigEndian_bnSubModulus hlength hle, hvalue]⟩
    · rw [if_neg (fun hcompare => hle ((bnCompare_nonneg_iff hlength).mp hcompare)), if_neg (by omega)]
      exact ⟨hlength, hvalue⟩

/-- The number of bits. -/
def bitsValue (v : ℕ) (bs : List Bool) : ℕ := bs.foldl (fun v bit => 2 * v + bit.toNat) v

theorem bitsValue_bits (bytes : List Byte) (v : ℕ) :
    bitsValue v (bits bytes) = v * 256 ^ bytes.length + bigEndian bytes := by
  have hbyte : ∀ n < 256, bitsValue 0 (masks.map fun mask => BitVec.ofNat 8 n &&& mask != 0) = n := by
    decide +kernel
  have hlinear : ∀ (bs : List Bool) (v : ℕ), bitsValue v bs = v * 2 ^ bs.length + bitsValue 0 bs := by
    intro bs
    induction bs with
    | nil =>
      intro v
      rw [bitsValue, List.foldl_nil, bitsValue, List.foldl_nil, List.length_nil, pow_zero, mul_one, add_zero]
    | cons bit bs ih =>
      intro v
      have hstep : ∀ v, bitsValue v (bit :: bs) = bitsValue (2 * v + bit.toNat) bs := fun _ => rfl
      rw [hstep, ih, hstep, ih (2 * 0 + bit.toNat), List.length_cons, pow_succ]
      ring
  induction bytes generalizing v with
  | nil =>
    rw [bits, List.flatMap_nil, List.length_nil, pow_zero, mul_one]
    rfl
  | cons b bytes ih =>
    have happend : bitsValue v (bits (b :: bytes))
        = bitsValue (bitsValue v (masks.map fun mask => b &&& mask != 0)) (bits bytes) := by
      rw [bits, List.flatMap_cons, bitsValue, List.foldl_append]
      rfl
    have hb := hbyte b.toNat b.isLt
    rw [BitVec.ofNat_toNat, BitVec.setWidth_eq] at hb
    rw [happend, ih, hlinear, hb, List.length_map, List.length_cons, pow_succ, bigEndian_cons]
    change (v * 2 ^ 8 + b.toNat) * _ + _ = _
    ring

theorem bigEndian_zeros_append (n : ℕ) (bytes : List Byte) :
    bigEndian (List.replicate n 0 ++ bytes) = bigEndian bytes := by
  induction n with
  | zero => rw [List.replicate_zero, List.nil_append]
  | succ n ih =>
    rw [List.replicate_succ, List.cons_append, bigEndian_cons, ih]
    exact (congrArg (· + bigEndian bytes) (Nat.zero_mul _)).trans (Nat.zero_add _)

theorem bigEndian_zero (n : ℕ) : bigEndian (List.replicate n (0 : Byte)) = 0 := by
  rw [← List.append_nil (List.replicate n 0), bigEndian_zeros_append]
  rfl

theorem small_spec (hn : 0 < n) (b : Byte) : (small n b).length = n ∧ bigEndian (small n b) = b.toNat := by
  refine ⟨?_, ?_⟩
  · rw [small, List.length_append, List.length_replicate, List.length_singleton]
    omega
  · rw [small, bigEndian_zeros_append, bigEndian_cons, List.length_nil, pow_zero, mul_one]
    rfl

/-- **The product**, of any number with one that is not above the modulus. -/
theorem bnMul_spec (hpos : 0 < bigEndian N) (hb : b.length = N.length) (hle : bigEndian b ≤ bigEndian N)
    (a : List Byte) :
    Reduced N (bnMul a b N) ∧ bigEndian (bnMul a b N) = bigEndian a * bigEndian b % bigEndian N := by
  have hloop : ∀ (bs : List Bool) (d : List Byte) (v : ℕ), Reduced N d →
      bigEndian d = v * bigEndian b % bigEndian N →
      Reduced N (bs.foldl (mulStep b N) d) ∧
        bigEndian (bs.foldl (mulStep b N) d) = bitsValue v bs * bigEndian b % bigEndian N := by
    intro bs
    induction bs with
    | nil => exact fun d v hd hv => ⟨hd, hv⟩
    | cons bit bs ih =>
      intro d v hd hv
      have hdlt := hd.lt
      obtain ⟨hdouble, hdoubleValue⟩ := bnAdd_spec hd.length_eq hd.length_eq (by omega)
      have hmod : bigEndian (bnAdd d d N) = 2 * v * bigEndian b % bigEndian N := by
        rw [hdoubleValue, hv, ← Nat.add_mod]
        congr 1
        ring
      cases bit with
      | false => exact ih _ _ hdouble hmod
      | true =>
        have hdoubleLt := hdouble.lt
        obtain ⟨hsum, hsumValue⟩ := bnAdd_spec hdouble.length_eq hb (by omega)
        refine ih _ (2 * v + 1) hsum (hsumValue.trans ?_)
        rw [hmod, Nat.mod_add_mod]
        congr 1
        ring
  obtain ⟨hreduced, hvalue⟩ := hloop (bits a) (List.replicate N.length 0) 0
    ⟨List.length_replicate, by rw [bigEndian_zero]; exact hpos⟩ (by rw [bigEndian_zero, Nat.zero_mul, Nat.zero_mod])
  rw [bitsValue_bits, Nat.zero_mul, Nat.zero_add] at hvalue
  exact ⟨hreduced, hvalue⟩

theorem length_pos_of_bigEndian (h : 0 < bigEndian N) : 0 < N.length := by
  rcases Nat.eq_zero_or_pos N.length with hzero | hpos
  · rw [List.length_eq_zero_iff.mp hzero] at h
    exact absurd h (by decide)
  · exact hpos

/-- **The power**, if the one at the beginning is below the modulus or there is a bit. -/
theorem expLoop_spec (ha : Reduced N a) (e : List Byte) (h : bits e ≠ [] ∨ 1 < bigEndian N) :
    Reduced N ((bits e).foldl (expStep a N) (small N.length 1)) ∧
      bigEndian ((bits e).foldl (expStep a N) (small N.length 1)) = bigEndian a ^ bigEndian e % bigEndian N := by
  have hpos : 0 < bigEndian N := lt_of_le_of_lt (Nat.zero_le _) ha.lt
  obtain ⟨hlength, hvalue⟩ := small_spec (length_pos_of_bigEndian hpos) 1
  change _ = 1 at hvalue
  have hloop : ∀ (bs : List Bool) (d : List Byte) (v : ℕ), d.length = N.length → bigEndian d ≤ bigEndian N →
      bigEndian d % bigEndian N = bigEndian a ^ v % bigEndian N → bs ≠ [] ∨ bigEndian d < bigEndian N →
      Reduced N (bs.foldl (expStep a N) d) ∧
        bigEndian (bs.foldl (expStep a N) d) = bigEndian a ^ bitsValue v bs % bigEndian N := by
    intro bs
    induction bs with
    | nil =>
      intro d v hd _ hv hlt
      have hless := hlt.resolve_left fun hne => hne rfl
      rw [Nat.mod_eq_of_lt hless] at hv
      exact ⟨⟨hd, hless⟩, hv⟩
    | cons bit bs ih =>
      intro d v hd hle hv _
      obtain ⟨hsquare, hsquareValue⟩ := bnMul_spec hpos hd hle d
      have hmod : bigEndian (bnMul d d N) = bigEndian a ^ (2 * v) % bigEndian N := by
        rw [hsquareValue, Nat.mul_mod, hv, ← Nat.mul_mod, ← pow_add]
        congr 2
        ring
      cases bit with
      | false =>
        exact ih _ (2 * v) hsquare.length_eq hsquare.lt.le ((congrArg (· % bigEndian N) hmod).trans
          (Nat.mod_mod _ _))
          (Or.inr hsquare.lt)
      | true =>
        obtain ⟨hproduct, hproductValue⟩ := bnMul_spec hpos ha.length_eq ha.lt.le (bnMul d d N)
        have hodd : bigEndian (bnMul (bnMul d d N) a N) = bigEndian a ^ (2 * v + 1) % bigEndian N := by
          rw [hproductValue, hmod, Nat.mod_mul_mod, pow_succ]
        exact ih _ (2 * v + 1) hproduct.length_eq hproduct.lt.le
          ((congrArg (· % bigEndian N) hodd).trans (Nat.mod_mod _ _))
          (Or.inr hproduct.lt)
  obtain ⟨hreduced, hresult⟩ := hloop (bits e) (small N.length 1) 0 hlength (by omega) (by rw [hvalue, pow_zero])
    (by rw [hvalue]; exact h)
  rw [bitsValue_bits, Nat.zero_mul, Nat.zero_add] at hresult
  exact ⟨hreduced, hresult⟩

theorem bits_eq_nil_iff (e : List Byte) : bits e = [] ↔ e = [] := by
  cases e with
  | nil => exact iff_of_true rfl rfl
  | cons b e =>
    refine iff_of_false (fun h => ?_) (List.cons_ne_nil b e)
    rw [bits, List.flatMap_cons] at h
    exact List.cons_ne_nil _ _ (List.append_eq_nil_iff.mp h).1

/-- **The power**, if what is squared fits the array, and the empty power is not taken modulo one. -/
theorem bnExp_spec (ha : Reduced N a) {e : List Byte} (hone : e = [] → bigEndian N ≠ 1)
    (hsize : e ≠ [] → N.length ≤ arraySize) :
    ∃ d, bnExp a N e = some d ∧ Reduced N d ∧ bigEndian d = bigEndian a ^ bigEndian e % bigEndian N := by
  have hlt := ha.lt
  by_cases he : e = []
  · obtain ⟨hreduced, hvalue⟩ := expLoop_spec ha e (Or.inr (by have := hone he; omega))
    exact ⟨_, if_pos (Or.inr he), hreduced, hvalue⟩
  · obtain ⟨hreduced, hvalue⟩ := expLoop_spec ha e (Or.inl (mt (bits_eq_nil_iff e).mp he))
    exact ⟨_, if_pos (Or.inl (hsize he)), hreduced, hvalue⟩

theorem bnInv_reduced (ha : Reduced N a) (hsize : N.length ≤ arraySize) (hone : bigEndian N ≠ 1) :
    Reduced N ((bnInv a N).getD []) := by
  obtain ⟨d, hd, hreduced, -⟩ := bnExp_spec ha (e := bnSubModulus N (small N.length 2)) (fun _ => hone)
    (fun _ => hsize)
  rw [bnInv, if_pos hsize, hd]
  exact hreduced

/-- **The inverse**, for a prime modulus. -/
theorem bnInv_spec (ha : Reduced N a) (hsize : N.length ≤ arraySize) (hprime : (bigEndian N).Prime)
    (hne : bigEndian a ≠ 0) :
    ∃ d, bnInv a N = some d ∧ Reduced N d ∧ bigEndian d * bigEndian a % bigEndian N = 1 := by
  have htwo := hprime.two_le
  obtain ⟨hlength, hvalue⟩ := small_spec (length_pos_of_bigEndian hprime.pos) 2
  change _ = 2 at hvalue
  have hexponent : bigEndian (bnSubModulus N (small N.length 2)) = bigEndian N - 2 := by
    rw [bigEndian_bnSubModulus hlength.symm (by omega), hvalue]
  obtain ⟨d, hd, hreduced, hpower⟩ := bnExp_spec ha (e := bnSubModulus N (small N.length 2))
    (fun _ => hprime.ne_one) (fun _ => hsize)
  refine ⟨d, by rw [bnInv, if_pos hsize, hd], hreduced, ?_⟩
  have hcoprime : (bigEndian a).Coprime (bigEndian N) :=
    (Nat.coprime_of_lt_prime hne ha.lt hprime).symm
  have hfermat := Nat.ModEq.pow_totient hcoprime
  rw [Nat.totient_prime hprime] at hfermat
  have hexp : bigEndian N - 2 + 1 = bigEndian N - 1 := by omega
  rw [hpower, hexponent, Nat.mod_mul_mod, ← pow_succ, hexp]
  exact Eq.trans hfermat (Nat.mod_eq_of_lt hprime.one_lt)

/-- The operations are those modulo the modulus. -/
structure ArithmeticModular (N a b e : List Byte) : Prop where
  add : Reduced N (bnAdd a b N) ∧ bigEndian (bnAdd a b N) = (bigEndian a + bigEndian b) % bigEndian N
  mul : Reduced N (bnMul a b N) ∧ bigEndian (bnMul a b N) = bigEndian a * bigEndian b % bigEndian N
  exp : ∃ d, bnExp a N e = some d ∧ Reduced N d ∧ bigEndian d = bigEndian a ^ bigEndian e % bigEndian N
  inv : (bigEndian N).Prime → bigEndian a ≠ 0 →
    ∃ d, bnInv a N = some d ∧ Reduced N d ∧ bigEndian d * bigEndian a % bigEndian N = 1

/-- The numbers that are written to an array on the stack fit it, and the empty power is not taken modulo one. -/
structure Fits (N a e : List Byte) : Prop where
  one : e = [] → bigEndian N ≠ 1
  exp : e ≠ [] → N.length ≤ arraySize
  inv : (bigEndian N).Prime → bigEndian a ≠ 0 → N.length ≤ arraySize

/-- **When the operations are modular** for reduced numbers: if and only if the numbers fit. -/
theorem arithmeticModular_iff (ha : Reduced N a) (hb : Reduced N b) (e : List Byte) :
    ArithmeticModular N a b e ↔ Fits N a e := by
  have hpos : 0 < bigEndian N := lt_of_le_of_lt (Nat.zero_le _) ha.lt
  have halt := ha.lt
  have hblt := hb.lt
  constructor
  · rintro ⟨-, -, ⟨d, hd, hreduced, -⟩, hinv⟩
    refine ⟨?_, ?_, ?_⟩
    · rintro rfl hone
      rw [bnExp, if_pos (Or.inr rfl)] at hd
      cases hd
      have hlt := hreduced.lt
      change bigEndian (small N.length 1) < _ at hlt
      rw [(small_spec (length_pos_of_bigEndian hpos) 1).2, hone] at hlt
      exact absurd hlt (by decide)
    · intro he
      by_contra hsize
      rw [bnExp, if_neg (not_or.mpr ⟨hsize, he⟩)] at hd
      cases hd
    · intro hprime hne
      by_contra hsize
      obtain ⟨d, hd, -⟩ := hinv hprime hne
      rw [bnInv, if_neg hsize] at hd
      cases hd
  · rintro ⟨hone, hexp, hinv⟩
    exact ⟨bnAdd_spec ha.length_eq hb.length_eq (by omega), bnMul_spec hpos hb.length_eq hblt.le a,
      bnExp_spec ha hone hexp, fun hprime hne => bnInv_spec ha (hinv hprime hne) hprime hne⟩

end Loops

end BigNumber
