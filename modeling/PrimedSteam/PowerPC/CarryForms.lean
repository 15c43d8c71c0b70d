import PrimedSteam.PowerPC.Arithmetic

/-!
# The sums of the carrying instructions

Each of the ten handlers that set XER.CA computes a sum of two values and a carry.

* `CarryForm.operands`: the sum that the architecture defines.
* `Exact`: rD, CA and OV are those of the exact sum.
* **`handlers_exact_iff`**: they are unless `addme` or `subfme` runs with CA set, where the handler
  takes the carry of a sum with `carry - 1`.
-/

set_option autoImplicit false

namespace PowerPC

open Interpreter

inductive CarryForm where
  | addic | addc | adde | addme | addze | subfic | subfc | subfe | subfme | subfze
  deriving DecidableEq

namespace CarryForm

def run : CarryForm → PPCState → Inst → PPCState
  | addic => Interpreter.addic
  | addc => addcx
  | adde => addex
  | addme => addmex
  | addze => addzex
  | subfic => Interpreter.subfic
  | subfc => subfcx
  | subfe => subfex
  | subfme => subfmex
  | subfze => subfzex

/-- The two values and the carry that are added. -/
def operands (s : PPCState) (inst : Inst) (ca : Bool) :
    CarryForm → BitVec 32 × BitVec 32 × Bool
  | addic => (s.gpr inst.ra, inst.simm16, false)
  | addc => (s.gpr inst.ra, s.gpr inst.rb, false)
  | adde => (s.gpr inst.ra, s.gpr inst.rb, ca)
  | addme => (s.gpr inst.ra, 0xFFFFFFFF, ca)
  | addze => (s.gpr inst.ra, 0, ca)
  | subfic => (~~~s.gpr inst.ra, inst.simm16, true)
  | subfc => (~~~s.gpr inst.ra, s.gpr inst.rb, true)
  | subfe => (~~~s.gpr inst.ra, s.gpr inst.rb, ca)
  | subfme => (~~~s.gpr inst.ra, 0xFFFFFFFF, ca)
  | subfze => (~~~s.gpr inst.ra, 0, ca)

/-- The form has an overflow bit. -/
def hasOE : CarryForm → Bool
  | addic | subfic => false
  | _ => true

end CarryForm

/-- `x + y + c`, exactly. -/
def exactSum (x y : BitVec 32) (c : Bool) : ℕ := x.toNat + y.toNat + c.toNat

/-- `x + y + c` of the signed values. -/
def signedSum (x y : BitVec 32) (c : Bool) : ℤ := x.toInt + y.toInt + c.toNat

/-- The registers after an instruction that adds `x`, `y` and `c`. -/
structure Exact (s : PPCState) (inst : Inst) (oe : Bool) (x y : BitVec 32) (c : Bool) : Prop where
  value : s.gpr inst.rd = BitVec.ofNat 32 (exactSum x y c)
  carry : s.getCarry = boolToU32 ((exactSum x y c).testBit 32)
  overflow : oe = true → s.getXER_OV =
    boolToU32 (decide (signedSum x y c < -2 ^ 31 ∨ 2 ^ 31 ≤ signedSum x y c))

/-! ## The arithmetic -/

section Sums

variable (x y : BitVec 32) (c : Bool)

theorem toNat_boolToU32 : (boolToU32 c).toNat = c.toNat := by
  cases c <;> rfl

theorem exactSum_value : BitVec.ofNat 32 (exactSum x y c) = x + y + boolToU32 c := by
  apply BitVec.eq_of_toNat_eq
  rw [exactSum, BitVec.toNat_ofNat, BitVec.toNat_add, BitVec.toNat_add, toNat_boolToU32]
  omega

theorem exactSum_testBit : (exactSum x y c).testBit 32 = decide (2 ^ 32 ≤ exactSum x y c) := by
  have hx := x.isLt
  have hy := y.isLt
  have hc := c.toNat_le
  have hlt : exactSum x y c < 2 ^ 33 := by
    unfold exactSum
    omega
  rw [Nat.testBit_eq_decide_div_mod_eq]
  exact decide_eq_decide.mpr (by omega)

theorem hasAddOverflowed_exact : hasAddOverflowed x y (x + y + boolToU32 c) =
    decide (signedSum x y c < -2 ^ 31 ∨ 2 ^ 31 ≤ signedSum x y c) := by
  rw [hasAddOverflowed_add x y (boolToU32 c) (by cases c <;> simp [boolToU32]), toNat_boolToU32,
    signedSum]

theorem carry_of_two : (helperCarry x y || helperCarry (x + y) (boolToU32 c)) =
    decide (2 ^ 32 ≤ exactSum x y c) := by
  rw [helperCarry_eq, helperCarry_eq, ← Bool.decide_or, toNat_boolToU32, BitVec.toNat_add, exactSum]
  have hx := x.isLt
  have hy := y.isLt
  have hc := c.toNat_le
  exact decide_eq_decide.mpr (by omega)

/-- An addition of 0xFFFFFFFF and a carry is done as one of the carry minus 1, which loses the carry
out if there is one in. -/
theorem carry_of_minus_one : helperCarry x (boolToU32 c - 1) =
    (!c && decide (2 ^ 32 ≤ exactSum x 0xFFFFFFFF c)) := by
  have hx := x.isLt
  have hones : (0xFFFFFFFF : BitVec 32).toNat = 2 ^ 32 - 1 := by decide
  rw [helperCarry_eq, exactSum, hones]
  cases c with
  | false =>
    have hminus : (boolToU32 false - 1).toNat = 2 ^ 32 - 1 := by decide
    rw [hminus, Bool.not_false, Bool.true_and]
    exact decide_eq_decide.mpr (by simp)
  | true =>
    have hzero : (boolToU32 true - 1).toNat = 0 := by decide
    rw [hzero, Bool.not_true, Bool.false_and]
    exact decide_eq_false (by omega)

theorem carry_of_ones : 2 ^ 32 ≤ exactSum x 0xFFFFFFFF true := by
  have hones : (0xFFFFFFFF : BitVec 32).toNat = 2 ^ 32 - 1 := by decide
  rw [exactSum, hones, Bool.toNat_true]
  omega

theorem carry_of_zero : helperCarry x (boolToU32 c) = decide (2 ^ 32 ≤ exactSum x 0 c) := by
  rw [helperCarry_eq, toNat_boolToU32, exactSum]
  simp

/-- The carry of a subtraction, where `x` is the complement of what is subtracted. -/
theorem carry_of_one : (x == 0xFFFFFFFF || helperCarry y (x + 1)) =
    decide (2 ^ 32 ≤ exactSum x y true) := by
  have hx := x.isLt
  have hy := y.isLt
  rw [helperCarry_eq, Bool.eq_iff_iff, Bool.or_eq_true, beq_iff_eq, decide_eq_true_iff,
    decide_eq_true_iff, BitVec.toNat_eq, exactSum, Bool.toNat_true]
  simp only [BitVec.toNat_add, BitVec.ofNat_eq_ofNat, BitVec.toNat_ofNat]
  omega

theorem carry_of_subImm : (x == 0 || helperCarry (0 - x) y) =
    decide (2 ^ 32 ≤ exactSum (~~~x) y true) := by
  have hx := x.isLt
  rw [subImm_carry, exactSum, Bool.toNat_true, BitVec.toNat_not]
  exact decide_eq_decide.mpr (by rw [BitVec.le_def]; omega)

theorem subImm_value : y - x = ~~~x + y + 1 := by
  apply BitVec.eq_of_toNat_eq
  have hx := x.isLt
  simp only [BitVec.toNat_sub, BitVec.toNat_add, BitVec.toNat_not, BitVec.ofNat_eq_ofNat,
    BitVec.toNat_ofNat]
  omega

end Sums

/-! ## The handlers -/

section Handlers

variable {s : PPCState} {inst : Inst} {value : BitVec 32} {carry overflow oe : Bool}
  {x y : BitVec 32} {c : Bool}

@[simp] theorem getCarry_setCarry (s : PPCState) (carry : Bool) :
    (s.setCarry (boolToU32 carry)).getCarry = boolToU32 carry := by
  cases carry <;> rfl

theorem boolToU32_inj {carry carry' : Bool} :
    boolToU32 carry = boolToU32 carry' ↔ carry = carry' := by
  cases carry <;> cases carry' <;> decide

theorem writeD_gpr : (writeD s inst value (some carry) overflow).gpr inst.rd = value := by
  unfold writeD
  cases inst.rc <;> cases inst.oe <;> exact PPCState.setGPR_gpr_self s inst.rd value

theorem writeD_getCarry :
    (writeD s inst value (some carry) overflow).getCarry = boolToU32 carry := by
  unfold writeD
  cases inst.rc <;> cases inst.oe <;> 
    exact getCarry_setCarry (s.setGPR inst.rd value) carry

theorem writeD_getXER_OV (hoe : inst.oe = true) :
    (writeD s inst value (some carry) overflow).getXER_OV = boolToU32 overflow := by
  unfold writeD
  rw [hoe]
  cases inst.rc <;> exact PPCState.setXER_OV_getXER_OV _ _

/-- A state that has the value and the overflow of a sum is exact iff its carry is that of the sum. -/
theorem exact_iff (hvalue : s.gpr inst.rd = x + y + boolToU32 c)
    (hcarry : s.getCarry = boolToU32 carry)
    (hoverflow : oe = true →
      s.getXER_OV = boolToU32 (hasAddOverflowed x y (x + y + boolToU32 c))) :
    Exact s inst oe x y c ↔ carry = decide (2 ^ 32 ≤ exactSum x y c) := by
  constructor
  · intro hexact
    have heq := hexact.carry
    rwa [hcarry, exactSum_testBit, boolToU32_inj] at heq
  · intro heq
    refine ⟨?_, ?_, ?_⟩
    · rw [hvalue, exactSum_value]
    · rw [hcarry, exactSum_testBit, heq]
    · intro hoe
      rw [hoverflow hoe, hasAddOverflowed_exact]

/-- A handler that writes a sum with `writeD` is exact iff the carry that it passes is. -/
theorem exact_writeD_iff (hvalue : value = x + y + boolToU32 c) :
    Exact (writeD s inst value (some carry) (hasAddOverflowed x y value)) inst
      (true && inst.oe) x y c ↔ carry = decide (2 ^ 32 ≤ exactSum x y c) := by
  refine exact_iff (writeD_gpr.trans hvalue) writeD_getCarry fun hoe => ?_
  rw [Bool.true_and] at hoe
  rw [writeD_getXER_OV hoe, hvalue]

end Handlers

/-! ## The carries -/

namespace CarryForm

/-- The result of a form is exact, with the operands of the form. -/
def ExactOn (form : CarryForm) (s : PPCState) (inst : Inst) (ca : Bool) : Prop :=
  Exact (form.run (s.setCarry (boolToU32 ca)) inst) inst (form.hasOE && inst.oe)
    (form.operands s inst ca).1 (form.operands s inst ca).2.1 (form.operands s inst ca).2.2

variable (s : PPCState) (inst : Inst) (ca : Bool)

theorem addic_exact : addic.ExactOn s inst ca := by
  have hoe : (addic.hasOE && inst.oe) ≠ true := Bool.false_ne_true
  rw [ExactOn, run, Interpreter.addic]
  refine (exact_iff ?_ (getCarry_setCarry _ _) (absurd · hoe)).mpr (helperCarry_eq _ _)
  exact (PPCState.setGPR_gpr_self _ _ _).trans (BitVec.add_zero _).symm

theorem subfic_exact : subfic.ExactOn s inst ca := by
  have hoe : (subfic.hasOE && inst.oe) ≠ true := Bool.false_ne_true
  rw [ExactOn, run, Interpreter.subfic]
  refine (exact_iff ?_ (getCarry_setCarry _ _) (absurd · hoe)).mpr (carry_of_subImm _ _)
  exact (PPCState.setGPR_gpr_self _ _ _).trans (subImm_value _ _)

theorem addc_exact : addc.ExactOn s inst ca :=
  (exact_writeD_iff (BitVec.add_zero _).symm).mpr (helperCarry_eq _ _)

theorem subfc_exact : subfc.ExactOn s inst ca :=
  (exact_writeD_iff rfl).mpr (carry_of_one _ _)

theorem adde_exact : adde.ExactOn s inst ca := by
  have hrun : adde.run (s.setCarry (boolToU32 ca)) inst =
      addex (s.setCarry (boolToU32 ca)) inst := rfl
  rw [ExactOn, hrun, addex]
  rw [getCarry_setCarry]
  refine (exact_writeD_iff rfl).mpr ?_
  cases ca with
  | false => exact (Bool.or_false _).trans (helperCarry_eq _ _)
  | true => exact carry_of_two _ _ true

theorem subfe_exact : subfe.ExactOn s inst ca := by
  rw [ExactOn, run, subfex, getCarry_setCarry]
  exact (exact_writeD_iff rfl).mpr (carry_of_two _ _ ca)

theorem addze_exact : addze.ExactOn s inst ca := by
  rw [ExactOn, run, addzex, getCarry_setCarry]
  refine (exact_writeD_iff ?_).mpr (carry_of_zero _ ca)
  exact congrArg (· + boolToU32 ca) (BitVec.add_zero _).symm

theorem subfze_exact : subfze.ExactOn s inst ca := by
  rw [ExactOn, run, subfzex, getCarry_setCarry]
  refine (exact_writeD_iff ?_).mpr (carry_of_zero _ ca)
  exact congrArg (· + boolToU32 ca) (BitVec.add_zero _).symm

/-- The carry of `carry_of_minus_one` is that of the sum iff there is no carry in. -/
theorem minus_one_iff (x : BitVec 32) : helperCarry x (boolToU32 ca - 1) =
    decide (2 ^ 32 ≤ exactSum x 0xFFFFFFFF ca) ↔ ca = false := by
  rw [carry_of_minus_one]
  cases ca with
  | false => simp
  | true =>
    have hle : 2 ^ 32 ≤ exactSum x 0xFFFFFFFF true := carry_of_ones x
    rw [decide_eq_true hle]
    decide

theorem addme_exact_iff : addme.ExactOn s inst ca ↔ ca = false := by
  rw [ExactOn, run, addmex, getCarry_setCarry]
  exact (exact_writeD_iff rfl).trans (minus_one_iff ca _)

theorem subfme_exact_iff : subfme.ExactOn s inst ca ↔ ca = false := by
  rw [ExactOn, run, subfmex, getCarry_setCarry]
  exact (exact_writeD_iff rfl).trans (minus_one_iff ca _)

end CarryForm

open CarryForm in
/-- Each handler leaves the exact sum, unless it adds 0xFFFFFFFF with CA set. -/
theorem handlers_exact_iff (form : CarryForm) (s : PPCState) (inst : Inst) (ca : Bool) :
    form.ExactOn s inst ca ↔ ¬ ((form = addme ∨ form = subfme) ∧ ca = true) := by
  cases form with
  | addic => exact iff_of_true (addic_exact s inst ca) (by simp)
  | addc => exact iff_of_true (addc_exact s inst ca) (by simp)
  | adde => exact iff_of_true (adde_exact s inst ca) (by simp)
  | addme => exact (addme_exact_iff s inst ca).trans (by simp)
  | addze => exact iff_of_true (addze_exact s inst ca) (by simp)
  | subfic => exact iff_of_true (subfic_exact s inst ca) (by simp)
  | subfc => exact iff_of_true (subfc_exact s inst ca) (by simp)
  | subfe => exact iff_of_true (subfe_exact s inst ca) (by simp)
  | subfme => exact (subfme_exact_iff s inst ca).trans (by simp)
  | subfze => exact iff_of_true (subfze_exact s inst ca) (by simp)

/-- `addme r3, r0` with r0 = 0 and CA = 1: the sum is 0x100000000, and CA is cleared. -/
theorem addme_loses_carry : ¬ CarryForm.addme.ExactOn
    { gpr := fun _ => 0, xerCa := 0, xerSoOv := 0, cr0 := 0 } ⟨0x7C6001D4⟩ true :=
  fun hexact => Bool.noConfusion ((CarryForm.addme_exact_iff _ _ _).mp hexact)

end PowerPC
