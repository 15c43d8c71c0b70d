import PrimedSteam.PowerPC.Arithmetic

/-!
# Constant folding agrees with the interpreter

* `apply_writeA`, `apply_withFlags`: applying a result is what the ends of the handlers do.
* One lemma for each group of `EvaluateInstruction`, from the immediate operands to table 31.
* **`evaluateInstruction_correct_iff`**: the folded result is what the handler does, unless a known
  quotient of `divwuo` is at least 2^31, for which an overflow is stated.
-/

set_option autoImplicit false

namespace PowerPC

open Interpreter ConstantPropagationResult

namespace ConstantPropagation

variable {c : ConstantPropagation} {inst : Inst} {s : PPCState}

/-! ## Results and the ends of the handlers -/

theorem apply_write (r : BitVec 5) (value : BitVec 32) :
    (write r value false).apply s = s.setGPR r value := rfl

theorem apply_writeA (value : BitVec 32) :
    (write inst.ra value inst.rc).apply s = writeA s inst value := by
  unfold apply write writeA
  dsimp only
  rw [PPCState.setGPR_gpr_self]

theorem apply_writeACarry (value : BitVec 32) (carry : Bool) :
    ({ write inst.ra value inst.rc with carry := some carry } :
      ConstantPropagationResult).apply s = writeACarry s inst value carry := by
  unfold apply write writeACarry
  dsimp only
  rw [PPCState.setCarry_gpr, PPCState.setGPR_gpr_self]

/-- The flags of the table tell which flags the end of the handler writes. -/
theorem apply_withFlags (flags : BitVec 64) {value : BitVec 32} {carry overflow : Bool}
    (hoe : hasFlag flags flSetOe = inst.oe) :
    (withFlags (write inst.rd value inst.rc) flags carry overflow).apply s =
      writeD s inst value (if hasFlag flags flSetCa then some carry else none) overflow := by
  unfold withFlags writeD apply write
  rw [hoe]
  cases inst.oe <;> rfl

theorem withFlags_none {r : ConstantPropagationResult} {flags : BitVec 64} {carry overflow : Bool}
    (hca : hasFlag flags flSetCa = false) (hoe : hasFlag flags flSetOe = false) :
    withFlags r flags carry overflow = { r with carry := none, overflow := none } := by
  simp [withFlags, hca, hoe]

/-! ## Immediate operands -/

theorem evaluateMulImm_correct (hs : c.Consistent s)
    (hfull : (c.evaluateMulImm inst).instructionFullyExecuted = true) :
    mulli s inst = (c.evaluateMulImm inst).apply s := by
  unfold evaluateMulImm at hfull ⊢
  by_cases hzero : inst.simm16 = 0
  · rw [if_pos hzero, apply_write, mulli, hzero]
    simp
  · rw [if_neg hzero] at hfull ⊢
    by_cases hra : c.hasGPR inst.ra = false
    · rw [if_pos hra] at hfull
      cases hfull
    · rw [if_neg hra, apply_write, mulli, hs inst.ra (by simpa using hra)]

theorem evaluateSubImmCarry_correct (hs : c.Consistent s)
    (hfull : (c.evaluateSubImmCarry inst).instructionFullyExecuted = true) :
    subfic s inst = (c.evaluateSubImmCarry inst).apply s := by
  unfold evaluateSubImmCarry at hfull ⊢
  by_cases hra : c.hasGPR inst.ra = false
  · rw [if_pos hra] at hfull
    cases hfull
  · rw [if_neg hra, subfic, hs inst.ra (by simpa using hra), subImm_carry]
    rfl

theorem evaluateAddImm_correct (hs : c.Consistent s)
    (hfull : (c.evaluateAddImm inst).instructionFullyExecuted = true) :
    (if inst.opcd.getLsbD 0 then addis s inst else addi s inst) =
      (c.evaluateAddImm inst).apply s := by
  unfold evaluateAddImm at hfull ⊢
  unfold addis addi
  by_cases hzero : inst.ra = 0
  · rw [if_pos hzero, apply_write, if_neg (not_not.mpr hzero), if_neg (not_not.mpr hzero)]
    cases inst.opcd.getLsbD 0 <;> rfl
  · rw [if_neg hzero] at hfull ⊢
    by_cases hra : c.hasGPR inst.ra = false
    · rw [if_pos hra] at hfull
      cases hfull
    · rw [if_neg hra, apply_write, if_pos hzero, if_pos hzero, hs inst.ra (by simpa using hra)]
      cases inst.opcd.getLsbD 0 <;> rfl

theorem evaluateAddImmCarry_correct (hs : c.Consistent s)
    (hfull : (c.evaluateAddImmCarry inst).instructionFullyExecuted = true) :
    (if inst.opcd.getLsbD 0 then addic_rc s inst else addic s inst) =
      (c.evaluateAddImmCarry inst).apply s := by
  unfold evaluateAddImmCarry at hfull ⊢
  by_cases hra : c.hasGPR inst.ra = false
  · rw [if_pos hra] at hfull
    cases hfull
  · rw [if_neg hra, addic_rc, addic, hs inst.ra (by simpa using hra)]
    cases inst.opcd.getLsbD 0 <;> simp [apply, write]

theorem evaluateRlwimix_correct (hs : c.Consistent s)
    (hfull : (c.evaluateRlwimix inst).instructionFullyExecuted = true) :
    rlwimix s inst = (c.evaluateRlwimix inst).apply s := by
  unfold evaluateRlwimix at hfull ⊢
  by_cases hrs : c.hasGPR inst.rs = false
  · rw [if_pos hrs] at hfull
    cases hfull
  · rw [if_neg hrs] at hfull ⊢
    have hS := hs inst.rs (by simpa using hrs)
    dsimp only at hfull ⊢
    by_cases hmask : makeRotationMask inst.mb inst.me = 0xFFFFFFFF
    · have hones : (0xFFFFFFFF : BitVec 32) = BitVec.allOnes 32 := rfl
      rw [if_pos hmask, apply_writeA, rlwimix, hS, hmask, hones, BitVec.not_allOnes, BitVec.and_zero, BitVec.zero_or,
        BitVec.and_allOnes]
    · rw [if_neg hmask] at hfull ⊢
      by_cases hra : c.hasGPR inst.ra = false
      · rw [if_pos hra] at hfull
        cases hfull
      · rw [if_neg hra, apply_writeA, rlwimix, hS, hs inst.ra (by simpa using hra)]

theorem evaluateRlwinmxRlwnmx_correct {shift : ℕ} (hs : c.Consistent s)
    (hfull : (c.evaluateRlwinmxRlwnmx inst shift).instructionFullyExecuted = true) :
    writeA s inst ((s.gpr inst.rs).rotateLeft shift &&& makeRotationMask inst.mb inst.me) =
      (c.evaluateRlwinmxRlwnmx inst shift).apply s := by
  unfold evaluateRlwinmxRlwnmx at hfull ⊢
  by_cases hrs : c.hasGPR inst.rs = false
  · rw [if_pos hrs] at hfull
    cases hfull
  · rw [if_neg hrs, apply_writeA, hs inst.rs (by simpa using hrs)]

/-- The operations with which a zero immediate leaves rS as it is do nothing if rA is rS. -/
theorem evaluateBitwiseImm_correct {f : BitVec 32 → BitVec 32 → BitVec 32} {isAnd : Bool}
    (hzero : isAnd = false → ∀ x, f x 0 = x) (hs : c.Consistent s)
    (hfull : (c.evaluateBitwiseImm inst f isAnd).instructionFullyExecuted = true) :
    (let s := bitwiseImm s inst f (inst.opcd.getLsbD 0)
     if isAnd then updateCR0 s (s.gpr inst.ra) else s) =
      (c.evaluateBitwiseImm inst f isAnd).apply s := by
  unfold evaluateBitwiseImm at hfull ⊢
  unfold bitwiseImm
  dsimp only at hfull ⊢
  by_cases hnothing : inst.uimm = 0 ∧ isAnd = false ∧ inst.ra = inst.rs
  · rw [if_pos hnothing]
    obtain ⟨huimm, hand, hra⟩ := hnothing
    have himm : (if inst.opcd.getLsbD 0 then inst.uimm.setWidth 32 <<< 16
        else inst.uimm.setWidth 32) = 0 := by
      rw [huimm]
      cases inst.opcd.getLsbD 0 <;> rfl
    rw [himm, hzero hand, hra, hand, if_neg Bool.false_ne_true]
    show s.setGPR inst.rs (s.gpr inst.rs) = s
    rw [PPCState.setGPR, Function.update_eq_self]
  · rw [if_neg hnothing] at hfull ⊢
    by_cases hrs : c.hasGPR inst.rs = false
    · rw [if_pos hrs] at hfull
      cases hfull
    · rw [if_neg hrs, hs inst.rs (by simpa using hrs)]
      cases isAnd <;> simp [apply, write]

/-! ## Table 31: rD := f(rA, rB) -/

section AB

variable {flags : BitVec 64} {a b : BitVec 32}

theorem eq_ofNat {subop : BitVec 10} {k : ℕ} (h : subop.toNat = k) : subop = BitVec.ofNat 10 k := by
  rw [← h, BitVec.ofNat_toNat, BitVec.setWidth_eq]

theorem table31_of_toNat {subop : BitVec 10} {k : ℕ} {run : PPCState → Inst → PPCState}
    (h : subop.toNat = k) (hrun : table31 (BitVec.ofNat 10 k) = some run) :
    table31 subop = some run := by
  rw [eq_ofNat h]
  exact hrun

theorem subfx_apply (ha : s.gpr inst.ra = a) (hb : s.gpr inst.rb = b)
    (hca : hasFlag flags flSetCa = false) (hoe : hasFlag flags flSetOe = inst.oe) (carry : Bool) :
    subfx s inst = (withFlags (write inst.rd
      (((~~~a).setWidth 64 + b.setWidth 64 + 1).setWidth 32) inst.rc) flags carry
        (overflowsS32 (b.signExtend 64 - a.signExtend 64))).apply s := by
  rw [apply_withFlags flags hoe, hca, sub_value, sub_overflow, ← ha, ← hb]
  rfl

theorem subfcx_apply (ha : s.gpr inst.ra = a) (hb : s.gpr inst.rb = b)
    (hca : hasFlag flags flSetCa = true) (hoe : hasFlag flags flSetOe = inst.oe) :
    subfcx s inst = (withFlags (write inst.rd
      (((~~~a).setWidth 64 + b.setWidth 64 + 1).setWidth 32) inst.rc) flags
        (((~~~a).setWidth 64 + b.setWidth 64 + 1) >>> 32 != 0)
        (overflowsS32 (b.signExtend 64 - a.signExtend 64))).apply s := by
  rw [apply_withFlags flags hoe, hca, sub_value, sub_overflow, sub_carry, ← ha, ← hb]
  rfl

theorem addx_apply (ha : s.gpr inst.ra = a) (hb : s.gpr inst.rb = b)
    (hca : hasFlag flags flSetCa = false) (hoe : hasFlag flags flSetOe = inst.oe) (carry : Bool) :
    addx s inst = (withFlags (write inst.rd ((a.setWidth 64 + b.setWidth 64).setWidth 32) inst.rc)
      flags carry (overflowsS32 (a.signExtend 64 + b.signExtend 64))).apply s := by
  rw [apply_withFlags flags hoe, hca, add_value, add_overflow, ← ha, ← hb]
  rfl

theorem addcx_apply (ha : s.gpr inst.ra = a) (hb : s.gpr inst.rb = b)
    (hca : hasFlag flags flSetCa = true) (hoe : hasFlag flags flSetOe = inst.oe) :
    addcx s inst = (withFlags (write inst.rd ((a.setWidth 64 + b.setWidth 64).setWidth 32) inst.rc)
      flags ((a.setWidth 64 + b.setWidth 64) >>> 32 != 0)
      (overflowsS32 (a.signExtend 64 + b.signExtend 64))).apply s := by
  rw [apply_withFlags flags hoe, hca, add_value, add_overflow, add_carry, ← ha, ← hb]
  rfl

theorem mulhwux_apply (ha : s.gpr inst.ra = a) (hb : s.gpr inst.rb = b)
    (hca : hasFlag flags flSetCa = false) (hoe : hasFlag flags flSetOe = false)
    (carry overflow : Bool) :
    mulhwux s inst = (withFlags (write inst.rd
      (((a.setWidth 64 * b.setWidth 64) >>> 32).setWidth 32) inst.rc) flags carry overflow).apply s := by
  rw [withFlags_none hca hoe, ← ha, ← hb]
  rfl

theorem mulhwx_apply (ha : s.gpr inst.ra = a) (hb : s.gpr inst.rb = b)
    (hca : hasFlag flags flSetCa = false) (hoe : hasFlag flags flSetOe = false)
    (carry overflow : Bool) :
    mulhwx s inst = (withFlags (write inst.rd
      (((a.signExtend 64 * b.signExtend 64) >>> 32).setWidth 32) inst.rc) flags carry
        overflow).apply s := by
  rw [withFlags_none hca hoe, mulhw_value, ← ha, ← hb]
  rfl

theorem mullwx_apply (ha : s.gpr inst.ra = a) (hb : s.gpr inst.rb = b)
    (hca : hasFlag flags flSetCa = false) (hoe : hasFlag flags flSetOe = inst.oe) (carry : Bool) :
    mullwx s inst = (withFlags (write inst.rd
      ((a.signExtend 64 * b.signExtend 64).setWidth 32) inst.rc) flags carry
        (overflowsS32 (a.signExtend 64 * b.signExtend 64))).apply s := by
  rw [apply_withFlags flags hoe, hca, mullw_overflow, ← ha, ← hb]
  rfl

/-- The quotient that the folding computes for `divwu`. -/
def divwuQuotient (a b : BitVec 32) : BitVec 64 :=
  if b = 0 then 0x100000000 else (a / b).setWidth 64

theorem divwux_apply (ha : s.gpr inst.ra = a) (hb : s.gpr inst.rb = b)
    (hca : hasFlag flags flSetCa = false) (hoe : hasFlag flags flSetOe = inst.oe) (carry : Bool)
    (hfits : inst.oe = true → b ≠ 0 → (a / b).msb = false) :
    divwux s inst = (withFlags (write inst.rd ((divwuQuotient a b).setWidth 32) inst.rc) flags carry
      (overflowsS32 (divwuQuotient a b))).apply s := by
  rw [apply_withFlags flags hoe, hca, divwuQuotient, divwux, ha, hb]
  by_cases hzero : b = 0
  · rw [if_pos hzero, hzero]
    rfl
  · have hvalue : ((a / b).setWidth 64).setWidth 32 = a / b := by simp
    have hb0 : (b == 0) = false := by simpa using hzero
    rw [if_neg hzero, hvalue, divwu_overflow, hb0]
    cases hoe' : inst.oe with
    | false => simp [writeD, hoe']
    | true => simp [hfits hoe' hzero]

theorem divwx_apply (ha : s.gpr inst.ra = a) (hb : s.gpr inst.rb = b)
    (hca : hasFlag flags flSetCa = false) (hoe : hasFlag flags flSetOe = inst.oe) (carry : Bool)
    {d : BitVec 64} (hd : d =
      if b = 0 ∨ a = 0x80000000 ∧ b = 0xFFFFFFFF then
        if a.slt 0 then 0xFFFFFFFF else 0x100000000
      else (a.sdiv b).signExtend 64) :
    divwx s inst = (withFlags (write inst.rd (d.setWidth 32) inst.rc) flags carry
      (overflowsS32 d)).apply s := by
  rw [apply_withFlags flags hoe, hca, divwx, ha, hb]
  by_cases hover : b = 0 ∨ a = 0x80000000 ∧ b = 0xFFFFFFFF
  · have hcond : (b == 0 || (a == 0x80000000 && b == 0xFFFFFFFF)) = true := by simpa using hover
    rw [if_pos hover] at hd
    rw [hcond, hd]
    cases a.slt 0 <;> rfl
  · have hcond : (b == 0 || (a == 0x80000000 && b == 0xFFFFFFFF)) = false := by
      simpa using hover
    rw [if_neg hover] at hd
    rw [hcond, hd, overflowsS32_signExtend, setWidth_signExtend]
    rfl

/-- Both operands are known. The overflow bit of the word is the upper bit of `subop`. -/
theorem evaluateAB_correct {subop : BitVec 10} {d dOverflow : BitVec 64}
    (hoe : inst.oe = subop.getLsbD 9) (ha : s.gpr inst.ra = a) (hb : s.gpr inst.rb = b)
    (hfits : subop = 971 → b ≠ 0 → (a / b).msb = false)
    (h : evaluateAB subop a b = some (d, dOverflow)) :
    ∃ run, table31 subop = some run ∧
      run s inst = (withFlags (write inst.rd (d.setWidth 32) inst.rc) (table31Flags subop)
        (d >>> 32 != 0) (overflowsS32 dOverflow)).apply s := by
  unfold evaluateAB at h
  split at h
  case h_1 heq =>
    obtain rfl := eq_ofNat heq
    cases h
    exact ⟨subfcx, rfl, subfcx_apply ha hb rfl (hoe ▸ rfl)⟩
  case h_2 heq =>
    obtain rfl := eq_ofNat heq
    cases h
    exact ⟨subfx, rfl, subfx_apply ha hb rfl (hoe ▸ rfl) _⟩
  case h_3 heq =>
    obtain rfl := eq_ofNat heq
    cases h
    exact ⟨subfcx, rfl, subfcx_apply ha hb rfl (hoe ▸ rfl)⟩
  case h_4 heq =>
    obtain rfl := eq_ofNat heq
    cases h
    exact ⟨subfx, rfl, subfx_apply ha hb rfl (hoe ▸ rfl) _⟩
  case h_5 heq =>
    obtain rfl := eq_ofNat heq
    cases h
    exact ⟨addcx, rfl, addcx_apply ha hb rfl (hoe ▸ rfl)⟩
  case h_6 heq =>
    obtain rfl := eq_ofNat heq
    cases h
    exact ⟨addcx, rfl, addcx_apply ha hb rfl (hoe ▸ rfl)⟩
  case h_7 heq =>
    obtain rfl := eq_ofNat heq
    cases h
    exact ⟨addx, rfl, addx_apply ha hb rfl (hoe ▸ rfl) _⟩
  case h_8 heq =>
    obtain rfl := eq_ofNat heq
    cases h
    exact ⟨addx, rfl, addx_apply ha hb rfl (hoe ▸ rfl) _⟩
  case h_9 heq =>
    obtain rfl := eq_ofNat heq
    cases h
    exact ⟨mulhwux, rfl, mulhwux_apply ha hb rfl rfl _ _⟩
  case h_10 heq =>
    obtain rfl := eq_ofNat heq
    cases h
    exact ⟨mulhwx, rfl, mulhwx_apply ha hb rfl rfl _ _⟩
  case h_11 heq =>
    obtain rfl := eq_ofNat heq
    cases h
    exact ⟨mullwx, rfl, mullwx_apply ha hb rfl (hoe ▸ rfl) _⟩
  case h_12 heq =>
    obtain rfl := eq_ofNat heq
    cases h
    exact ⟨mullwx, rfl, mullwx_apply ha hb rfl (hoe ▸ rfl) _⟩
  case h_13 heq =>
    obtain rfl := eq_ofNat heq
    cases h
    exact ⟨divwux, rfl, divwux_apply ha hb rfl (hoe ▸ rfl) _ fun h => nomatch hoe.symm.trans h⟩
  case h_14 heq =>
    obtain rfl := eq_ofNat heq
    cases h
    exact ⟨divwux, rfl, divwux_apply ha hb rfl (hoe ▸ rfl) _ fun _ => hfits rfl⟩
  case h_15 heq =>
    obtain rfl := eq_ofNat heq
    cases h
    exact ⟨divwx, rfl, divwx_apply ha hb rfl (hoe ▸ rfl) _ rfl⟩
  case h_16 heq =>
    obtain rfl := eq_ofNat heq
    cases h
    exact ⟨divwx, rfl, divwx_apply ha hb rfl (hoe ▸ rfl) _ rfl⟩
  case h_17 => cases h

theorem apply_overflow (flags : BitVec 64) {value : BitVec 32} {overflow : Bool}
    (hoe : hasFlag flags flSetOe = inst.oe) :
    ({ write inst.rd value inst.rc with
      overflow := if hasFlag flags flSetOe then some overflow else none } :
        ConstantPropagationResult).apply s = writeD s inst value none overflow := by
  unfold writeD apply write
  rw [hoe]
  cases inst.oe <;> rfl

theorem writeD_eq_writeDNoOverflow {value : BitVec 32} {overflow : Bool} (hoe : inst.oe = false) :
    writeD s inst value none overflow = writeDNoOverflow s inst value := by
  rw [writeD, hoe]
  rfl

theorem mul_zero_or {f : BitVec 32 → BitVec 32 → BitVec 64} (hl : ∀ x, f 0 x = 0)
    (hr : ∀ x, f x 0 = 0) {knownRegIsB : Bool}
    (hvalue : s.gpr (if knownRegIsB then inst.rb else inst.ra) = 0) :
    f (s.gpr inst.ra) (s.gpr inst.rb) = 0 := by
  cases knownRegIsB with
  | false => rw [show s.gpr inst.ra = 0 from hvalue, hl]
  | true => rw [show s.gpr inst.rb = 0 from hvalue, hr]

theorem mulhwux_zero {knownRegIsB : Bool}
    (hvalue : s.gpr (if knownRegIsB then inst.rb else inst.ra) = 0) :
    mulhwux s inst = writeDNoOverflow s inst 0 := by
  have hprod := mul_zero_or (f := fun a b => a.setWidth 64 * b.setWidth 64) (by simp) (by simp) hvalue
  rw [mulhwux, hprod]
  rfl

theorem mulhwx_zero {knownRegIsB : Bool}
    (hvalue : s.gpr (if knownRegIsB then inst.rb else inst.ra) = 0) :
    mulhwx s inst = writeDNoOverflow s inst 0 := by
  have hprod := mul_zero_or (f := fun a b => a.signExtend 64 * b.signExtend 64) (by simp) (by simp)
    hvalue
  rw [mulhwx, hprod]
  rfl

theorem mullwx_zero {knownRegIsB : Bool}
    (hvalue : s.gpr (if knownRegIsB then inst.rb else inst.ra) = 0) :
    mullwx s inst = writeD s inst 0 none false := by
  have hprod := mul_zero_or (f := fun a b => a.signExtend 64 * b.signExtend 64) (by simp) (by simp)
    hvalue
  rw [mullwx, hprod]
  rfl

theorem divwux_by_zero (hb : s.gpr inst.rb = 0) : divwux s inst = writeD s inst 0 none true := by
  rw [divwux, hb]
  rfl

theorem divwux_zero (ha : s.gpr inst.ra = 0) (hoe : inst.oe = false) :
    divwux s inst = writeDNoOverflow s inst 0 := by
  have hquotient : (if s.gpr inst.rb == 0 then 0 else (0 : BitVec 32) / s.gpr inst.rb) = 0 := by
    simp
  rw [divwux, ha, writeD_eq_writeDNoOverflow hoe, hquotient]

theorem divwx_zero (ha : s.gpr inst.ra = 0) (hoe : inst.oe = false) :
    divwx s inst = writeDNoOverflow s inst 0 := by
  have hquotient : ∀ overflow : Bool, (if overflow then
      if (0 : BitVec 32).slt 0 then 0xFFFFFFFF else 0 else (0 : BitVec 32).sdiv (s.gpr inst.rb)) = 0 := by
    intro overflow
    cases overflow <;> simp
  rw [divwx, ha, writeD_eq_writeDNoOverflow hoe, hquotient]

/-- One operand is known: a product with 0, a quotient by 0 or of 0. -/
theorem evaluateTable31ABOneRegisterKnown_correct {subop : BitVec 10} {value : BitVec 32}
    {knownRegIsB : Bool} (hsub : inst.subop10 = subop) (hoe : inst.oe = subop.getLsbD 9)
    (hvalue : s.gpr (if knownRegIsB then inst.rb else inst.ra) = value)
    (hfull : (evaluateTable31ABOneRegisterKnown inst (table31Flags subop) value
      knownRegIsB).instructionFullyExecuted = true) :
    ∃ run, table31 subop = some run ∧ run s inst =
      (evaluateTable31ABOneRegisterKnown inst (table31Flags subop) value knownRegIsB).apply s := by
  unfold evaluateTable31ABOneRegisterKnown at hfull ⊢
  rw [hsub] at hfull ⊢
  dsimp only at hfull ⊢
  -- of the quotients of 0, those are folded that do not set the overflow flag
  have hdividend : ∀ r : ConstantPropagationResult,
      (if knownRegIsB = false ∧ value = 0 ∧ hasFlag (table31Flags subop) flSetOe = false then r
        else unknown).instructionFullyExecuted = true →
      knownRegIsB = false ∧ value = 0 ∧ hasFlag (table31Flags subop) flSetOe = false := by
    intro r hr
    by_contra hcond
    rw [if_neg hcond] at hr
    cases hr
  have hproduct : ∀ r : ConstantPropagationResult,
      (if value = 0 then r else unknown).instructionFullyExecuted = true → value = 0 := by
    intro r hr
    by_contra hcond
    rw [if_neg hcond] at hr
    cases hr
  split at hfull
  case h_1 heq =>
    obtain rfl := eq_ofNat heq
    have hzero := hproduct _ hfull
    rw [if_pos hzero]
    exact ⟨mulhwux, rfl, mulhwux_zero (hvalue.trans hzero)⟩
  case h_2 heq =>
    obtain rfl := eq_ofNat heq
    have hzero := hproduct _ hfull
    rw [if_pos hzero]
    exact ⟨mulhwx, rfl, mulhwx_zero (hvalue.trans hzero)⟩
  case h_3 heq =>
    obtain rfl := eq_ofNat heq
    have hzero := hproduct _ hfull
    rw [if_pos hzero]
    refine ⟨mullwx, rfl, (mullwx_zero (hvalue.trans hzero)).trans ?_⟩
    exact (apply_overflow (table31Flags 235) hoe.symm).symm
  case h_4 heq =>
    obtain rfl := eq_ofNat heq
    have hzero := hproduct _ hfull
    rw [if_pos hzero]
    refine ⟨mullwx, rfl, (mullwx_zero (hvalue.trans hzero)).trans ?_⟩
    exact (apply_overflow (table31Flags 747) hoe.symm).symm
  case h_5 heq =>
    obtain rfl := eq_ofNat heq
    by_cases hdivisor : knownRegIsB = true ∧ value = 0
    · rw [if_pos hdivisor]
      obtain ⟨rfl, rfl⟩ := hdivisor
      exact ⟨divwux, rfl, (divwux_by_zero hvalue).trans (apply_overflow (table31Flags 459) hoe.symm).symm⟩
    · rw [if_neg hdivisor] at hfull ⊢
      have hcond := hdividend _ hfull
      rw [if_pos hcond]
      obtain ⟨rfl, rfl, -⟩ := hcond
      exact ⟨divwux, rfl, divwux_zero hvalue hoe⟩
  case h_6 heq =>
    obtain rfl := eq_ofNat heq
    by_cases hdivisor : knownRegIsB = true ∧ value = 0
    · rw [if_pos hdivisor]
      obtain ⟨rfl, rfl⟩ := hdivisor
      exact ⟨divwux, rfl, (divwux_by_zero hvalue).trans (apply_overflow (table31Flags 971) hoe.symm).symm⟩
    · rw [if_neg hdivisor] at hfull
      cases (hdividend _ hfull).2.2
  case h_7 heq =>
    obtain rfl := eq_ofNat heq
    have hcond := hdividend _ hfull
    rw [if_pos hcond]
    obtain ⟨rfl, rfl, -⟩ := hcond
    exact ⟨divwx, rfl, divwx_zero hvalue hoe⟩
  case h_8 heq =>
    obtain rfl := eq_ofNat heq
    cases (hdividend _ hfull).2.2
  case h_9 => cases hfull

/-- The operands are the same unknown register. -/
theorem evaluateTable31ABIdenticalRegisters_correct {subop : BitVec 10}
    (hsub : inst.subop10 = subop) (hoe : inst.oe = subop.getLsbD 9) (hsame : inst.ra = inst.rb)
    (hfull : (evaluateTable31ABIdenticalRegisters inst
      (table31Flags subop)).instructionFullyExecuted = true) :
    ∃ run, table31 subop = some run ∧ run s inst =
      (evaluateTable31ABIdenticalRegisters inst (table31Flags subop)).apply s := by
  have hsubf : ∀ {flags : BitVec 64}, hasFlag flags flSetCa = false → hasFlag flags flSetOe = inst.oe →
      subfx s inst = (withFlags (write inst.rd 0 inst.rc) flags true false).apply s := by
    intro flags hca hoe
    rw [apply_withFlags flags hoe, hca, subfx, hsame]
    rw [sub_self_overflow, sub_self_value]
    rfl
  have hsubfc : ∀ {flags : BitVec 64}, hasFlag flags flSetCa = true → hasFlag flags flSetOe = inst.oe →
      subfcx s inst = (withFlags (write inst.rd 0 inst.rc) flags true false).apply s := by
    intro flags hca hoe
    rw [apply_withFlags flags hoe, hca, subfcx, hsame]
    rw [sub_self_carry, sub_self_overflow, sub_self_value]
    rfl
  unfold evaluateTable31ABIdenticalRegisters at hfull ⊢
  rw [hsub] at hfull ⊢
  split at hfull
  case h_1 heq =>
    obtain rfl := eq_ofNat heq
    exact ⟨subfcx, rfl, hsubfc rfl hoe.symm⟩
  case h_2 heq =>
    obtain rfl := eq_ofNat heq
    exact ⟨subfx, rfl, hsubf rfl hoe.symm⟩
  case h_3 heq =>
    obtain rfl := eq_ofNat heq
    exact ⟨subfcx, rfl, hsubfc rfl hoe.symm⟩
  case h_4 heq =>
    obtain rfl := eq_ofNat heq
    exact ⟨subfx, rfl, hsubf rfl hoe.symm⟩
  case h_5 => cases hfull

end AB

/-! ## Table 31: the other groups -/

theorem evaluateTable31Negx_correct {subop : BitVec 10} (hsub : subop = 104 ∨ subop = 616)
    (hoe : inst.oe = subop.getLsbD 9) (hs : c.Consistent s)
    (hfull : (c.evaluateTable31Negx inst (table31Flags subop)).instructionFullyExecuted = true) :
    negx s inst = (c.evaluateTable31Negx inst (table31Flags subop)).apply s := by
  have hflag : hasFlag (table31Flags subop) flSetOe = inst.oe := by
    rw [hoe]
    rcases hsub with rfl | rfl <;> rfl
  unfold evaluateTable31Negx at hfull ⊢
  by_cases hra : c.hasGPR inst.ra = false
  · rw [if_pos hra] at hfull
    cases hfull
  · rw [if_neg hra, negx, hs inst.ra (by simpa using hra)]
    dsimp only
    rw [apply_overflow (table31Flags subop) hflag, neg_value, neg_overflow]

theorem evaluateTable31S_correct (hs : c.Consistent s)
    (hfull : (c.evaluateTable31S inst).instructionFullyExecuted = true) :
    ∃ run, table31 inst.subop10 = some run ∧ run s inst = (c.evaluateTable31S inst).apply s := by
  unfold evaluateTable31S at hfull ⊢
  by_cases hrs : c.hasGPR inst.rs = false
  · rw [if_pos hrs] at hfull
    cases hfull
  · have hS := hs inst.rs (by simpa using hrs)
    rw [if_neg hrs] at hfull ⊢
    dsimp only at hfull ⊢
    split at hfull
    case h_1 heq =>
      refine ⟨cntlzwx, table31_of_toNat heq rfl, ?_⟩
      rw [apply_writeA, cntlzwx, hS]
    case h_2 heq =>
      refine ⟨srawix, table31_of_toNat heq rfl, ?_⟩
      have hcarry : (inst.sh != 0 && (c.getGPR inst.rs).slt 0 &&
          c.getGPR inst.rs <<< (32 - inst.sh.toNat) != 0) =
          shiftCarry (c.getGPR inst.rs) inst.sh.toNat := by
        have hsh : (inst.sh != 0) = decide (0 < inst.sh.toNat) := by
          rw [Bool.eq_iff_iff, bne_iff_ne, decide_eq_true_iff, ne_eq, BitVec.toNat_eq]
          exact Nat.pos_iff_ne_zero.symm
        rw [shiftCarry, hsh, Bool.and_comm (decide _)]
      rw [hcarry, apply_writeACarry, srawix, hS]
    case h_3 heq =>
      refine ⟨extshx, table31_of_toNat heq rfl, ?_⟩
      rw [apply_writeA, extshx, hS]
    case h_4 heq =>
      refine ⟨extsbx, table31_of_toNat heq rfl, ?_⟩
      rw [apply_writeA, extsbx, hS]
    case h_5 => cases hfull

section SB

variable {value : BitVec 32} {knownRegIsB : Bool}

/-- One operand is known: a shift of 0 or by 32 and more, or a bitwise operation with an absorbing
operand. -/
theorem evaluateTable31SBOneRegisterKnown_correct
    (hvalue : s.gpr (if knownRegIsB then inst.rb else inst.rs) = value)
    (hfull : (evaluateTable31SBOneRegisterKnown inst value
      knownRegIsB).instructionFullyExecuted = true) :
    ∃ run, table31 inst.subop10 = some run ∧
      run s inst = (evaluateTable31SBOneRegisterKnown inst value knownRegIsB).apply s := by
  unfold evaluateTable31SBOneRegisterKnown at hfull ⊢
  have hcond : ∀ {cond : Bool} {r : ConstantPropagationResult},
      (if cond then r else unknown).instructionFullyExecuted = true → cond = true := by
    intro cond r hr
    cases cond with
    | false => cases hr
    | true => rfl
  have hones : (0xFFFFFFFF : BitVec 32) = BitVec.allOnes 32 := rfl
  dsimp only at hfull ⊢
  split at hfull
  case h_1 heq =>
    have h := hcond hfull
    refine ⟨slwx, table31_of_toNat heq rfl, ?_⟩
    rw [if_pos h, apply_writeA, slwx]
    congr 1
    cases knownRegIsB with
    | false =>
      have hzero : value = 0 := by simpa using h
      rw [show s.gpr inst.rs = value from hvalue, hzero]
      simp
    | true =>
      have hbit : value &&& 0x20 ≠ 0 := by simpa using h
      rw [show s.gpr inst.rb = value from hvalue, if_pos hbit]
  case h_2 heq =>
    have h := hcond hfull
    refine ⟨srwx, table31_of_toNat heq rfl, ?_⟩
    rw [if_pos h, apply_writeA, srwx]
    congr 1
    cases knownRegIsB with
    | false =>
      have hzero : value = 0 := by simpa using h
      rw [show s.gpr inst.rs = value from hvalue, hzero]
      simp
    | true =>
      have hbit : value &&& 0x20 ≠ 0 := by simpa using h
      rw [show s.gpr inst.rb = value from hvalue, if_pos hbit]
  case h_3 heq =>
    have h := eq_of_beq (hcond hfull)
    refine ⟨andcx, table31_of_toNat heq rfl, ?_⟩
    rw [if_pos (hcond hfull), apply_writeA, andcx]
    congr 1
    cases knownRegIsB with
    | false =>
      rw [show s.gpr inst.rs = value from hvalue, show value = 0 from h]
      simp
    | true =>
      rw [show s.gpr inst.rb = value from hvalue, show ~~~value = 0 from h]
      simp
  case h_4 heq =>
    have h := eq_of_beq (hcond hfull)
    refine ⟨andx, table31_of_toNat heq rfl, ?_⟩
    rw [if_pos (hcond hfull), apply_writeA, andx]
    congr 1
    cases knownRegIsB with
    | false =>
      rw [show s.gpr inst.rs = value from hvalue, h]
      simp
    | true =>
      rw [show s.gpr inst.rb = value from hvalue, h]
      simp
  case h_5 heq =>
    have h := eq_of_beq (hcond hfull)
    refine ⟨norx, table31_of_toNat heq rfl, ?_⟩
    rw [if_pos (hcond hfull), apply_writeA, norx]
    congr 1
    cases knownRegIsB with
    | false =>
      rw [show s.gpr inst.rs = value from hvalue, h, hones, BitVec.allOnes_or, BitVec.not_allOnes]
      rfl
    | true =>
      rw [show s.gpr inst.rb = value from hvalue, h, hones, BitVec.or_allOnes, BitVec.not_allOnes]
      rfl
  case h_6 heq =>
    have h := eq_of_beq (hcond hfull)
    refine ⟨orcx, table31_of_toNat heq rfl, ?_⟩
    rw [if_pos (hcond hfull), apply_writeA, orcx]
    congr 1
    cases knownRegIsB with
    | false =>
      rw [show s.gpr inst.rs = value from hvalue, show value = 0xFFFFFFFF from h, hones,
        BitVec.allOnes_or]
    | true =>
      rw [show s.gpr inst.rb = value from hvalue, show ~~~value = 0xFFFFFFFF from h, hones,
        BitVec.or_allOnes]
  case h_7 heq =>
    have h := eq_of_beq (hcond hfull)
    refine ⟨orx, table31_of_toNat heq rfl, ?_⟩
    rw [if_pos (hcond hfull), apply_writeA, orx]
    congr 1
    cases knownRegIsB with
    | false => rw [show s.gpr inst.rs = value from hvalue, h, hones, BitVec.allOnes_or]
    | true => rw [show s.gpr inst.rb = value from hvalue, h, hones, BitVec.or_allOnes]
  case h_8 heq =>
    have h := eq_of_beq (hcond hfull)
    refine ⟨nandx, table31_of_toNat heq rfl, ?_⟩
    rw [if_pos (hcond hfull), apply_writeA, nandx]
    congr 1
    cases knownRegIsB with
    | false =>
      rw [show s.gpr inst.rs = value from hvalue, h]
      simp
    | true =>
      rw [show s.gpr inst.rb = value from hvalue, h]
      simp
  case h_9 heq =>
    by_cases h : knownRegIsB = false ∧ value = 0
    · obtain ⟨rfl, rfl⟩ := h
      refine ⟨srawx, table31_of_toNat heq rfl, ?_⟩
      rw [if_pos ⟨rfl, rfl⟩, apply_writeACarry, srawx, show s.gpr inst.rs = 0 from hvalue]
      have hcarry : ∀ amount, shiftCarry 0 amount = false := by
        intro amount
        rw [shiftCarry, slt_zero]
        rfl
      have hsign : ¬ (0 : BitVec 32) &&& 0x80000000 ≠ 0 := by decide
      rw [if_neg hsign]
      dsimp only
      rw [hcarry, show BitVec.sshiftRight 0 (s.gpr inst.rb &&& 0x1f).toNat = 0 from
        BitVec.zero_sshiftRight]
      exact ite_self _
    · rw [if_neg h] at hfull
      cases hfull
  case h_10 => cases hfull

/-- The operands are the same unknown register. -/
theorem evaluateTable31SBIdenticalRegisters_correct (hsame : inst.rs = inst.rb)
    (hfull : (evaluateTable31SBIdenticalRegisters inst).instructionFullyExecuted = true) :
    ∃ run, table31 inst.subop10 = some run ∧
      run s inst = (evaluateTable31SBIdenticalRegisters inst).apply s := by
  unfold evaluateTable31SBIdenticalRegisters at hfull ⊢
  split at hfull
  case h_1 heq =>
    refine ⟨andcx, table31_of_toNat heq rfl, ?_⟩
    rw [apply_writeA, andcx, hsame]
    simp
  case h_2 heq =>
    refine ⟨eqvx, table31_of_toNat heq rfl, ?_⟩
    rw [apply_writeA, eqvx, hsame, BitVec.xor_self]
    rfl
  case h_3 heq =>
    refine ⟨xorx, table31_of_toNat heq rfl, ?_⟩
    rw [apply_writeA, xorx, hsame, BitVec.xor_self]
    rfl
  case h_4 heq =>
    refine ⟨orcx, table31_of_toNat heq rfl, ?_⟩
    rw [apply_writeA, orcx, hsame]
    congr 1
    ext i hi
    simp
  case h_5 => cases hfull

theorem srawx_apply {rs b : BitVec 32} (hs : s.gpr inst.rs = rs) (hb : s.gpr inst.rb = b) :
    srawx s inst =
      (let temp := (rs.signExtend 64 <<< 32).sshiftRight (b &&& 0x3f).toNat
       let a := (temp >>> 32).setWidth 32
       writeACarry s inst a (temp &&& a.setWidth 64 != 0)) := by
  dsimp only
  have hsign : rs &&& 0x80000000 ≠ 0 ↔ rs.msb = true := by
    have hand : rs.toNat &&& 2 ^ 31 = (rs.toNat.testBit 31).toNat * 2 ^ 31 :=
      Nat.and_two_pow rs.toNat 31
    rw [ne_eq, BitVec.toNat_eq, BitVec.msb_eq_getLsbD_last]
    change ¬ rs.toNat &&& 2 ^ 31 = 0 ↔ rs.toNat.testBit 31 = true
    rw [hand]
    cases rs.toNat.testBit 31 <;> simp
  rw [srawx, hs, hb, toNat_and_3f, toNat_and_1f]
  by_cases hbit : b &&& 0x20 ≠ 0
  · have hn := (and_20_ne_zero b).mp hbit
    rw [if_pos hbit, sraw_carry_sign rs hn (Nat.mod_lt _ (by decide)), sraw_value_sign rs hn]
    by_cases hneg : rs &&& 0x80000000 ≠ 0
    · rw [if_pos hneg, hsign.mp hneg, if_pos rfl]
    · have hpos : rs.msb = false := by simpa using mt hsign.mpr hneg
      rw [if_neg hneg, hpos, if_neg Bool.false_ne_true]
  · have hn : b.toNat % 32 = b.toNat % 64 := by
      have := mt (and_20_ne_zero b).mpr hbit
      omega
    rw [if_neg hbit, hn, sraw_carry rs (by omega), sraw_value]

theorem evaluateTable31SB_correct (hs : c.Consistent s)
    (hfull : (c.evaluateTable31SB inst).instructionFullyExecuted = true) :
    ∃ run, table31 inst.subop10 = some run ∧ run s inst = (c.evaluateTable31SB inst).apply s := by
  unfold evaluateTable31SB at hfull ⊢
  dsimp only at hfull ⊢
  cases hS : c.hasGPR inst.rs with
  | false =>
    cases hB : c.hasGPR inst.rb with
    | false =>
      rw [hS, hB] at hfull
      simp only [true_or, if_true, if_false, Bool.false_eq_true] at hfull ⊢
      by_cases hsame : inst.rs = inst.rb
      · rw [if_pos hsame] at hfull ⊢
        exact evaluateTable31SBIdenticalRegisters_correct hsame hfull
      · rw [if_neg hsame] at hfull
        cases hfull
    | true =>
      rw [hS, hB] at hfull
      simp only [true_or, if_true, if_false, Bool.false_eq_true] at hfull ⊢
      exact evaluateTable31SBOneRegisterKnown_correct (hs inst.rb hB) hfull
  | true =>
    have hrs := hs inst.rs hS
    cases hB : c.hasGPR inst.rb with
    | false =>
      rw [hS, hB] at hfull
      simp only [or_true, if_true] at hfull ⊢
      exact evaluateTable31SBOneRegisterKnown_correct hrs hfull
    | true =>
      have hrb := hs inst.rb hB
      rw [hS, hB] at hfull
      simp only [Bool.true_eq_false, or_self, if_false] at hfull ⊢
      split at hfull
      case h_1 heq =>
        refine ⟨slwx, table31_of_toNat heq rfl, ?_⟩
        rw [apply_writeA, slwx, hrs, hrb, slw_value]
      case h_2 heq =>
        refine ⟨andx, table31_of_toNat heq rfl, ?_⟩
        rw [apply_writeA, andx, hrs, hrb]
      case h_3 heq =>
        refine ⟨andcx, table31_of_toNat heq rfl, ?_⟩
        rw [apply_writeA, andcx, hrs, hrb]
      case h_4 heq =>
        refine ⟨norx, table31_of_toNat heq rfl, ?_⟩
        rw [apply_writeA, norx, hrs, hrb]
      case h_5 heq =>
        refine ⟨eqvx, table31_of_toNat heq rfl, ?_⟩
        rw [apply_writeA, eqvx, hrs, hrb]
      case h_6 heq =>
        refine ⟨xorx, table31_of_toNat heq rfl, ?_⟩
        rw [apply_writeA, xorx, hrs, hrb]
      case h_7 heq =>
        refine ⟨orcx, table31_of_toNat heq rfl, ?_⟩
        rw [apply_writeA, orcx, hrs, hrb]
      case h_8 heq =>
        refine ⟨orx, table31_of_toNat heq rfl, ?_⟩
        rw [apply_writeA, orx, hrs, hrb]
      case h_9 heq =>
        refine ⟨nandx, table31_of_toNat heq rfl, ?_⟩
        rw [apply_writeA, nandx, hrs, hrb]
      case h_10 heq =>
        refine ⟨srwx, table31_of_toNat heq rfl, ?_⟩
        rw [apply_writeA, srwx, hrs, hrb, srw_value]
      case h_11 heq =>
        refine ⟨srawx, table31_of_toNat heq rfl, ?_⟩
        rw [apply_writeACarry, srawx_apply hrs hrb]
      case h_12 => cases hfull

end SB

/-! ## The folding as a whole -/

/-- The operands of `divwuo` are known, the divisor is 1 and the quotient has bit 31 set. -/
def WideQuotient (c : ConstantPropagation) (inst : Inst) : Prop :=
  inst.opcd = 31 ∧ inst.subop10 = 971 ∧ c.hasGPR inst.ra = true ∧ c.hasGPR inst.rb = true ∧
    c.getGPR inst.rb = 1 ∧ 2 ^ 31 ≤ (c.getGPR inst.ra).toNat

theorem msb_div_iff (a b : BitVec 32) : b ≠ 0 ∧ (a / b).msb = true ↔ b = 1 ∧ 2 ^ 31 ≤ a.toNat := by
  have ha := a.isLt
  have hzero : b = 0 ↔ b.toNat = 0 := BitVec.toNat_eq
  have hone : b = 1 ↔ b.toNat = 1 := BitVec.toNat_eq
  rw [BitVec.msb_eq_decide, decide_eq_true_iff, BitVec.toNat_udiv, ne_eq, hzero, hone]
  constructor
  · rintro ⟨hb, hdiv⟩
    have hmul := (Nat.le_div_iff_mul_le (Nat.pos_of_ne_zero hb)).mp hdiv
    have hb1 : b.toNat = 1 := by
      by_contra hne
      have hb2 : 2 ≤ b.toNat := by omega
      have := Nat.mul_le_mul_left (2 ^ (32 - 1)) hb2
      omega
    rw [hb1, Nat.mul_one] at hmul
    exact ⟨hb1, hmul⟩
  · rintro ⟨hb, hle⟩
    rw [hb, Nat.div_one]
    exact ⟨by decide, hle⟩

theorem evaluateTable31AB_correct (hs : c.Consistent s) (hopcd : inst.opcd = 31)
    (hwide : ¬ WideQuotient c inst)
    (hfull : (c.evaluateTable31AB inst
      (table31Flags inst.subop10)).instructionFullyExecuted = true) :
    ∃ run, table31 inst.subop10 = some run ∧
      run s inst = (c.evaluateTable31AB inst (table31Flags inst.subop10)).apply s := by
  unfold evaluateTable31AB at hfull ⊢
  dsimp only at hfull ⊢
  cases hA : c.hasGPR inst.ra with
  | false =>
    cases hB : c.hasGPR inst.rb with
    | false =>
      rw [hA, hB] at hfull
      simp only [true_or, if_true, if_false, Bool.false_eq_true] at hfull ⊢
      by_cases hsame : inst.ra = inst.rb
      · rw [if_pos hsame] at hfull ⊢
        exact evaluateTable31ABIdenticalRegisters_correct rfl inst.oe_eq hsame hfull
      · rw [if_neg hsame] at hfull
        cases hfull
    | true =>
      rw [hA, hB] at hfull
      simp only [true_or, if_true, if_false, Bool.false_eq_true] at hfull ⊢
      exact evaluateTable31ABOneRegisterKnown_correct rfl inst.oe_eq (hs inst.rb hB) hfull
  | true =>
    have hra := hs inst.ra hA
    cases hB : c.hasGPR inst.rb with
    | false =>
      rw [hA, hB] at hfull
      simp only [or_true, if_true] at hfull ⊢
      exact evaluateTable31ABOneRegisterKnown_correct rfl inst.oe_eq hra hfull
    | true =>
      have hrb := hs inst.rb hB
      rw [hA, hB] at hfull
      simp only [Bool.true_eq_false, or_self, if_false] at hfull ⊢
      have hfits : inst.subop10 = 971 → c.getGPR inst.rb ≠ 0 →
          (c.getGPR inst.ra / c.getGPR inst.rb).msb = false := by
        intro hsub hne
        by_contra hmsb
        have hdiv := (msb_div_iff _ _).mp ⟨hne, by simpa using hmsb⟩
        exact hwide ⟨hopcd, hsub, hA, hB, hdiv.1, hdiv.2⟩
      cases hab : evaluateAB inst.subop10 (c.getGPR inst.ra) (c.getGPR inst.rb) with
      | none =>
        rw [hab] at hfull
        cases hfull
      | some d => exact evaluateAB_correct inst.oe_eq hra hrb hfits hab

theorem evaluateTable31_correct (hs : c.Consistent s) (hopcd : inst.opcd = 31)
    (hwide : ¬ WideQuotient c inst)
    (hfull : (c.evaluateTable31 inst (table31Flags inst.subop10)).instructionFullyExecuted = true) :
    ∃ run, table31 inst.subop10 = some run ∧
      run s inst = (c.evaluateTable31 inst (table31Flags inst.subop10)).apply s := by
  unfold evaluateTable31 at hfull ⊢
  by_cases hinB : hasFlag (table31Flags inst.subop10) flInB = true
  · rw [if_pos hinB] at hfull ⊢
    by_cases houtD : hasFlag (table31Flags inst.subop10) flOutD = true
    · rw [if_pos houtD] at hfull ⊢
      exact evaluateTable31AB_correct hs hopcd hwide hfull
    · rw [if_neg houtD] at hfull ⊢
      exact evaluateTable31SB_correct hs hfull
  · rw [if_neg hinB] at hfull ⊢
    split at hfull
    case h_1 heq =>
      have hsub := eq_ofNat heq
      exact ⟨negx, table31_of_toNat heq rfl,
        evaluateTable31Negx_correct (Or.inl hsub) inst.oe_eq hs hfull⟩
    case h_2 heq =>
      have hsub := eq_ofNat heq
      exact ⟨negx, table31_of_toNat heq rfl,
        evaluateTable31Negx_correct (Or.inr hsub) inst.oe_eq hs hfull⟩
    case h_3 => exact evaluateTable31S_correct hs hfull

/-- The folded result is what the handler of the word does. -/
theorem evaluateInstruction_correct (other : BitVec 64) (hs : c.Consistent s)
    (hwide : ¬ WideQuotient c inst)
    (hfull : (c.evaluateInstruction inst (opInfoFlags other inst)).instructionFullyExecuted =
      true) :
    execute s inst = some ((c.evaluateInstruction inst (opInfoFlags other inst)).apply s) := by
  unfold evaluateInstruction at hfull ⊢
  -- the lower bit of the opcode tells the shifted from the plain form
  have hbit : ∀ {k : ℕ}, inst.opcd.toNat = k → inst.opcd.getLsbD 0 = k.testBit 0 := by
    rintro k rfl
    rfl
  have hexecute : ∀ (run : PPCState → Inst → PPCState) {r : ConstantPropagationResult},
      handler inst = some run → run s inst = r.apply s → execute s inst = some (r.apply s) := by
    intro run r hrun heq
    rw [execute, hrun, Option.map_some, heq]
  split at hfull
  case h_1 heq =>
    exact hexecute mulli (by simp only [handler, heq]) (evaluateMulImm_correct hs hfull)
  case h_2 heq =>
    exact hexecute subfic (by simp only [handler, heq]) (evaluateSubImmCarry_correct hs hfull)
  case h_3 heq =>
    have h := evaluateAddImmCarry_correct hs hfull
    rw [hbit heq] at h
    exact hexecute addic (by simp only [handler, heq]) h
  case h_4 heq =>
    have h := evaluateAddImmCarry_correct hs hfull
    rw [hbit heq] at h
    exact hexecute addic_rc (by simp only [handler, heq]) h
  case h_5 heq =>
    have h := evaluateAddImm_correct hs hfull
    rw [hbit heq] at h
    exact hexecute addi (by simp only [handler, heq]) h
  case h_6 heq =>
    have h := evaluateAddImm_correct hs hfull
    rw [hbit heq] at h
    exact hexecute addis (by simp only [handler, heq]) h
  case h_7 heq =>
    exact hexecute rlwimix (by simp only [handler, heq]) (evaluateRlwimix_correct hs hfull)
  case h_8 heq =>
    exact hexecute rlwinmx (by simp only [handler, heq]) (evaluateRlwinmxRlwnmx_correct hs hfull)
  case h_9 heq =>
    by_cases hrb : c.hasGPR inst.rb = true
    · rw [if_pos hrb] at hfull ⊢
      have h := evaluateRlwinmxRlwnmx_correct hs hfull
      rw [← hs inst.rb hrb] at h ⊢
      exact hexecute rlwnmx (by simp only [handler, heq]) h
    · rw [if_neg hrb] at hfull
      cases hfull
  case h_10 heq =>
    have h := evaluateBitwiseImm_correct (fun _ _ => BitVec.or_zero) hs hfull
    rw [hbit heq] at h
    exact hexecute ori (by simp only [handler, heq]) h
  case h_11 heq =>
    have h := evaluateBitwiseImm_correct (fun _ _ => BitVec.or_zero) hs hfull
    rw [hbit heq] at h
    exact hexecute oris (by simp only [handler, heq]) h
  case h_12 heq =>
    have h := evaluateBitwiseImm_correct (fun _ _ => BitVec.xor_zero) hs hfull
    rw [hbit heq] at h
    exact hexecute xori (by simp only [handler, heq]) h
  case h_13 heq =>
    have h := evaluateBitwiseImm_correct (fun _ _ => BitVec.xor_zero) hs hfull
    rw [hbit heq] at h
    exact hexecute xoris (by simp only [handler, heq]) h
  case h_14 heq =>
    have h := evaluateBitwiseImm_correct (fun hand => Bool.noConfusion hand) hs hfull
    rw [hbit heq] at h
    exact hexecute andi_rc (by simp only [handler, heq]) h
  case h_15 heq =>
    have h := evaluateBitwiseImm_correct (fun hand => Bool.noConfusion hand) hs hfull
    rw [hbit heq] at h
    exact hexecute andis_rc (by simp only [handler, heq]) h
  case h_16 heq =>
    have hopcd : inst.opcd = 31 := BitVec.eq_of_toNat_eq heq
    have hflags : opInfoFlags other inst = table31Flags inst.subop10 := if_pos hopcd
    rw [hflags] at hfull ⊢
    obtain ⟨run, hrun, h⟩ := evaluateTable31_correct hs hopcd hwide hfull
    exact hexecute run (by simp only [handler, heq, hrun]) h
  case h_17 => cases hfull

theorem writeD_getXER_OV (hoe : inst.oe = true) (value : BitVec 32) (carry : Option Bool)
    (overflow : Bool) : (writeD s inst value carry overflow).getXER_OV = boolToU32 overflow := by
  unfold writeD
  rw [hoe]
  cases inst.rc <;> exact PPCState.setXER_OV_getXER_OV _ overflow

/-- For a wide quotient the folding sets OV, which `divwuo` sets for a divisor of 0 only. -/
theorem evaluateInstruction_wide (other : BitVec 64) (hs : c.Consistent s)
    (hwide : WideQuotient c inst) :
    execute s inst ≠ some ((c.evaluateInstruction inst (opInfoFlags other inst)).apply s) := by
  obtain ⟨hopcd, hsub, hA, hB, hone, hle⟩ := hwide
  have hmsb := (msb_div_iff (c.getGPR inst.ra) (c.getGPR inst.rb)).mpr ⟨hone, hle⟩
  have hoe : inst.oe = true := by
    rw [inst.oe_eq, hsub]
    rfl
  have hflags : opInfoFlags other inst = table31Flags 971 := by
    rw [opInfoFlags, if_pos hopcd, hsub]
  have hexecute : execute s inst = some (divwux s inst) := by
    have hhandler : handler inst = some divwux := by
      rw [handler, hopcd, hsub]
      rfl
    rw [execute, hhandler]
    rfl
  have hfold : c.evaluateInstruction inst (table31Flags 971) =
      withFlags (write inst.rd (((c.getGPR inst.ra / c.getGPR inst.rb).setWidth 64).setWidth 32)
        inst.rc) (table31Flags 971) ((c.getGPR inst.ra / c.getGPR inst.rb).setWidth 64 >>> 32 != 0)
        (overflowsS32 ((c.getGPR inst.ra / c.getGPR inst.rb).setWidth 64)) := by
    have hAB : c.evaluateInstruction inst (table31Flags 971) =
        c.evaluateTable31AB inst (table31Flags 971) := by
      rw [evaluateInstruction, hopcd]
      rfl
    rw [hAB, evaluateTable31AB, hA, hB, hsub, if_neg (by decide)]
    have hquotient : evaluateAB 971 (c.getGPR inst.ra) (c.getGPR inst.rb) =
        some ((c.getGPR inst.ra / c.getGPR inst.rb).setWidth 64,
          (c.getGPR inst.ra / c.getGPR inst.rb).setWidth 64) := by
      show some _ = some _
      rw [if_neg hmsb.1]
    rw [hquotient]
  intro heq
  rw [hexecute, hflags, hfold, apply_withFlags (table31Flags 971) (by rw [hoe]; rfl),
    divwu_overflow, hmsb.2, Option.some_inj] at heq
  have hov := congrArg PPCState.getXER_OV heq
  rw [writeD_getXER_OV hoe, divwux, writeD_getXER_OV hoe, hs inst.rb hB, hone] at hov
  cases hov

/-- **Folding an instruction** whose known operands have their values in the state gives the state,
the carry, the overflow and CR0 of its handler, exactly if it is not `divwuo` with a wide quotient. -/
theorem evaluateInstruction_correct_iff (other : BitVec 64) (hs : c.Consistent s)
    (hfull : (c.evaluateInstruction inst (opInfoFlags other inst)).instructionFullyExecuted =
      true) :
    execute s inst = some ((c.evaluateInstruction inst (opInfoFlags other inst)).apply s) ↔
      ¬ WideQuotient c inst :=
  ⟨fun h hwide => evaluateInstruction_wide other hs hwide h,
    fun hwide => evaluateInstruction_correct other hs hwide hfull⟩

/-- All registers are known to be 1. -/
def onesKnown : ConstantPropagation := ⟨fun _ => 1, fun _ => true⟩

def onesState : PPCState := ⟨fun _ => 1, 0, 0, 0⟩

/-- `add r3, r4, r5` -/
def addWord : Inst := ⟨0x7C642A14⟩

theorem evaluateInstruction_correct_iff_add :
    execute onesState addWord =
        some ((onesKnown.evaluateInstruction addWord (opInfoFlags 0 addWord)).apply onesState) ↔
      ¬ WideQuotient onesKnown addWord :=
  evaluateInstruction_correct_iff 0 (fun _ _ => rfl) (by decide)

/-- r4 is known to be 0x80000000, every other register to be 1. -/
def wideKnown : ConstantPropagation := ⟨fun r => if r = 4 then 0x80000000 else 1, fun _ => true⟩

def wideState : PPCState := ⟨wideKnown.getGPR, 0, 0, 0⟩

/-- `divwuo r3, r4, r5` -/
def divwuoWord : Inst := ⟨0x7C642F96⟩

theorem divwuo_wide_folded_with_overflow :
    (∀ r, wideKnown.hasGPR r = true → wideState.gpr r = wideKnown.getGPR r) ∧
      (wideKnown.evaluateInstruction divwuoWord (opInfoFlags 0 divwuoWord)).instructionFullyExecuted =
        true ∧
      (execute wideState divwuoWord).map PPCState.getXER_OV = some 0 ∧
      (((wideKnown.evaluateInstruction divwuoWord (opInfoFlags 0 divwuoWord)).apply
        wideState).getXER_OV) = 1 :=
  ⟨fun _ _ => rfl, by decide, by decide, by decide⟩

end ConstantPropagation

end PowerPC
