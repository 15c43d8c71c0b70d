import PrimedSteam.Arm64.ConstantMoves

/-!
# Additions of constants

`ADDI2R` and its kin add or subtract a constant, in one instruction, as the subtraction or addition of the negated
constant, in two instructions, or with the constant in a scratch register.

* `addSub_neg`: a constant that is not its own negative can be negated.
* `ADDI2R_internal_iff`: the code does what one instruction would do.
* `arithmetic_iff`: when it does so for all operands, with the stack pointer as a register.
-/

set_option autoImplicit false

namespace Arm64Gen

/-! ## The emitter -/

/-- `MOVI2R2`: the shorter code of two constants, and if it is that of the second one. -/
def MOVI2R2 (Rd : ARM64Reg) (imm1 imm2 pc : BitVec 64) : Option (List Inst × Bool) := do
  let code1 ← MOVI2R Rd imm1 pc
  let size1 := 4 * code1.length
  let code2 ← MOVI2R Rd imm2 pc
  let size2 := 4 * code2.length
  let element := decide (size1 > size2)
  let code ← MOVI2R Rd (if element then imm2 else imm1) pc
  some (code, element)

/-- `AddImmediate` -/
def addImmediate (Rd Rn : ARM64Reg) (imm : BitVec 64) (shift negative flags : Bool) : Option (List Inst) :=
  encodeAddSubImm negative flags shift (imm.setWidth 32) Rn Rd

/-- Without a scratch register or for a constant that it takes more than one instruction to load. -/
def splits (imm : BitVec 64) (scratch : Option ARM64Reg) : Bool :=
  (decide (0x10000 ≤ imm) || scratch.isNone) && decide (imm < 0x1000000)

/-- `ADDI2R_internal` at the address `pc`. -/
def ADDI2R_internal (Rd Rn : ARM64Reg) (imm : BitVec 64) (negative flags : Bool) (scratch : Option ARM64Reg)
    (pc : BitVec 64) : Option (List Inst) :=
  let imm := fit Rd.size imm
  let immNeg := fit Rd.size (-imm)
  let negNeg := !negative
  if imm = 0 ∧ flags = false ∧ Rd = Rn then some []
  else if imm = 0 ∧ flags = false ∧ Rd.num ≠ 31 ∧ Rn.num ≠ 31 then some (MOV Rd Rn)
  else if imm ≤ 0xFFF then addImmediate Rd Rn imm false negative flags
  else if imm ≤ 0xFFFFFF ∧ imm &&& 0xFFF = 0 then addImmediate Rd Rn (imm >>> 12) true negative flags
  else if immNeg ≤ 0xFFF then addImmediate Rd Rn immNeg false negNeg flags
  else if immNeg ≤ 0xFFFFFF ∧ immNeg &&& 0xFFF = 0 then addImmediate Rd Rn (immNeg >>> 12) true negNeg flags
  else if flags = false ∧ splits imm scratch = true then do
    let low ← addImmediate Rd Rn (imm &&& 0xFFF) false negative false
    let high ← addImmediate Rd Rd (imm >>> 12) true negative false
    some (low ++ high)
  else if flags = false ∧ splits immNeg scratch = true then do
    let low ← addImmediate Rd Rn (immNeg &&& 0xFFF) false negNeg false
    let high ← addImmediate Rd Rd (immNeg >>> 12) true negNeg false
    some (low ++ high)
  else do
    let scratch ← scratch
    let (code, element) ← MOVI2R2 scratch imm immNeg pc
    some (code ++ [.addReg (negative ^^ element) flags Rd Rn scratch])

def ADDI2R (Rd Rn : ARM64Reg) (imm : BitVec 64) (scratch : Option ARM64Reg) : BitVec 64 → Option (List Inst) :=
  ADDI2R_internal Rd Rn imm false false scratch

def ADDSI2R (Rd Rn : ARM64Reg) (imm : BitVec 64) (scratch : Option ARM64Reg) : BitVec 64 → Option (List Inst) :=
  ADDI2R_internal Rd Rn imm false true scratch

def SUBI2R (Rd Rn : ARM64Reg) (imm : BitVec 64) (scratch : Option ARM64Reg) : BitVec 64 → Option (List Inst) :=
  ADDI2R_internal Rd Rn imm true false scratch

def SUBSI2R (Rd Rn : ARM64Reg) (imm : BitVec 64) (scratch : Option ARM64Reg) : BitVec 64 → Option (List Inst) :=
  ADDI2R_internal Rd Rn imm true true scratch

def CMPI2R (Rn : ARM64Reg) (imm : BitVec 64) (scratch : Option ARM64Reg) : BitVec 64 → Option (List Inst) :=
  ADDI2R_internal (zeroReg Rn.size) Rn imm true true scratch

/-! ## Negated constants -/

section Negated

variable {w : ℕ}

/-- The complement of a negated number is the number before it. -/
theorem toNat_not_neg {z : BitVec w} (hz : z ≠ -z) :
    0 < z.toNat ∧ 2 * z.toNat ≠ 2 ^ w ∧ (~~~(-z)).toNat = z.toNat - 1 := by
  have hlt := z.isLt
  have hpos : 0 < z.toNat := by
    refine Nat.pos_of_ne_zero fun h => hz ?_
    obtain rfl : z = 0 := BitVec.eq_of_toNat_eq h
    simp
  have hmod : (2 ^ w - z.toNat) % 2 ^ w = 2 ^ w - z.toNat := Nat.mod_eq_of_lt (by omega)
  refine ⟨hpos, fun h => hz (BitVec.eq_of_toNat_eq ?_), ?_⟩
  · rw [BitVec.toNat_neg, hmod]
    omega
  · rw [BitVec.toNat_not, BitVec.toNat_neg, hmod]
    omega

theorem toInt_not_neg {z : BitVec w} (hz : z ≠ -z) : (~~~(-z)).toInt = z.toInt - 1 := by
  obtain ⟨hpos, hhalf, hnat⟩ := toNat_not_neg hz
  have hlt := z.isLt
  obtain ⟨m, rfl⟩ : ∃ m, w = m + 1 := Nat.exists_eq_succ_of_ne_zero fun h => by
    subst h
    omega
  rw [BitVec.toInt_eq_toNat_cond, BitVec.toInt_eq_toNat_cond, hnat]
  have hpow : 2 ^ (m + 1) = 2 * 2 ^ m := Nat.pow_succ'
  rw [hpow] at hlt hhalf ⊢
  split_ifs
  · omega
  · omega
  · omega
  · push_cast
    omega

/-- A subtraction of the negated number sets the flags of the addition. -/
theorem sub_neg_eq_add (x : BitVec w) {z : BitVec w} (hz : z ≠ -z) :
    addSubBits true x (-z) = addSubBits false x z := by
  obtain ⟨hpos, -, hnat⟩ := toNat_not_neg hz
  have hint := toInt_not_neg hz
  have hunsigned : x.toNat + (~~~(-z)).toNat + true.toNat = x.toNat + z.toNat + false.toNat := by
    rw [hnat]
    simp only [Bool.toNat_true, Bool.toNat_false]
    omega
  have hsigned : x.toInt + (~~~(-z)).toInt + (true.toNat : ℤ) = x.toInt + z.toInt + (false.toNat : ℤ) := by
    rw [hint]
    simp only [Bool.toNat_true, Bool.toNat_false]
    omega
  rw [addSubBits, addSubBits, if_pos rfl, if_neg (by decide)]
  rw [addWithCarry, addWithCarry, hunsigned, hsigned]

theorem addSubBits_neg (negative : Bool) (x : BitVec w) {z : BitVec w} (hz : z ≠ -z) :
    addSubBits (!negative) x (-z) = addSubBits negative x z := by
  cases negative with
  | false => exact sub_neg_eq_add x hz
  | true =>
    have hneg : -z ≠ - -z := by
      rw [BitVec.neg_neg]
      exact hz.symm
    have h := sub_neg_eq_add x hneg
    rw [BitVec.neg_neg] at h
    exact h.symm

theorem fit_neg (size : GPRSize) (y : BitVec 64) : fit size (-fit size y) = fit size (-y) := by
  cases size with
  | b64 => rfl
  | b32 => simp [fit, BitVec.setWidth_neg_of_le]

theorem addSub_neg (size : GPRSize) (negative : Bool) (x : BitVec 64) {y : BitVec 64}
    (hy : fit size y ≠ fit size (-y)) :
    addSub size (!negative) x (fit size (-y)) = addSub size negative x (fit size y) := by
  cases size with
  | b64 => exact addSubBits_neg negative x hy
  | b32 =>
    have hne : y.setWidth 32 ≠ -y.setWidth 32 := by
      intro h
      apply hy
      rw [fit, fit, BitVec.setWidth_neg_of_le (by decide), ← h]
    have h := addSubBits_neg negative (x.setWidth 32) hne
    rw [← BitVec.setWidth_neg_of_le (by decide)] at h
    simp only [addSub, fit, BitVec.setWidth_setWidth_of_le _ (show 32 ≤ 64 by decide), BitVec.setWidth_eq]
    rw [h]

end Negated

/-! ## One instruction -/

/-- What one instruction with the constant as its operand does. -/
def sumState (s : Cpu) (negative flags : Bool) (Rd Rn : ARM64Reg) (y : BitVec 64) : Cpu :=
  let r := addSub Rd.size negative (s.readSp (encodeRegTo Rd.size Rn)) y
  if flags then { s.writeZr Rd r.1 with flags := r.2 } else s.writeSp Rd r.1

/-- Code that does just that. -/
def Sums (code : Option (List Inst)) (pc : BitVec 64) (negative flags : Bool) (Rd Rn : ARM64Reg)
    (y : BitVec 64) : Prop :=
  ∃ c, code = some c ∧ ∀ s, run pc c s = sumState s negative flags Rd Rn y

section Sums

variable {pc v : BitVec 64} {negative flags shift : Bool} {Rd Rn : ARM64Reg} {s : Cpu}

theorem sumState_false : sumState s negative false Rd Rn v = s.writeSp Rd
    (if negative then s.readSp (encodeRegTo Rd.size Rn) - v else s.readSp (encodeRegTo Rd.size Rn) + v) := by
  rw [sumState]
  simp only [Bool.false_eq_true, if_false, addSub_fst]
  exact writeSp_fit

theorem readZr_of_ne (h : Rd.num ≠ 31) : s.readZr Rd = s.readSp Rd := if_neg h

theorem readSp_writeSp : (s.writeSp Rd v).readSp (encodeRegTo Rd.size Rd) = fit Rd.size v := by
  simp [Cpu.readSp, Cpu.writeSp, encodeRegTo]

theorem readSp_self : (s.writeSp Rd v).readSp Rd = fit Rd.size v := readSp_writeSp

theorem fit_addSub {size : GPRSize} {x y : BitVec 64} :
    fit size (addSub size negative x y).1 = (addSub size negative x y).1 := by
  rw [addSub_fst, fit_fit]

theorem addImmediate_eq (hv : v ≤ 0xFFF) : addImmediate Rd Rn v shift negative flags
    = some [.addImm negative flags Rd Rn (v.setWidth 12) shift] := by
  have hlt : v.toNat < 2 ^ 12 := Nat.lt_succ_of_le (BitVec.le_def.mp hv)
  have hrange : v.setWidth 32 &&& ~~~0xFFF = 0 := by
    have hmask : ∀ k < 32, (~~~0xFFF : BitVec 32).getLsbD k = decide (12 ≤ k) := by decide
    refine BitVec.eq_of_getLsbD_eq fun k hk => ?_
    rw [BitVec.getLsbD_and, hmask k hk, BitVec.getLsbD_setWidth]
    by_cases hlow : 12 ≤ k
    · have hbit : v.getLsbD k = false :=
        Nat.testBit_lt_two_pow (lt_of_lt_of_le hlt (Nat.pow_le_pow_right (by decide) hlow))
      rw [hbit]
      simp
    · simp [hlow]
  rw [addImmediate, encodeAddSubImm, if_pos hrange, BitVec.setWidth_setWidth_of_le _ (by decide)]

theorem setWidth_low (hv : v ≤ 0xFFF) : (v.setWidth 12).setWidth 64 = v := by
  have hlt : v.toNat < 2 ^ 12 := Nat.lt_succ_of_le (BitVec.le_def.mp hv)
  apply BitVec.eq_of_toNat_eq
  rw [BitVec.toNat_setWidth, BitVec.toNat_setWidth, Nat.mod_eq_of_lt hlt, Nat.mod_eq_of_lt (by omega)]

theorem toNat_low (v : BitVec 64) : (v &&& 0xFFF).toNat = v.toNat % 4096 := by
  rw [BitVec.toNat_and]
  exact Nat.and_two_pow_sub_one_eq_mod _ 12

theorem low_add_high (v : BitVec 64) : (v &&& (0xFFF : BitVec 64)) + (v >>> 12) <<< 12 = v := by
  have hlt := v.isLt
  apply BitVec.eq_of_toNat_eq
  rw [BitVec.toNat_add, toNat_low, BitVec.toNat_shiftLeft, BitVec.toNat_ushiftRight, Nat.shiftLeft_eq,
    Nat.shiftRight_eq_div_pow]
  omega

theorem high_le (hv : v < 0x1000000) : v >>> 12 ≤ 0xFFF := by
  have hlt : v.toNat < 0x1000000 := BitVec.lt_def.mp hv
  refine BitVec.le_def.mpr ?_
  rw [BitVec.toNat_ushiftRight, Nat.shiftRight_eq_div_pow]
  have hdiv : v.toNat / 2 ^ 12 ≤ 0xFFF := by omega
  exact hdiv

theorem low_le (v : BitVec 64) : v &&& 0xFFF ≤ 0xFFF := by
  refine BitVec.le_def.mpr ?_
  rw [toNat_low]
  have hmod : v.toNat % 4096 ≤ 0xFFF := by omega
  exact hmod

theorem sums_small (hv : v ≤ 0xFFF) :
    Sums (addImmediate Rd Rn v false negative flags) pc negative flags Rd Rn v := by
  refine ⟨_, addImmediate_eq hv, fun s => ?_⟩
  have hlow := setWidth_low hv
  rw [run, run, Inst.exec, sumState]
  simp only [Bool.false_eq_true, if_false, hlow]

theorem sums_high (hv : v < 0x1000000) :
    Sums (addImmediate Rd Rn (v >>> 12) true negative flags) pc negative flags Rd Rn ((v >>> 12) <<< 12) := by
  refine ⟨_, addImmediate_eq (high_le hv), fun s => ?_⟩
  have hlow := setWidth_low (high_le hv)
  rw [run, run, Inst.exec, sumState]
  simp only [if_true, hlow]

theorem sums_shifted (hv : v ≤ 0xFFFFFF) (hlow : v &&& 0xFFF = 0) :
    Sums (addImmediate Rd Rn (v >>> 12) true negative flags) pc negative flags Rd Rn v := by
  have hlt : v < 0x1000000 := BitVec.lt_def.mpr (Nat.lt_succ_of_le (BitVec.le_def.mp hv))
  have h := @sums_high pc v negative flags Rd Rn hlt
  have hsum := low_add_high v
  rw [hlow] at hsum
  simp only [BitVec.ofNat_eq_ofNat, BitVec.zero_add] at hsum
  rwa [hsum] at h

theorem sums_split (hv : v < 0x1000000) :
    Sums (do
      let low ← addImmediate Rd Rn (v &&& 0xFFF) false negative false
      let high ← addImmediate Rd Rd (v >>> 12) true negative false
      some (low ++ high)) pc negative false Rd Rn v := by
  obtain ⟨low, hlow, hrunlow⟩ := @sums_small pc _ negative false Rd Rn (low_le v)
  obtain ⟨high, hhigh, hrunhigh⟩ := @sums_high (pc + 4 * BitVec.ofNat 64 low.length) _ negative false Rd Rd hv
  refine ⟨low ++ high, by rw [hlow, hhigh]; rfl, fun s => ?_⟩
  rw [run_append, hrunlow, hrunhigh, sumState_false, sumState_false, sumState_false, readSp_writeSp, writeSp_writeSp]
  have hsum := low_add_high v
  generalize s.readSp (encodeRegTo Rd.size Rn) = x
  generalize v &&& 0xFFF = a at hsum
  generalize (v >>> 12) <<< 12 = b at hsum
  rw [← hsum, ← writeSp_fit, ← @writeSp_fit s (if negative = true then x - (a + b) else x + (a + b))]
  congr 1
  cases negative with
  | false =>
    simp only [Bool.false_eq_true, if_false]
    rw [← BitVec.add_assoc, ← fit_add, fit_fit, fit_add]
  | true =>
    simp only [if_true]
    have hassoc : x - (a + b) = x - a + -b := by
      rw [BitVec.sub_eq_add_neg, BitVec.sub_eq_add_neg, BitVec.neg_add, BitVec.sub_eq_add_neg, BitVec.add_assoc]
    rw [hassoc, BitVec.sub_eq_add_neg _ b, ← fit_add, fit_fit, fit_add]

theorem sumState_neg {y : BitVec 64} (hy : fit Rd.size y ≠ fit Rd.size (-y)) :
    sumState s (!negative) flags Rd Rn (fit Rd.size (-y)) = sumState s negative flags Rd Rn (fit Rd.size y) := by
  rw [sumState, sumState, addSub_neg Rd.size negative _ hy]

end Sums

/-! ## The forms -/

/-- The destination modulo the width, all other registers but the scratch register, and the flags. -/
structure Agree (scratch : Option ARM64Reg) (Rd : ARM64Reg) (s t : Cpu) : Prop where
  flags : s.flags = t.flags
  value : s.readSp Rd = t.readSp Rd
  others : ∀ n, n ≠ Rd.num → (∀ r ∈ scratch, n ≠ r.num) → s.x n = t.x n

theorem Agree.refl (scratch : Option ARM64Reg) (Rd : ARM64Reg) (s : Cpu) : Agree scratch Rd s s :=
  ⟨rfl, rfl, fun _ _ _ => rfl⟩

/-- There is code with a scratch register, and the code does what one instruction does, for all operands. -/
def Computes (code : Option (List Inst)) (pc : BitVec 64) (negative flags : Bool) (Rd Rn : ARM64Reg)
    (imm : BitVec 64) (scratch : Option ARM64Reg) : Prop :=
  (scratch.isSome → code.isSome) ∧ ∀ c, code = some c → ∀ s,
    Agree scratch Rd (run pc c s) (sumState s negative flags Rd Rn (fit Rd.size imm))

/-- The constants of one instruction. -/
def IsShort (v : BitVec 64) : Prop := v ≤ 0xFFF ∨ (v ≤ 0xFFFFFF ∧ v &&& 0xFFF = 0)

/-- The constants for which the scratch register is used if there is one. -/
def NeedsScratch (size : GPRSize) (imm : BitVec 64) (flags : Bool) : Prop :=
  ¬IsShort (fit size imm) ∧ ¬IsShort (fit size (-imm)) ∧
    (flags = true ∨ (¬(0x10000 ≤ fit size imm ∧ fit size imm < 0x1000000) ∧
      ¬(0x10000 ≤ fit size (-imm) ∧ fit size (-imm) < 0x1000000)))

section Forms

variable {pc imm : BitVec 64} {negative flags : Bool} {Rd Rn r : ARM64Reg} {scratch : Option ARM64Reg}

theorem Sums.computes {code : Option (List Inst)}
    (h : Sums code pc negative flags Rd Rn (fit Rd.size imm)) :
    Computes code pc negative flags Rd Rn imm scratch := by
  obtain ⟨c, rfl, hrun⟩ := h
  refine ⟨fun _ => rfl, fun c' hc' s => ?_⟩
  rw [Option.some_inj] at hc'
  rw [← hc', hrun]
  exact Agree.refl _ _ _

theorem Sums.computes_neg {code : Option (List Inst)} (hne : fit Rd.size imm ≠ fit Rd.size (-imm))
    (h : Sums code pc (!negative) flags Rd Rn (fit Rd.size (-imm))) :
    Computes code pc negative flags Rd Rn imm scratch := by
  obtain ⟨c, rfl, hrun⟩ := h
  refine ⟨fun _ => rfl, fun c' hc' s => ?_⟩
  rw [Option.some_inj] at hc'
  rw [← hc', hrun, sumState_neg hne]
  exact Agree.refl _ _ _

theorem computes_zero (hzero : fit Rd.size imm = 0) (hsize : Rn.size = Rd.size) :
    (Rd = Rn → Computes (some []) pc negative false Rd Rn imm scratch) ∧
      (Rd.num ≠ 31 → Rn.num ≠ 31 → Computes (some (MOV Rd Rn)) pc negative false Rd Rn imm scratch) := by
  have hsum : ∀ s, sumState s negative false Rd Rn (fit Rd.size imm)
      = s.writeSp Rd (s.readSp (encodeRegTo Rd.size Rn)) := by
    intro s
    rw [sumState_false, hzero]
    cases negative with
    | false => simp
    | true => simp
  refine ⟨?_, fun hRd hRn => ⟨fun _ => rfl, fun c hc s => ?_⟩⟩
  · rintro rfl
    refine ⟨fun _ => rfl, fun c hc s => ?_⟩
    rw [Option.some_inj] at hc
    rw [← hc, run, hsum]
    refine ⟨rfl, ?_, fun n hn _ => (writeSp_x_of_ne hn).symm⟩
    have hread := @readSp_writeSp (s.readSp (encodeRegTo Rd.size Rd)) Rd s
    simp only [encodeRegTo] at hread ⊢
    rw [hread, Cpu.readSp, fit_fit]
  · rw [Option.some_inj] at hc
    rw [← hc, MOV, run, run, hsum, Inst.exec, Cpu.writeZr, if_neg hRd, encodeRegTo_zeroReg, readZr_zeroReg,
      readZr_of_ne (show (encodeRegTo Rd.size Rn).num ≠ 31 from hRn)]
    simp only [BitVec.ofNat_eq_ofNat, BitVec.zero_or]
    exact Agree.refl _ _ _

theorem computes_direct (hsize : Rn.size = Rd.size) (h : scratch = none ∨ ¬NeedsScratch Rd.size imm flags) :
    Computes (ADDI2R_internal Rd Rn imm negative flags scratch pc) pc negative flags Rd Rn imm scratch := by
  rw [ADDI2R_internal]
  dsimp only
  rw [fit_neg]
  by_cases hsame : fit Rd.size imm = 0 ∧ flags = false ∧ Rd = Rn
  · rw [if_pos hsame]
    obtain ⟨hzero, rfl, heq⟩ := hsame
    exact (computes_zero hzero hsize).1 heq
  rw [if_neg hsame]
  by_cases hmov : fit Rd.size imm = 0 ∧ flags = false ∧ Rd.num ≠ 31 ∧ Rn.num ≠ 31
  · rw [if_pos hmov]
    obtain ⟨hzero, rfl, hRd, hRn⟩ := hmov
    exact (computes_zero hzero hsize).2 hRd hRn
  rw [if_neg hmov]
  by_cases hsmall : fit Rd.size imm ≤ 0xFFF
  · rw [if_pos hsmall]
    exact (sums_small hsmall).computes
  rw [if_neg hsmall]
  by_cases hshift : fit Rd.size imm ≤ 0xFFFFFF ∧ fit Rd.size imm &&& 0xFFF = 0
  · rw [if_pos hshift]
    exact (sums_shifted hshift.1 hshift.2).computes
  rw [if_neg hshift]
  by_cases hsmall' : fit Rd.size (-imm) ≤ 0xFFF
  · rw [if_pos hsmall']
    exact (sums_small hsmall').computes_neg fun heq => hsmall (heq ▸ hsmall')
  rw [if_neg hsmall']
  by_cases hshift' : fit Rd.size (-imm) ≤ 0xFFFFFF ∧ fit Rd.size (-imm) &&& 0xFFF = 0
  · rw [if_pos hshift']
    exact (sums_shifted hshift'.1 hshift'.2).computes_neg fun heq => hshift (heq ▸ hshift')
  rw [if_neg hshift']
  by_cases hsplit : flags = false ∧ splits (fit Rd.size imm) scratch = true
  · rw [if_pos hsplit]
    obtain ⟨rfl, hsplit⟩ := hsplit
    rw [splits, Bool.and_eq_true, decide_eq_true_iff] at hsplit
    exact (sums_split hsplit.2).computes
  rw [if_neg hsplit]
  by_cases hsplit' : flags = false ∧ splits (fit Rd.size (-imm)) scratch = true
  · rw [if_pos hsplit']
    have hne : fit Rd.size imm ≠ fit Rd.size (-imm) := fun heq => hsplit (heq ▸ hsplit')
    obtain ⟨rfl, hsplit'⟩ := hsplit'
    rw [splits, Bool.and_eq_true, decide_eq_true_iff] at hsplit'
    exact (sums_split hsplit'.2).computes_neg hne
  rw [if_neg hsplit']
  cases scratch with
  | none => exact ⟨fun h => absurd h (by decide), fun c hc => by cases hc⟩
  | some r =>
    exfalso
    refine h.elim (fun h => by cases h) fun h => h ⟨not_or.mpr ⟨hsmall, hshift⟩, not_or.mpr ⟨hsmall', hshift'⟩, ?_⟩
    cases flags with
    | true => exact .inl rfl
    | false =>
      simp only [splits, Option.isNone_some, Bool.or_false, Bool.and_eq_true, decide_eq_true_iff, true_and]
        at hsplit hsplit'
      exact .inr ⟨hsplit, hsplit'⟩

theorem fit_ne_zero_of_not_short {size : GPRSize} (h : ¬IsShort (fit size imm)) : fit size imm ≠ 0 := by
  intro hzero
  apply h
  rw [hzero]
  exact .inl (by decide)

theorem ADDI2R_internal_scratch (h : NeedsScratch Rd.size imm flags) :
    ADDI2R_internal Rd Rn imm negative flags (some r) pc = (do
      let (code, element) ← MOVI2R2 r (fit Rd.size imm) (fit Rd.size (-imm)) pc
      some (code ++ [.addReg (negative ^^ element) flags Rd Rn r])) := by
  obtain ⟨hshort, hshort', hflags⟩ := h
  have hzero := fit_ne_zero_of_not_short hshort
  rw [IsShort, not_or] at hshort hshort'
  rw [ADDI2R_internal]
  dsimp only
  rw [fit_neg, if_neg (fun h => hzero h.1), if_neg (fun h => hzero h.1), if_neg hshort.1, if_neg hshort.2,
    if_neg hshort'.1, if_neg hshort'.2, if_neg, if_neg]
  · rfl
  · rintro ⟨hfalse, hsplit⟩
    simp only [splits, Option.isNone_some, Bool.or_false, Bool.and_eq_true, decide_eq_true_iff] at hsplit
    rw [hfalse] at hflags
    exact (hflags.resolve_left (by decide)).2 hsplit
  · rintro ⟨hfalse, hsplit⟩
    simp only [splits, Option.isNone_some, Bool.or_false, Bool.and_eq_true, decide_eq_true_iff] at hsplit
    rw [hfalse] at hflags
    exact (hflags.resolve_left (by decide)).1 hsplit

/-- The shorter one of two constants is loaded. Where both are the same it is the first one. -/
theorem MOVI2R2_spec (size : GPRSize) (d : Fin 31) (imm1 imm2 pc : BitVec 64) :
    ∃ code element, MOVI2R2 (gpr size d) imm1 imm2 pc = some (code, element) ∧ (imm1 = imm2 → element = false) ∧
      ∀ s, run pc code s = s.writeSp (gpr size d) (fit size (if element then imm2 else imm1)) := by
  obtain ⟨code1, hcode1, -, -, hrun1⟩ := movi2r_spec size d imm1 pc
  obtain ⟨code2, hcode2, -, -, hrun2⟩ := movi2r_spec size d imm2 pc
  have hemit : MOVI2R2 (gpr size d) imm1 imm2 pc
      = some (if 4 * code1.length > 4 * code2.length then (code2, true) else (code1, false)) := by
    rw [MOVI2R2, hcode1, hcode2]
    simp only [Option.bind_eq_bind, Option.bind_some]
    by_cases hlt : 4 * code1.length > 4 * code2.length
    · rw [if_pos hlt, if_pos (decide_eq_true hlt), hcode2, decide_eq_true hlt]
      rfl
    · rw [if_neg hlt, if_neg (by simpa using hlt), hcode1, decide_eq_false hlt]
      rfl
  rw [hemit]
  split_ifs with hlt
  · refine ⟨code2, true, rfl, ?_, hrun2⟩
    rintro rfl
    rw [hcode1, Option.some_inj] at hcode2
    rw [hcode2] at hlt
    exact absurd hlt (lt_irrefl _)
  · exact ⟨code1, false, rfl, fun _ => rfl, hrun1⟩

/-- The scratch register holds the width of the operation, and is another register than the operand. -/
def ScratchFor (Rd Rn : ARM64Reg) (r : ARM64Reg) : Prop :=
  r.num ≠ 31 ∧ r.num ≠ Rn.num ∧ (Rd.size = .b64 → r.size = .b64)

theorem scratch_spec (hr : ScratchFor Rd Rn r) (h : NeedsScratch Rd.size imm flags) :
    ∃ code element, ADDI2R_internal Rd Rn imm negative flags (some r) pc
        = some (code ++ [.addReg (negative ^^ element) flags Rd Rn r]) ∧
      ∀ s v, addSub Rd.size (negative ^^ element) v
          (((run pc code s).readZr (encodeRegTo Rd.size r))) = addSub Rd.size negative v (fit Rd.size imm) ∧
        ∃ w, run pc code s = s.writeSp r w := by
  obtain ⟨d, hd⟩ : ∃ d : Fin 31, r = gpr r.size d := by
    have hlt : r.num.val < 31 := by
      have hne : r.num.val ≠ 31 := fun h => hr.1 (Fin.ext h)
      omega
    exact ⟨⟨r.num.val, hlt⟩, rfl⟩
  obtain ⟨code, element, hcode, hsame, hrun⟩ := MOVI2R2_spec r.size d (fit Rd.size imm) (fit Rd.size (-imm)) pc
  rw [← hd] at hcode hrun
  refine ⟨code, element, ?_, fun s v => ⟨?_, _, hrun s⟩⟩
  · rw [ADDI2R_internal_scratch h, hcode]
    rfl
  · have hread : ∀ w, (s.writeSp r (fit r.size (fit Rd.size w))).readZr (encodeRegTo Rd.size r) = fit Rd.size w := by
      intro w
      have hwide := hr.2.2
      rw [readZr_of_ne (show (encodeRegTo Rd.size r).num ≠ 31 from hr.1)]
      simp only [Cpu.readSp, Cpu.writeSp, encodeRegTo, Function.update_self, fit_fit]
      cases hsize : Rd.size with
      | b64 => rw [hwide hsize]; rfl
      | b32 =>
        cases r.size with
        | b64 => rw [fit_b64, fit_fit]
        | b32 => rw [fit_fit, fit_fit]
    rw [hrun]
    cases element with
    | false =>
      rw [if_neg (by decide), hread, Bool.xor_false]
    | true =>
      have hne : fit Rd.size imm ≠ fit Rd.size (-imm) := fun heq => by
        have helement := hsame heq
        cases helement
      rw [if_pos rfl, hread, Bool.xor_true, addSub_neg _ _ _ hne]

/-- The forms with a scratch register and registers from 0 to 30, or zero as the destination of flags. -/
theorem computes_scratch (hr : ScratchFor Rd Rn r) (h : NeedsScratch Rd.size imm flags) (hRn : Rn.num ≠ 31)
    (hRd : Rd.num = 31 → flags = true) :
    Computes (ADDI2R_internal Rd Rn imm negative flags (some r) pc) pc negative flags Rd Rn imm (some r) := by
  obtain ⟨code, element, hcode, hrun⟩ := @scratch_spec pc imm negative flags Rd Rn r hr h
  rw [hcode]
  refine ⟨fun _ => rfl, fun c hc s => ?_⟩
  rw [Option.some_inj] at hc
  obtain ⟨hsum, w, hw⟩ := hrun s (s.readSp (encodeRegTo Rd.size Rn))
  have hRn' : (s.writeSp r w).readSp (encodeRegTo Rd.size Rn) = s.readSp (encodeRegTo Rd.size Rn) := by
    rw [Cpu.readSp, Cpu.readSp, writeSp_x_of_ne (show (encodeRegTo Rd.size Rn).num ≠ r.num from fun h =>
      hr.2.1 h.symm)]
  have hothers : ∀ n, n ≠ Rd.num → (∀ r' ∈ some r, n ≠ r'.num) →
      ∀ v, ((s.writeSp r w).writeSp Rd v).x n = (s.writeSp Rd v).x n := by
    intro n hn hscratch v
    rw [writeSp_x_of_ne hn, writeSp_x_of_ne hn, writeSp_x_of_ne (hscratch r rfl)]
  have hvalue : ∀ v, ((s.writeSp r w).writeSp Rd v).readSp Rd = (s.writeSp Rd v).readSp Rd := by
    intro v
    simp [Cpu.readSp, Cpu.writeSp]
  rw [← hc, run_append, run, run, Inst.exec, readZr_of_ne (show (encodeRegTo Rd.size Rn).num ≠ 31 from hRn),
    sumState]
  rw [hw] at hsum ⊢
  rw [hRn', hsum]
  generalize addSub Rd.size negative (s.readSp (encodeRegTo Rd.size Rn)) (fit Rd.size imm) = sum
  dsimp only
  by_cases hzr : Rd.num = 31
  · rw [hRd hzr, if_pos rfl, if_pos rfl, Cpu.writeZr, Cpu.writeZr, if_pos hzr, if_pos hzr]
    refine ⟨rfl, ?_, fun n _ hscratch => writeSp_x_of_ne (hscratch r rfl)⟩
    simp only [Cpu.readSp]
    rw [writeSp_x_of_ne (fun h => hr.1 (h ▸ hzr))]
  · rw [Cpu.writeZr, Cpu.writeZr, if_neg hzr, if_neg hzr]
    cases flags with
    | true => exact ⟨rfl, hvalue _, fun n hn hscratch => hothers n hn hscratch _⟩
    | false => exact ⟨rfl, hvalue _, fun n hn hscratch => hothers n hn hscratch _⟩

/-! ## The stack pointer -/

theorem addSub_z (size : GPRSize) (x y : BitVec 64) :
    (addSub size negative x y).2.z = decide ((addSub size negative x y).1 = 0) := by
  have hbits : ∀ {w : ℕ} (x y : BitVec w),
      (addSubBits negative x y).2.z = decide ((addSubBits negative x y).1 = 0) := by
    intro w x y
    cases negative with
    | false => rfl
    | true => rfl
  cases size with
  | b64 => exact hbits x y
  | b32 =>
    have hzero : ∀ v : BitVec 32, v.setWidth 64 = 0 ↔ v = 0 := by
      intro v
      constructor
      · intro h
        apply BitVec.eq_of_toNat_eq
        have hnat := congrArg BitVec.toNat h
        rw [BitVec.toNat_setWidth, Nat.mod_eq_of_lt (lt_trans v.isLt (by decide))] at hnat
        exact hnat
      · rintro rfl
        rfl
    rw [addSub]
    dsimp only
    rw [hbits, decide_eq_decide, hzero]

section Sp

variable {s : Cpu}

theorem addSub_zero_ne (h : NeedsScratch Rd.size imm flags) {x : BitVec 64} (hx : fit Rd.size x = 0) :
    (addSub Rd.size negative x (fit Rd.size imm)).1 ≠ 0 := by
  have hy := fit_ne_zero_of_not_short h.1
  have hy' := fit_ne_zero_of_not_short h.2.1
  rw [addSub_fst]
  cases negative with
  | false => rwa [if_neg (by decide), ← fit_add, hx, fit_fit, BitVec.ofNat_eq_ofNat, BitVec.zero_add, fit_fit]
  | true =>
    rwa [if_pos rfl, BitVec.sub_eq_add_neg, ← fit_add, hx, fit_neg, BitVec.ofNat_eq_ofNat, BitVec.zero_add, fit_fit]

/-- The stack pointer with which the result is zero. -/
def opposite (size : GPRSize) (negative : Bool) (imm : BitVec 64) : Cpu :=
  ⟨fun _ => if negative then fit size imm else fit size (-imm), ⟨false, false, false, false⟩⟩

theorem addSub_opposite : (addSub Rd.size negative
    ((opposite Rd.size negative imm).readSp (encodeRegTo Rd.size Rn)) (fit Rd.size imm)).1 = 0 := by
  rw [addSub_fst]
  cases negative with
  | false =>
    simp only [opposite, Cpu.readSp, encodeRegTo, Bool.false_eq_true, if_false]
    rw [fit_fit, fit_add, BitVec.add_comm, ← BitVec.sub_eq_add_neg, BitVec.sub_self]
    exact fit_zero _
  | true =>
    simp only [opposite, Cpu.readSp, encodeRegTo, if_true]
    rw [fit_fit, BitVec.sub_self]
    exact fit_zero _

theorem opposite_ne (h : NeedsScratch Rd.size imm flags) (n : Fin 32) :
    fit Rd.size ((opposite Rd.size negative imm).x n) ≠ 0 := by
  cases negative with
  | false =>
    simp only [opposite, Bool.false_eq_true, if_false, fit_fit]
    exact fit_ne_zero_of_not_short h.2.1
  | true =>
    simp only [opposite, if_true, fit_fit]
    exact fit_ne_zero_of_not_short h.1

/-- With a scratch register the number 31 is zero where the other forms take the stack pointer. -/
theorem not_computes_sp (hr : ScratchFor Rd Rn r) (h : NeedsScratch Rd.size imm flags)
    (hsp : Rn.num = 31 ∨ (Rd.num = 31 ∧ flags = false)) :
    ¬Computes (ADDI2R_internal Rd Rn imm negative flags (some r) pc) pc negative flags Rd Rn imm (some r) := by
  obtain ⟨code, element, hcode, hrun⟩ := @scratch_spec pc imm negative flags Rd Rn r hr h
  rintro ⟨-, hall⟩
  by_cases hRn : Rn.num = 31
  · -- the operand is read as zero, and the result would be zero with the stack pointer
    have hagree := hall _ hcode (opposite Rd.size negative imm)
    have hexpected := @addSub_opposite imm negative Rd Rn
    have hne := @opposite_ne imm negative flags Rd h
    generalize opposite Rd.size negative imm = s at hagree hexpected hne
    obtain ⟨hsum, w, hw⟩ := hrun s 0#64
    have hactual := @addSub_zero_ne imm negative flags Rd h 0#64 (fit_zero _)
    have hzr : (s.writeSp r w).readZr (encodeRegTo Rd.size Rn) = 0#64 := if_pos hRn
    rw [run_append, run, run, Inst.exec, sumState] at hagree
    rw [hw] at hsum hagree
    rw [hzr, hsum] at hagree
    cases flags with
    | true =>
      have hflags := congrArg Flags.z hagree.flags
      simp only [if_true, addSub_z, hexpected, decide_true, decide_eq_true_iff] at hflags
      exact hactual hflags
    | false =>
      have hvalue := hagree.value
      simp only [Bool.false_eq_true, if_false, hexpected] at hvalue
      by_cases hRd : Rd.num = 31
      · rw [Cpu.writeZr, if_pos hRd, Cpu.readSp, writeSp_x_of_ne (fun h => hr.1 (h ▸ hRd))] at hvalue
        refine hne Rd.num (hvalue.trans ?_)
        rw [readSp_self]
        exact fit_zero _
      · rw [Cpu.writeZr, if_neg hRd, readSp_self, readSp_self, fit_addSub, fit_zero] at hvalue
        exact hactual hvalue
  · -- the sum goes nowhere
    obtain ⟨hRd, rfl⟩ := hsp.resolve_left hRn
    have hagree := hall _ hcode ⟨fun _ => 0, ⟨false, false, false, false⟩⟩
    generalize hs : (⟨fun _ => 0, ⟨false, false, false, false⟩⟩ : Cpu) = s at hagree
    obtain ⟨-, w, hw⟩ := hrun s 0#64
    have hread : fit Rd.size (s.readSp (encodeRegTo Rd.size Rn)) = 0 := by
      rw [← hs, Cpu.readSp, encodeRegTo, fit_fit]
      exact fit_zero _
    have hactual := @addSub_zero_ne imm negative false Rd h _ hread
    have hvalue := hagree.value
    rw [run_append, run, run, Inst.exec, sumState, hw] at hvalue
    simp only [Bool.false_eq_true, if_false] at hvalue
    rw [Cpu.writeZr, if_pos hRd, readSp_self, fit_addSub, Cpu.readSp,
      writeSp_x_of_ne (fun h => hr.1 (h ▸ hRd)), ← hs] at hvalue
    refine hactual ?_
    rw [← hs, ← hvalue]
    exact fit_zero _

end Sp

/-- **When one constant is added or subtracted right**, for all operands: always, but with a scratch register in
use the operand and the sum must not be the stack pointer. -/
theorem ADDI2R_internal_iff (hsize : Rn.size = Rd.size) (hscratch : ∀ r ∈ scratch, ScratchFor Rd Rn r) :
    Computes (ADDI2R_internal Rd Rn imm negative flags scratch pc) pc negative flags Rd Rn imm scratch ↔
      (scratch.isSome → NeedsScratch Rd.size imm flags → Rn.num ≠ 31 ∧ (Rd.num = 31 → flags = true)) := by
  cases scratch with
  | none => exact iff_of_true (computes_direct hsize (.inl rfl)) fun h => absurd h (by decide)
  | some r =>
    have hr := hscratch r rfl
    by_cases hneeds : NeedsScratch Rd.size imm flags
    · constructor
      · intro h _ _
        by_contra hnot
        refine not_computes_sp hr hneeds ?_ h
        by_cases hRn : Rn.num = 31
        · exact .inl hRn
        · refine .inr ?_
          cases flags with
          | true => exact absurd ⟨hRn, fun _ => rfl⟩ hnot
          | false =>
            refine ⟨?_, rfl⟩
            by_contra hRd
            exact hnot ⟨hRn, fun h => absurd h hRd⟩
      · intro h
        obtain ⟨hRn, hRd⟩ := h rfl hneeds
        exact computes_scratch hr hneeds hRn hRd
    · exact iff_of_true (computes_direct hsize (.inr hneeds)) fun _ h => absurd h hneeds

end Forms

/-- The operand and the sum of an addition through a scratch register are not the stack pointer. -/
def AvoidsSp (size : GPRSize) (Rd Rn : Fin 32) (imm : BitVec 64) (flags : Bool) (scratch : Option ARM64Reg) : Prop :=
  scratch.isSome → NeedsScratch size imm flags → Rn ≠ 31 ∧ (Rd = 31 → flags = true)

/-- **When the immediate arithmetic is right** for all operands, the stack pointer as a register included. -/
theorem arithmetic_iff (size : GPRSize) (Rd Rn : Fin 32) (imm pc : BitVec 64) (scratch : Option ARM64Reg)
    (hscratch : ∀ r ∈ scratch, r.num ≠ 31 ∧ r.num ≠ Rn ∧ (size = .b64 → r.size = .b64)) :
    (Computes (ADDI2R ⟨size, Rd⟩ ⟨size, Rn⟩ imm scratch pc) pc false false ⟨size, Rd⟩ ⟨size, Rn⟩ imm scratch ↔
      AvoidsSp size Rd Rn imm false scratch) ∧
    (Computes (ADDSI2R ⟨size, Rd⟩ ⟨size, Rn⟩ imm scratch pc) pc false true ⟨size, Rd⟩ ⟨size, Rn⟩ imm scratch ↔
      AvoidsSp size Rd Rn imm true scratch) ∧
    (Computes (SUBI2R ⟨size, Rd⟩ ⟨size, Rn⟩ imm scratch pc) pc true false ⟨size, Rd⟩ ⟨size, Rn⟩ imm scratch ↔
      AvoidsSp size Rd Rn imm false scratch) ∧
    (Computes (SUBSI2R ⟨size, Rd⟩ ⟨size, Rn⟩ imm scratch pc) pc true true ⟨size, Rd⟩ ⟨size, Rn⟩ imm scratch ↔
      AvoidsSp size Rd Rn imm true scratch) ∧
    (Computes (CMPI2R ⟨size, Rn⟩ imm scratch pc) pc true true (zeroReg size) ⟨size, Rn⟩ imm scratch ↔
      AvoidsSp size 31 Rn imm true scratch) :=
  ⟨ADDI2R_internal_iff rfl hscratch, ADDI2R_internal_iff rfl hscratch, ADDI2R_internal_iff rfl hscratch,
    ADDI2R_internal_iff rfl hscratch, ADDI2R_internal_iff rfl hscratch⟩

/-- A comparison with a constant that takes the scratch register. -/
theorem arithmetic_sample :
    Computes (CMPI2R ⟨.b64, 1⟩ 0x123456789 (some ⟨.b64, 8⟩) 0) 0 true true (zeroReg .b64) ⟨.b64, 1⟩ 0x123456789
      (some ⟨.b64, 8⟩) := by
  refine (arithmetic_iff .b64 0 1 0x123456789 0 (some ⟨.b64, 8⟩) ?_).2.2.2.2.mpr ?_
  · rintro r ⟨⟩
    decide
  · exact fun _ _ => ⟨by decide, fun _ => rfl⟩

/-- A large constant is added to zero instead of the stack pointer. -/
theorem not_computes_large_sp :
    ¬Computes (ADDI2R ⟨.b64, 0⟩ ⟨.b64, 31⟩ 0x123456789 (some ⟨.b64, 8⟩) 0) 0 false false ⟨.b64, 0⟩ ⟨.b64, 31⟩
      0x123456789 (some ⟨.b64, 8⟩) := by
  refine not_computes_sp (r := ⟨.b64, 8⟩) ?_ ?_ (.inl rfl)
  · unfold ScratchFor
    decide
  · unfold NeedsScratch IsShort
    decide

end Arm64Gen
