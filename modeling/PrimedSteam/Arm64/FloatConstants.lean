import PrimedSteam.Arm64.ConstantMoves

/-!
# Floats in registers

`MOVI2F` writes a single float by a move of zero, by an immediate of 8 bits or through a scratch register.

* `fpImm8ToFloat_fromFloat`, `fpImm8FromFloat_toFloat`: the immediates of 8 bits.
* `movi2f_iff`: when the register gets the value, negated where that is asked for.
-/

set_option autoImplicit false

namespace Arm64Float

open Arm64Gen

/-! ## Floats by their bits -/

abbrev FloatBits := BitVec 32

def isNaN (f : FloatBits) : Bool := (f.extractLsb' 23 8 == 0xFF) && (f.extractLsb' 0 23 != 0)

/-- `==` of floats: both zeros are equal, and nothing equals a NaN. -/
def floatEq (a b : FloatBits) : Bool :=
  !isNaN a && !isNaN b && (a == b || (a.extractLsb' 0 31 == 0 && b.extractLsb' 0 31 == 0))

/-- The sign inverted. -/
def negated (f : FloatBits) : FloatBits := f ^^^ 0x80000000

/-! ## Immediates of 8 bits -/

/-- `!` of a number -/
def isZero (x : BitVec 32) : BitVec 32 := if x = 0 then 1 else 0

def fpImm8ToFloat (bits : BitVec 8) : FloatBits :=
  let bits := bits.setWidth 32
  let sign := bits >>> 7
  let bit6 := (bits >>> 6) &&& 1
  let exp := (isZero bit6 <<< 7) ||| (0x7C * bit6) ||| ((bits >>> 4) &&& 3)
  let mantissa := (bits &&& 0xF) <<< 19
  (sign <<< 31) ||| (exp <<< 23) ||| mantissa

def fpImm8FromFloat (f : FloatBits) : Option (BitVec 8) :=
  let mantissa4 := (f &&& 0x7FFFFF) >>> 19
  let exponent := (f >>> 23) &&& 0xFF
  let sign := f >>> 31
  if exponent >>> 7 = (exponent >>> 6) &&& 1 then none
  else
    let imm8 : BitVec 8 := ((sign <<< 7) ||| (isZero (exponent >>> 7) <<< 6) ||| ((exponent &&& 3) <<< 4) |||
      mantissa4).setWidth 8
    if floatEq (fpImm8ToFloat imm8) f then some imm8 else none

/-- `VFPExpandImm` of the architecture. -/
def vfpExpandImm (imm8 : BitVec 8) : FloatBits :=
  let b := imm8.extractLsb' 6 1
  imm8.extractLsb' 7 1 ++ ~~~b ++ (b ++ b ++ b ++ b ++ b) ++ imm8.extractLsb' 4 2 ++ imm8.extractLsb' 0 4 ++
    (0 : BitVec 19)

theorem fpImm8ToFloat_eq (imm8 : BitVec 8) : fpImm8ToFloat imm8 = vfpExpandImm imm8 := by
  revert imm8
  decide +kernel

theorem fpImm8FromFloat_toFloat (imm8 : BitVec 8) : fpImm8FromFloat (fpImm8ToFloat imm8) = some imm8 := by
  revert imm8
  decide +kernel

theorem fpImm8ToFloat_ne_zero (imm8 : BitVec 8) : (fpImm8ToFloat imm8).extractLsb' 0 31 ≠ 0 := by
  revert imm8
  decide +kernel

theorem fpImm8ToFloat_fromFloat {f : FloatBits} {imm8 : BitVec 8} (h : fpImm8FromFloat f = some imm8) :
    fpImm8ToFloat imm8 = f := by
  rw [fpImm8FromFloat] at h
  dsimp only at h
  split_ifs at h with hexponent heq
  rw [Option.some_inj] at h
  rw [h] at heq
  simp only [floatEq, Bool.and_eq_true, Bool.or_eq_true, beq_iff_eq] at heq
  rcases heq.2 with hbits | hzero
  · exact hbits
  · exact absurd hzero.1 (fpImm8ToFloat_ne_zero imm8)

theorem fpImm8FromFloat_isSome {f : FloatBits} :
    (fpImm8FromFloat f).isSome ↔ ∃ imm8, f = vfpExpandImm imm8 := by
  constructor
  · intro h
    obtain ⟨imm8, himm8⟩ := Option.isSome_iff_exists.mp h
    exact ⟨imm8, by rw [← fpImm8ToFloat_eq, fpImm8ToFloat_fromFloat himm8]⟩
  · rintro ⟨imm8, rfl⟩
    rw [← fpImm8ToFloat_eq, fpImm8FromFloat_toFloat]
    rfl

/-! ## Instructions -/

/-- The registers `S0` to `S31` beside the others. -/
structure FloatCpu where
  cpu : Cpu
  v : Fin 32 → FloatBits

inductive FloatInst where
  | general (inst : Inst)
  | fmovGpr (Rd : Fin 32) (Rn : ARM64Reg)
  | fmovImm (Rd : Fin 32) (imm8 : BitVec 8)
  | fneg (Rd Rn : Fin 32)
deriving DecidableEq

namespace FloatInst

def exec (pc : BitVec 64) (s : FloatCpu) : FloatInst → FloatCpu
  | general inst => { s with cpu := inst.exec pc s.cpu }
  | fmovGpr Rd Rn => { s with v := Function.update s.v Rd ((s.cpu.readZr Rn).setWidth 32) }
  | fmovImm Rd imm8 => { s with v := Function.update s.v Rd (vfpExpandImm imm8) }
  | fneg Rd Rn => { s with v := Function.update s.v Rd (negated (s.v Rn)) }

end FloatInst

def runFloat : BitVec 64 → List FloatInst → FloatCpu → FloatCpu
  | _, [], s => s
  | pc, inst :: code, s => runFloat (pc + 4) code (inst.exec pc s)

theorem runFloat_general (pc : BitVec 64) (code : List Inst) (rest : List FloatInst) (s : FloatCpu) :
    runFloat pc (code.map .general ++ rest) s
      = runFloat (pc + 4 * BitVec.ofNat 64 code.length) rest { s with cpu := run pc code s.cpu } := by
  induction code generalizing pc s with
  | nil => simp [run]
  | cons inst code ih =>
    rw [List.map_cons, List.cons_append, runFloat, ih, List.length_cons]
    congr 1
    rw [BitVec.ofNat_add, BitVec.mul_add, BitVec.add_assoc, BitVec.add_comm 4]
    rfl

/-! ## The emitter -/

/-- `FMOV` of a general register -/
def fmovGpr (Rd : Fin 32) (Rn : ARM64Reg) : Option (List FloatInst) :=
  if Rn.size = .b32 then some [.fmovGpr Rd Rn] else none

/-- `MOVI2F` for a single register. `none` for `scratch` is `INVALID_REG`, and a failed assertion is `none`. -/
def MOVI2F (Rd : Fin 32) (value : FloatBits) (scratch : Option ARM64Reg) (negate : Bool) (pc : BitVec 64) :
    Option (List FloatInst) :=
  if floatEq value 0 then do
    let code ← fmovGpr Rd (zeroReg .b32)
    some (code ++ if negate then [.fneg Rd Rd] else [])
  else
    match fpImm8FromFloat value with
    | some imm => some [.fmovImm Rd imm]
    | none => do
      let scratch ← scratch
      let value := if negate then negated value else value
      let code ← MOVI2R scratch (value.setWidth 64) pc
      let move ← fmovGpr Rd scratch
      some (code.map .general ++ move)

/-- The register gets the value whatever it held, and no assertion fails when there is a scratch register. -/
def Materialises (Rd : Fin 32) (value : FloatBits) (scratch : Option (Fin 31)) (negate : Bool)
    (pc : BitVec 64) : Prop :=
  (scratch.isSome → (MOVI2F Rd value (scratch.map (gpr .b32)) negate pc).isSome) ∧
    ∀ code, MOVI2F Rd value (scratch.map (gpr .b32)) negate pc = some code →
      ∀ s, (runFloat pc code s).v Rd = if negate then negated value else value

section Value

variable {Rd : Fin 32} {value : FloatBits} {scratch : Option (Fin 31)} {negate : Bool} {pc : BitVec 64}

theorem floatEq_zero_iff : floatEq value 0 = true ↔ value = 0 ∨ value = 0x80000000 := by
  constructor
  · intro h
    simp only [floatEq, Bool.and_eq_true, Bool.or_eq_true, beq_iff_eq] at h
    rcases h.2 with h | ⟨h, -⟩
    · exact .inl h
    · have hlow : value.toNat % 2 ^ 31 = 0 := by
        have hnat := congrArg BitVec.toNat h
        simpa using hnat
      have hlt := value.isLt
      have hcases : value.toNat = 0 ∨ value.toNat = 0x80000000 := by omega
      exact hcases.imp (fun h => BitVec.eq_of_toNat_eq h) fun h => BitVec.eq_of_toNat_eq h
  · rintro (rfl | rfl)
    · decide
    · decide

theorem negated_ne (value : FloatBits) : negated value ≠ value := by
  intro h
  have hbit := congrArg (fun f => f.getLsbD 31) h
  simp [negated] at hbit

theorem fmovGpr_eq {Rn : ARM64Reg} (h : Rn.size = .b32) : fmovGpr Rd Rn = some [.fmovGpr Rd Rn] := if_pos h

theorem materialises_scratch {d : Fin 31} (hzero : ¬floatEq value 0 = true) (hnone : fpImm8FromFloat value = none) :
    Materialises Rd value (some d) negate pc := by
  obtain ⟨code, hcode, -, -, hrun⟩ :=
    movi2r_spec .b32 d ((if negate then negated value else value).setWidth 64) pc
  have hemit : MOVI2F Rd value ((some d).map (gpr .b32)) negate pc
      = some (code.map .general ++ [.fmovGpr Rd (gpr .b32 d)]) := by
    rw [MOVI2F, if_neg hzero, hnone]
    simp only [Option.map_some, Option.bind_eq_bind, Option.bind_some]
    rw [hcode, fmovGpr_eq rfl]
    rfl
  refine ⟨fun _ => by rw [hemit]; rfl, fun code' hcode' s => ?_⟩
  rw [hemit, Option.some_inj] at hcode'
  rw [← hcode', runFloat_general, hrun]
  simp [runFloat, FloatInst.exec, fit]

theorem materialises_zero_iff (hzero : floatEq value 0 = true) :
    Materialises Rd value scratch negate pc ↔ value ≠ 0x80000000 := by
  have hemit : MOVI2F Rd value (scratch.map (gpr .b32)) negate pc
      = some (.fmovGpr Rd (zeroReg .b32) :: if negate then [.fneg Rd Rd] else []) := by
    rw [MOVI2F, if_pos hzero, fmovGpr_eq rfl]
    rfl
  have hvalue : ∀ s, (runFloat pc (.fmovGpr Rd (zeroReg .b32) :: if negate then [.fneg Rd Rd] else []) s).v Rd
      = if negate then negated 0 else 0 := by
    intro s
    cases negate with
    | false => simp [runFloat, FloatInst.exec]
    | true => simp [runFloat, FloatInst.exec]
  constructor
  · rintro ⟨-, h⟩ rfl
    have hrun := h _ hemit ⟨⟨fun _ => 0, ⟨false, false, false, false⟩⟩, fun _ => 0⟩
    rw [hvalue] at hrun
    cases negate with
    | false => exact absurd hrun (by decide)
    | true => exact absurd hrun (by decide)
  · intro hne
    obtain rfl := (floatEq_zero_iff.mp hzero).resolve_right hne
    refine ⟨fun _ => by rw [hemit]; rfl, fun code hcode s => ?_⟩
    rw [hemit, Option.some_inj] at hcode
    rw [← hcode, hvalue]

theorem materialises_imm8_iff {imm8 : BitVec 8} (hzero : ¬floatEq value 0 = true)
    (himm : fpImm8FromFloat value = some imm8) :
    Materialises Rd value scratch negate pc ↔ negate = false := by
  have hemit : MOVI2F Rd value (scratch.map (gpr .b32)) negate pc = some [.fmovImm Rd imm8] := by
    rw [MOVI2F, if_neg hzero, himm]
  have hvalue : ∀ s, (runFloat pc [.fmovImm Rd imm8] s).v Rd = value := by
    intro s
    have hfloat := fpImm8ToFloat_fromFloat himm
    rw [fpImm8ToFloat_eq] at hfloat
    simp [runFloat, FloatInst.exec, hfloat]
  constructor
  · rintro ⟨-, h⟩
    have hrun := h _ hemit ⟨⟨fun _ => 0, ⟨false, false, false, false⟩⟩, fun _ => 0⟩
    rw [hvalue] at hrun
    cases negate with
    | false => rfl
    | true => exact absurd hrun.symm (negated_ne value)
  · rintro rfl
    refine ⟨fun _ => by rw [hemit]; rfl, fun code hcode s => ?_⟩
    rw [hemit, Option.some_inj] at hcode
    rw [← hcode, hvalue]
    rfl

/-- **When a float gets into the register**: unless it is the negative zero or an immediate of 8 bits that is to be
negated. The immediates themselves are right. -/
theorem movi2f_iff (Rd : Fin 32) (value : FloatBits) (scratch : Option (Fin 31)) (negate : Bool)
    (pc : BitVec 64) :
    (isNaN value = false →
      (Materialises Rd value scratch negate pc ↔
        value ≠ 0x80000000 ∧ ¬(negate = true ∧ ∃ imm8, value = vfpExpandImm imm8))) ∧
    (∀ imm8, fpImm8FromFloat value = some imm8 → fpImm8ToFloat imm8 = value) ∧
    ∀ imm8, fpImm8FromFloat (vfpExpandImm imm8) = some imm8 := by
  refine ⟨fun _ => ?_, fun imm8 => fpImm8ToFloat_fromFloat, fun imm8 => ?_⟩
  · rw [← fpImm8FromFloat_isSome]
    by_cases hzero : floatEq value 0 = true
    · have hnone : fpImm8FromFloat value = none := by
        rcases floatEq_zero_iff.mp hzero with rfl | rfl
        · decide
        · decide
      rw [materialises_zero_iff hzero, hnone]
      simp
    · have hne : value ≠ 0x80000000 := fun h => hzero (floatEq_zero_iff.mpr (.inr h))
      cases himm : fpImm8FromFloat value with
      | some imm8 =>
        rw [materialises_imm8_iff hzero himm, and_iff_right hne]
        simp
      | none =>
        refine iff_of_true ?_ ⟨hne, by simp⟩
        cases scratch with
        | none =>
          refine ⟨fun h => absurd h (by decide), fun code hcode => ?_⟩
          rw [MOVI2F, if_neg hzero, himm] at hcode
          cases hcode
        | some d => exact materialises_scratch hzero himm
  · rw [← fpImm8ToFloat_eq, fpImm8FromFloat_toFloat]

/-- A tenth through a scratch register, and negated. -/
theorem movi2f_sample : isNaN 0x3DCCCCCD = false ∧ Materialises 0 0x3DCCCCCD (some 8) true 0x1000 :=
  ⟨by decide, ((movi2f_iff 0 0x3DCCCCCD (some 8) true 0x1000).1 (by decide)).mpr (by decide +kernel)⟩

/-- One is an immediate, and its sign is not inverted. -/
theorem not_materialises_one : ¬Materialises 0 0x3F800000 none true 0 := by
  rintro ⟨-, h⟩
  have hrun := h [.fmovImm 0 0x70] (by decide +kernel)
    ⟨⟨fun _ => 0, ⟨false, false, false, false⟩⟩, fun _ => 0⟩
  exact absurd hrun (by decide)

end Value

end Arm64Float
