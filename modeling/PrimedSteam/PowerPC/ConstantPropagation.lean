import PrimedSteam.PowerPC.Interpreter

/-!
# Constant propagation of the JITs

`ConstantPropagation` with the values of the registers that are known, and `evaluateInstruction`, which
computes what an instruction does if enough of its operands are known. `apply` is what the JITs make
of a result: the register, the flags that it states and CR0.
-/

set_option autoImplicit false

namespace PowerPC

/-- A `ConstantPropagationResult`. `gpr` is `none` for -1. -/
structure ConstantPropagationResult where
  gprValue : BitVec 32
  gpr : Option (BitVec 5)
  instructionFullyExecuted : Bool
  computeRc : Bool
  carry : Option Bool
  overflow : Option Bool
  deriving DecidableEq

namespace ConstantPropagationResult

/-- The default, for an instruction that cannot be evaluated. -/
def unknown : ConstantPropagationResult := ⟨0, none, false, false, none, none⟩

/-- The instruction writes `value` to `gpr`. -/
def write (gpr : BitVec 5) (value : BitVec 32) (computeRc : Bool) : ConstantPropagationResult :=
  ⟨value, some gpr, true, computeRc, none, none⟩

def doNothing : ConstantPropagationResult := { unknown with instructionFullyExecuted := true }

/-- The state after an instruction with this result. -/
def apply (r : ConstantPropagationResult) (s : PPCState) : PPCState :=
  let s := match r.gpr with
    | some gpr => s.setGPR gpr r.gprValue
    | none => s
  let s := match r.carry with
    | some carry => s.setCarry (boolToU32 carry)
    | none => s
  let s := match r.overflow with
    | some overflow => s.setXER_OV overflow
    | none => s
  if r.computeRc then Interpreter.updateCR0 s r.gprValue else s

end ConstantPropagationResult

structure ConstantPropagation where
  gprValues : BitVec 5 → BitVec 32
  gprValuesKnown : BitVec 5 → Bool

namespace ConstantPropagation

open ConstantPropagationResult

variable (c : ConstantPropagation) (inst : Inst)

def hasGPR (r : BitVec 5) : Bool := c.gprValuesKnown r

def getGPR (r : BitVec 5) : BitVec 32 := c.gprValues r

/-- The known registers have their values in the state. -/
def Consistent (s : PPCState) : Prop := ∀ r, c.hasGPR r = true → s.gpr r = c.getGPR r

/-! ## Immediate operands -/

def evaluateMulImm : ConstantPropagationResult :=
  if inst.simm16 = 0 then write inst.rd 0 false
  else if c.hasGPR inst.ra = false then unknown
  else write inst.rd (c.getGPR inst.ra * inst.simm16) false

def evaluateSubImmCarry : ConstantPropagationResult :=
  if c.hasGPR inst.ra = false then unknown
  else
    let a := c.getGPR inst.ra
    let imm := inst.simm16
    { write inst.rd (imm - a) false with carry := some (decide (a ≤ imm)) }

def evaluateAddImm : ConstantPropagationResult :=
  let immediate := if inst.opcd.getLsbD 0 then inst.simm16 <<< 16 else inst.simm16
  if inst.ra = 0 then write inst.rd immediate false
  else if c.hasGPR inst.ra = false then unknown
  else write inst.rd (c.getGPR inst.ra + immediate) false

def evaluateAddImmCarry : ConstantPropagationResult :=
  if c.hasGPR inst.ra = false then unknown
  else
    let a := c.getGPR inst.ra
    let rc := inst.opcd.getLsbD 0
    { write inst.rd (a + inst.simm16) rc with
      carry := some (Interpreter.helperCarry a inst.simm16) }

def evaluateRlwimix : ConstantPropagationResult :=
  if c.hasGPR inst.rs = false then unknown
  else
    let mask := makeRotationMask inst.mb inst.me
    if mask = 0xFFFFFFFF then
      write inst.ra ((c.getGPR inst.rs).rotateLeft inst.sh.toNat) inst.rc
    else if c.hasGPR inst.ra = false then unknown
    else write inst.ra
      ((c.getGPR inst.ra &&& ~~~mask) ||| ((c.getGPR inst.rs).rotateLeft inst.sh.toNat &&& mask))
      inst.rc

def evaluateRlwinmxRlwnmx (shift : ℕ) : ConstantPropagationResult :=
  if c.hasGPR inst.rs = false then unknown
  else write inst.ra
    ((c.getGPR inst.rs).rotateLeft shift &&& makeRotationMask inst.mb inst.me) inst.rc

/-- `EvaluateBitwiseImm`; `isAnd` tells that `doOp` is `BitAND`. -/
def evaluateBitwiseImm (doOp : BitVec 32 → BitVec 32 → BitVec 32) (isAnd : Bool) :
    ConstantPropagationResult :=
  let uimm := inst.uimm.setWidth 32
  let immediate := if inst.opcd.getLsbD 0 then uimm <<< 16 else uimm
  if inst.uimm = 0 ∧ isAnd = false ∧ inst.ra = inst.rs then doNothing
  else if c.hasGPR inst.rs = false then unknown
  else write inst.ra (doOp (c.getGPR inst.rs) immediate) isAnd

/-! ## Table 31 -/

/-- The flags that a result of the table states are those that the instruction sets. -/
def withFlags (r : ConstantPropagationResult) (flags : BitVec 64) (carry overflow : Bool) :
    ConstantPropagationResult :=
  { r with
    carry := if hasFlag flags flSetCa then some carry else none
    overflow := if hasFlag flags flSetOe then some overflow else none }

/-- The value does not fit an `s32`. -/
def overflowsS32 (out : BitVec 64) : Bool := out != (out.setWidth 32).signExtend 64

def evaluateTable31Negx (flags : BitVec 64) : ConstantPropagationResult :=
  if c.hasGPR inst.ra = false then unknown
  else
    let out := -(c.getGPR inst.ra).signExtend 64
    { write inst.rd (out.setWidth 32) inst.rc with
      overflow := if hasFlag flags flSetOe then some (overflowsS32 out) else none }

def evaluateTable31S : ConstantPropagationResult :=
  if c.hasGPR inst.rs = false then unknown
  else
    let s := c.getGPR inst.rs
    match inst.subop10.toNat with
    | 26 => write inst.ra s.clz inst.rc -- cntlzwx
    | 824 => -- srawix
      let carry := inst.sh != 0 && s.slt 0 && s <<< (32 - inst.sh.toNat) != 0
      { write inst.ra (s.sshiftRight inst.sh.toNat) inst.rc with carry := some carry }
    | 922 => write inst.ra ((s.setWidth 16).signExtend 32) inst.rc -- extshx
    | 954 => write inst.ra ((s.setWidth 8).signExtend 32) inst.rc -- extsbx
    | _ => unknown

def evaluateTable31ABOneRegisterKnown (flags : BitVec 64) (value : BitVec 32) (knownRegIsB : Bool) :
    ConstantPropagationResult :=
  let zero := write inst.rd 0 inst.rc
  let dividendZero :=
    if knownRegIsB = false ∧ value = 0 ∧ hasFlag flags flSetOe = false then zero else unknown
  match inst.subop10.toNat with
  | 11 | 75 | 235 | 747 => -- mulhwux, mulhwx, mullwx, mullwox
    if value = 0 then
      { zero with overflow := if hasFlag flags flSetOe then some false else none }
    else unknown
  | 459 | 971 => -- divwux, divwuox
    if knownRegIsB = true ∧ value = 0 then
      { zero with overflow := if hasFlag flags flSetOe then some true else none }
    else dividendZero
  | 491 | 1003 => dividendZero -- divwx, divwox
  | _ => unknown

def evaluateTable31ABIdenticalRegisters (flags : BitVec 64) : ConstantPropagationResult :=
  match inst.subop10.toNat with
  | 8 | 40 | 520 | 552 => withFlags (write inst.rd 0 inst.rc) flags true false -- subfcx, subfx
  | _ => unknown

/-- `d` and `d_overflow` for the operands `a` and `b`, the latter as an `s64`. -/
def evaluateAB (subop10 : BitVec 10) (a b : BitVec 32) : Option (BitVec 64 × BitVec 64) :=
  match subop10.toNat with
  | 8 | 40 | 520 | 552 => -- subfcx, subfx
    some ((~~~a).setWidth 64 + b.setWidth 64 + 1, b.signExtend 64 - a.signExtend 64)
  | 10 | 522 | 266 | 778 => -- addcx, addx
    some (a.setWidth 64 + b.setWidth 64, a.signExtend 64 + b.signExtend 64)
  | 11 => -- mulhwux
    let d := (a.setWidth 64 * b.setWidth 64) >>> 32
    some (d, d)
  | 75 => -- mulhwx
    let d := (a.signExtend 64 * b.signExtend 64) >>> 32
    some (d, d)
  | 235 | 747 => -- mullwx
    let d := a.signExtend 64 * b.signExtend 64
    some (d, d)
  | 459 | 971 => -- divwux
    let d := if b = 0 then 0x100000000 else (a / b).setWidth 64
    some (d, d)
  | 491 | 1003 => -- divwx
    let d :=
      if b = 0 ∨ a = 0x80000000 ∧ b = 0xFFFFFFFF then
        if a.slt 0 then 0xFFFFFFFF else 0x100000000
      else (a.sdiv b).signExtend 64
    some (d, d)
  | _ => none

def evaluateTable31AB (flags : BitVec 64) : ConstantPropagationResult :=
  let hasA := c.hasGPR inst.ra
  let hasB := c.hasGPR inst.rb
  if hasA = false ∨ hasB = false then
    if hasA then evaluateTable31ABOneRegisterKnown inst flags (c.getGPR inst.ra) false
    else if hasB then evaluateTable31ABOneRegisterKnown inst flags (c.getGPR inst.rb) true
    else if inst.ra = inst.rb then evaluateTable31ABIdenticalRegisters inst flags
    else unknown
  else
    match evaluateAB inst.subop10 (c.getGPR inst.ra) (c.getGPR inst.rb) with
    | some (d, dOverflow) =>
      withFlags (write inst.rd (d.setWidth 32) inst.rc) flags (d >>> 32 != 0)
        (overflowsS32 dOverflow)
    | none => unknown

def evaluateTable31SBOneRegisterKnown (value : BitVec 32) (knownRegIsB : Bool) :
    ConstantPropagationResult :=
  let result (cond : Bool) (a : BitVec 32) :=
    if cond then write inst.ra a inst.rc else unknown
  match inst.subop10.toNat with
  | 24 | 536 => -- slwx, srwx
    result ((!knownRegIsB && value == 0) || (knownRegIsB && value &&& 0x20 != 0)) 0
  | 60 => result ((if knownRegIsB then ~~~value else value) == 0) 0 -- andcx
  | 28 => result (value == 0) 0 -- andx
  | 124 => result (value == 0xFFFFFFFF) 0 -- norx
  | 412 => -- orcx
    result ((if knownRegIsB then ~~~value else value) == 0xFFFFFFFF) 0xFFFFFFFF
  | 444 => result (value == 0xFFFFFFFF) 0xFFFFFFFF -- orx
  | 476 => result (value == 0) 0xFFFFFFFF -- nandx
  | 792 => -- srawx
    if knownRegIsB = false ∧ value = 0 then
      { write inst.ra 0 inst.rc with carry := some false }
    else unknown
  | _ => unknown

def evaluateTable31SBIdenticalRegisters : ConstantPropagationResult :=
  match inst.subop10.toNat with
  | 60 => write inst.ra 0 inst.rc -- andcx
  | 284 => write inst.ra 0xFFFFFFFF inst.rc -- eqvx
  | 316 => write inst.ra 0 inst.rc -- xorx
  | 412 => write inst.ra 0xFFFFFFFF inst.rc -- orcx
  | _ => unknown

def evaluateTable31SB : ConstantPropagationResult :=
  let hasS := c.hasGPR inst.rs
  let hasB := c.hasGPR inst.rb
  if hasS = false ∨ hasB = false then
    if hasS then evaluateTable31SBOneRegisterKnown inst (c.getGPR inst.rs) false
    else if hasB then evaluateTable31SBOneRegisterKnown inst (c.getGPR inst.rb) true
    else if inst.rs = inst.rb then evaluateTable31SBIdenticalRegisters inst
    else unknown
  else
    let s := c.getGPR inst.rs
    let b := c.getGPR inst.rb
    match inst.subop10.toNat with
    | 24 => write inst.ra ((s.setWidth 64 <<< (b &&& 0x3f).toNat).setWidth 32) inst.rc -- slwx
    | 28 => write inst.ra (s &&& b) inst.rc -- andx
    | 60 => write inst.ra (s &&& ~~~b) inst.rc -- andcx
    | 124 => write inst.ra (~~~(s ||| b)) inst.rc -- norx
    | 284 => write inst.ra (~~~(s ^^^ b)) inst.rc -- eqvx
    | 316 => write inst.ra (s ^^^ b) inst.rc -- xorx
    | 412 => write inst.ra (s ||| ~~~b) inst.rc -- orcx
    | 444 => write inst.ra (s ||| b) inst.rc -- orx
    | 476 => write inst.ra (~~~(s &&& b)) inst.rc -- nandx
    | 536 => write inst.ra ((s.setWidth 64 >>> (b &&& 0x3f).toNat).setWidth 32) inst.rc -- srwx
    | 792 => -- srawx
      let temp := (s.signExtend 64 <<< 32).sshiftRight (b &&& 0x3f).toNat
      let a := (temp >>> 32).setWidth 32
      { write inst.ra a inst.rc with carry := some (temp &&& a.setWidth 64 != 0) }
    | _ => unknown

def evaluateTable31 (flags : BitVec 64) : ConstantPropagationResult :=
  if hasFlag flags flInB then
    if hasFlag flags flOutD then c.evaluateTable31AB inst flags else c.evaluateTable31SB inst
  else
    match inst.subop10.toNat with
    | 104 | 616 => c.evaluateTable31Negx inst flags
    | _ => c.evaluateTable31S inst

def evaluateInstruction (flags : BitVec 64) : ConstantPropagationResult :=
  match inst.opcd.toNat with
  | 7 => c.evaluateMulImm inst
  | 8 => c.evaluateSubImmCarry inst
  | 12 | 13 => c.evaluateAddImmCarry inst
  | 14 | 15 => c.evaluateAddImm inst
  | 20 => c.evaluateRlwimix inst
  | 21 => c.evaluateRlwinmxRlwnmx inst inst.sh.toNat
  | 23 =>
    if c.hasGPR inst.rb then c.evaluateRlwinmxRlwnmx inst (c.getGPR inst.rb &&& 0x1F).toNat
    else unknown
  | 24 | 25 => c.evaluateBitwiseImm inst (· ||| ·) false
  | 26 | 27 => c.evaluateBitwiseImm inst (· ^^^ ·) false
  | 28 | 29 => c.evaluateBitwiseImm inst (· &&& ·) true
  | 31 => c.evaluateTable31 inst flags
  | _ => unknown

end ConstantPropagation

end PowerPC
