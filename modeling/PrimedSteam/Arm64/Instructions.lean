import PrimedSteam.Arm64.LogicalImm

/-!
# Instructions of the emitter

The instructions that `ARM64XEmitter` writes for constants, moves and additions, with their meaning, and the
functions of the emitter that write them. A failed assertion of the emitter is `none`.

* `Inst.exec`, `run`: the meaning.
* `addSub_fst`: additions and subtractions modulo the width.
-/

set_option autoImplicit false

namespace Arm64Gen

/-- There are registers. -/
scoped instance neZero32 : NeZero 32 := ⟨by decide⟩

/-! ## Registers -/

/-- The number 31 is the stack pointer or zero, by the instruction. -/
structure ARM64Reg where
  size : GPRSize
  num : Fin 32
deriving DecidableEq

/-- `X0` to `X30` and `W0` to `W30`. -/
def gpr (size : GPRSize) (n : Fin 31) : ARM64Reg := ⟨size, n.castSucc⟩

/-- `EncodeRegTo64` and `EncodeRegTo32` -/
def encodeRegTo (size : GPRSize) (r : ARM64Reg) : ARM64Reg := ⟨size, r.num⟩

/-- `ZR` and `SP`, `WZR` and `WSP` -/
def zeroReg (size : GPRSize) : ARM64Reg := ⟨size, 31⟩

/-- A value of 32 bits in 64 bits has zeros above. -/
def fit : GPRSize → BitVec 64 → BitVec 64
  | .b32, v => (v.setWidth 32).setWidth 64
  | .b64, v => v

structure Flags where
  n : Bool
  z : Bool
  c : Bool
  v : Bool
deriving DecidableEq

@[ext] structure Cpu where
  x : Fin 32 → BitVec 64
  flags : Flags

namespace Cpu

def readSp (s : Cpu) (r : ARM64Reg) : BitVec 64 := fit r.size (s.x r.num)

def readZr (s : Cpu) (r : ARM64Reg) : BitVec 64 := if r.num = 31 then 0 else s.readSp r

def writeSp (s : Cpu) (r : ARM64Reg) (v : BitVec 64) : Cpu :=
  { s with x := Function.update s.x r.num (fit r.size v) }

def writeZr (s : Cpu) (r : ARM64Reg) (v : BitVec 64) : Cpu := if r.num = 31 then s else s.writeSp r v

end Cpu

/-! ## Additions -/

/-- `AddWithCarry` of the architecture. -/
def addWithCarry {w : ℕ} (x y : BitVec w) (carry : Bool) : BitVec w × Flags :=
  let unsignedSum := x.toNat + y.toNat + carry.toNat
  let signedSum := x.toInt + y.toInt + carry.toNat
  let result := BitVec.ofNat w unsignedSum
  (result, ⟨result.msb, decide (result = 0), decide (result.toNat ≠ unsignedSum),
    decide (result.toInt ≠ signedSum)⟩)

/-- `ADDS` or `SUBS` -/
def addSubBits {w : ℕ} (negative : Bool) (x y : BitVec w) : BitVec w × Flags :=
  if negative then addWithCarry x (~~~y) true else addWithCarry x y false

def addSub (size : GPRSize) (negative : Bool) (x y : BitVec 64) : BitVec 64 × Flags :=
  match size with
  | .b64 => addSubBits negative x y
  | .b32 =>
    let r := addSubBits negative (x.setWidth 32) (y.setWidth 32)
    (r.1.setWidth 64, r.2)

/-! ## Instructions -/

/-- The 16 bits at a position. -/
def part (v : BitVec 64) (i : ℕ) : BitVec 16 := v.extractLsb' (16 * i) 16

def insert (v : BitVec 64) (i : ℕ) (a : BitVec 16) : BitVec 64 :=
  (v &&& ~~~((0xFFFF : BitVec 64) <<< (16 * i))) ||| (a.setWidth 64 <<< (16 * i))

inductive Inst where
  | movz (Rd : ARM64Reg) (imm : BitVec 16) (pos : Fin 4)
  | movn (Rd : ARM64Reg) (imm : BitVec 16) (pos : Fin 4)
  | movk (Rd : ARM64Reg) (imm : BitVec 16) (pos : Fin 4)
  | adr (Rd : ARM64Reg) (imm : BitVec 32)
  | adrp (Rd : ARM64Reg) (imm : BitVec 32)
  | orrImm (Rd Rn : ARM64Reg) (imm : LogicalImm)
  | orr (Rd Rn Rm : ARM64Reg)
  | addImm (negative flags : Bool) (Rd Rn : ARM64Reg) (imm : BitVec 12) (shift : Bool)
  | addReg (negative flags : Bool) (Rd Rn Rm : ARM64Reg)
deriving DecidableEq

namespace Inst

/-- The field of an offset from the address of the instruction has 21 bits. -/
def offset (imm : BitVec 32) : BitVec 64 := (imm.setWidth 21).signExtend 64

/-- An offset is in the range of its field. -/
def InRange : Inst → Prop
  | adr _ imm => -2 ^ 20 ≤ imm.toInt ∧ imm.toInt < 2 ^ 20
  | adrp _ imm => -2 ^ 20 ≤ imm.toInt ∧ imm.toInt < 2 ^ 20
  | _ => True

/-- A logical immediate in a register. -/
def logical (size : GPRSize) (imm : LogicalImm) : BitVec 64 :=
  match size with
  | .b64 => (imm.decode 64).getD 0
  | .b32 => ((imm.decode 32).getD 0).setWidth 64

/-- The instruction at the address `pc`. The width is that of the destination. The number 31 is the stack pointer
for the operand of an immediate, and for the destination where no flags are set. -/
def exec (pc : BitVec 64) (s : Cpu) : Inst → Cpu
  | movz Rd imm pos => s.writeZr Rd (imm.setWidth 64 <<< (16 * pos.val))
  | movn Rd imm pos => s.writeZr Rd (~~~(imm.setWidth 64 <<< (16 * pos.val)))
  | movk Rd imm pos => s.writeZr Rd (insert (s.readZr Rd) pos imm)
  | adr Rd imm => s.writeZr Rd (pc + offset imm)
  | adrp Rd imm => s.writeZr Rd ((pc &&& ~~~(0xFFF : BitVec 64)) + (offset imm <<< 12))
  | orrImm Rd Rn imm => s.writeSp Rd (s.readZr Rn ||| logical Rn.size imm)
  | orr Rd Rn Rm => s.writeZr Rd (s.readZr (encodeRegTo Rd.size Rn) ||| s.readZr (encodeRegTo Rd.size Rm))
  | addImm negative flags Rd Rn imm shift =>
    let operand := if shift then imm.setWidth 64 <<< 12 else imm.setWidth 64
    let r := addSub Rd.size negative (s.readSp (encodeRegTo Rd.size Rn)) operand
    if flags then { s.writeZr Rd r.1 with flags := r.2 } else s.writeSp Rd r.1
  | addReg negative flags Rd Rn Rm =>
    let r := addSub Rd.size negative (s.readZr (encodeRegTo Rd.size Rn)) (s.readZr (encodeRegTo Rd.size Rm))
    if flags then { s.writeZr Rd r.1 with flags := r.2 } else s.writeZr Rd r.1

end Inst

/-- Instructions one after the other. -/
def run : BitVec 64 → List Inst → Cpu → Cpu
  | _, [], s => s
  | pc, inst :: code, s => run (pc + 4) code (inst.exec pc s)

/-! ## The emitter -/

/-- `EncodeMOVWideInst` -/
def encodeMOVWide (inst : ARM64Reg → BitVec 16 → Fin 4 → Inst) (Rd : ARM64Reg) (imm : BitVec 32)
    (pos : Fin 4) : Option (List Inst) :=
  if imm &&& ~~~0xFFFF = 0 then some [inst Rd (imm.setWidth 16) pos] else none

def MOVZ : ARM64Reg → BitVec 32 → Fin 4 → Option (List Inst) := encodeMOVWide .movz
def MOVN : ARM64Reg → BitVec 32 → Fin 4 → Option (List Inst) := encodeMOVWide .movn
def MOVK : ARM64Reg → BitVec 32 → Fin 4 → Option (List Inst) := encodeMOVWide .movk

def ADR (Rd : ARM64Reg) (imm : BitVec 32) : List Inst := [.adr Rd imm]

def ADRP (Rd : ARM64Reg) (imm : BitVec 64) : List Inst := [.adrp Rd ((imm.sshiftRight 12).setWidth 32)]

/-- `EncodeAddSubImmInst` -/
def encodeAddSubImm (negative flags : Bool) (shift : Bool) (imm : BitVec 32) (Rn Rd : ARM64Reg) :
    Option (List Inst) :=
  if imm &&& ~~~0xFFF = 0 then some [.addImm negative flags Rd Rn (imm.setWidth 12) shift] else none

/-- `EncodeLogicalImmInst` for `ORR` -/
def ORR (Rd Rn : ARM64Reg) (imm : LogicalImm) : Option (List Inst) :=
  if imm.valid ∧ (Rn.size = .b64 ∨ imm.n = false) then some [.orrImm Rd Rn imm] else none

/-- The result says if there is an encoding. -/
def tryORRI2R (Rd Rn : ARM64Reg) (imm : BitVec 64) : Option (List Inst × Bool) :=
  let result := LogicalImm.new imm Rd.size
  if result.valid then (ORR Rd Rn result).map fun code => (code, true) else some ([], false)

/-- `MOV` of a register -/
def MOV (Rd Rm : ARM64Reg) : List Inst := [.orr Rd (zeroReg Rd.size) Rm]

/-! ## Values -/

@[simp] theorem fit_b64 (v : BitVec 64) : fit .b64 v = v := rfl

@[simp] theorem fit_fit (size : GPRSize) (v : BitVec 64) : fit size (fit size v) = fit size v := by
  cases size with
  | b64 => rfl
  | b32 => simp [fit]

@[simp] theorem fit_zero (size : GPRSize) : fit size 0 = 0 := by
  cases size with
  | b64 => rfl
  | b32 => rfl

theorem getLsbD_fit (size : GPRSize) (v : BitVec 64) (i : ℕ) :
    (fit size v).getLsbD i = (decide (size = .b64 ∨ i < 32) && v.getLsbD i) := by
  cases size with
  | b64 => simp
  | b32 =>
    simp [fit]
    omega

theorem fit_add (size : GPRSize) (a b : BitVec 64) : fit size (fit size a + fit size b) = fit size (a + b) := by
  cases size with
  | b64 => rfl
  | b32 => simp [fit, BitVec.setWidth_add]

theorem addSubBits_fst {w : ℕ} (negative : Bool) (x y : BitVec w) :
    (addSubBits negative x y).1 = if negative then x - y else x + y := by
  cases negative with
  | false => simp [addSubBits, addWithCarry, BitVec.ofNat_add]
  | true =>
    have hsum : BitVec.ofNat w (x.toNat + (~~~y).toNat + 1) = x - y := by
      rw [BitVec.ofNat_add, BitVec.ofNat_add, BitVec.ofNat_toNat, BitVec.ofNat_toNat, BitVec.setWidth_eq,
        BitVec.setWidth_eq, BitVec.sub_eq_add_neg, BitVec.neg_eq_not_add, BitVec.add_assoc]
    exact hsum

theorem setWidth_sub (x y : BitVec 64) : (x - y).setWidth 32 = x.setWidth 32 - y.setWidth 32 := by
  rw [BitVec.sub_eq_add_neg, BitVec.sub_eq_add_neg, BitVec.neg_eq_not_add, BitVec.neg_eq_not_add,
    BitVec.setWidth_add _ _ (by decide), BitVec.setWidth_add _ _ (by decide), BitVec.setWidth_not (by decide)]
  rfl

/-- The sum or the difference, modulo the width. -/
theorem addSub_fst (size : GPRSize) (negative : Bool) (x y : BitVec 64) :
    (addSub size negative x y).1 = fit size (if negative then x - y else x + y) := by
  cases size with
  | b64 => rw [addSub, addSubBits_fst, fit_b64]
  | b32 =>
    simp only [addSub, addSubBits_fst]
    cases negative with
    | false => simp [fit, BitVec.setWidth_add]
    | true => simp [fit, setWidth_sub]

/-! ## States -/

section State

variable {s : Cpu} {size : GPRSize} {d : Fin 31} {v v' : BitVec 64}

@[simp] theorem gpr_size : (gpr size d).size = size := rfl

@[simp] theorem encodeRegTo_gpr {size' : GPRSize} : encodeRegTo size' (gpr size d) = gpr size' d := rfl

@[simp] theorem encodeRegTo_zeroReg {size' : GPRSize} : encodeRegTo size' (zeroReg size) = zeroReg size' := rfl

theorem gpr_num_ne (size : GPRSize) (d : Fin 31) : (gpr size d).num ≠ 31 := by
  have hd := d.isLt
  simp only [gpr, ne_eq, Fin.ext_iff, Fin.val_castSucc]
  exact hd.ne

@[simp] theorem readZr_gpr : s.readZr (gpr size d) = fit size (s.x d.castSucc) := by
  rw [Cpu.readZr, if_neg (gpr_num_ne size d)]
  rfl

@[simp] theorem readSp_gpr : s.readSp (gpr size d) = fit size (s.x d.castSucc) := rfl

@[simp] theorem writeZr_gpr : s.writeZr (gpr size d) v = s.writeSp (gpr size d) v := by
  rw [Cpu.writeZr, if_neg (gpr_num_ne size d)]

@[simp] theorem readZr_zeroReg : s.readZr (zeroReg size) = 0 := rfl

@[simp] theorem writeSp_x : (s.writeSp (gpr size d) v).x d.castSucc = fit size v := by
  simp [Cpu.writeSp, gpr]

theorem writeSp_x_of_ne {r : ARM64Reg} {n : Fin 32} (h : n ≠ r.num) : (s.writeSp r v).x n = s.x n := by
  rw [Cpu.writeSp]
  exact Function.update_of_ne h _ _

@[simp] theorem writeSp_writeSp {r : ARM64Reg} : (s.writeSp r v).writeSp r v' = s.writeSp r v' := by
  simp [Cpu.writeSp]

theorem writeSp_fit {r : ARM64Reg} : s.writeSp r (fit r.size v) = s.writeSp r v := by
  rw [Cpu.writeSp, fit_fit, Cpu.writeSp]

end State

theorem run_append (pc : BitVec 64) (code code' : List Inst) (s : Cpu) :
    run pc (code ++ code') s = run (pc + 4 * BitVec.ofNat 64 code.length) code' (run pc code s) := by
  induction code generalizing pc s with
  | nil => simp [run]
  | cons inst code ih =>
    rw [List.cons_append, run, ih, run, List.length_cons]
    congr 1
    rw [BitVec.ofNat_add, BitVec.mul_add, BitVec.add_assoc, BitVec.add_comm 4]
    rfl

end Arm64Gen
