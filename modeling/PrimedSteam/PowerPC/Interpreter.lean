import PrimedSteam.PowerPC.Gekko

/-!
# The integer handlers of the interpreter

The handlers of `Interpreter_Integer.cpp` that write a register, by family, and `execute`, which looks
up the handler of a word in the primary table and in table 31. Compares and traps write no register
and are left out.
-/

set_option autoImplicit false

namespace PowerPC

namespace Interpreter

/-- `Helper_UpdateCR0`: the value in the encoding of `ConditionRegister`, with SO in bit 59. -/
def updateCR0 (s : PPCState) (value : BitVec 32) : PPCState :=
  let crVal := value.signExtend 64
  let crVal := if value = 0 then crVal ||| 1#64 <<< 63 else crVal
  { s with cr0 := (crVal &&& ~~~(1#64 <<< 59)) ||| s.getXER_SO.setWidth 64 <<< 59 }

def helperCarry (value1 value2 : BitVec 32) : Bool := ~~~value1 < value2

def hasAddOverflowed (x y result : BitVec 32) : Bool :=
  ((x ^^^ result) &&& (y ^^^ result)) >>> 31 != 0

variable (s : PPCState) (inst : Inst)

/-! ## Immediate operands -/

def addi : PPCState :=
  if inst.ra ≠ 0 then s.setGPR inst.rd (s.gpr inst.ra + inst.simm16)
  else s.setGPR inst.rd inst.simm16

def addis : PPCState :=
  if inst.ra ≠ 0 then s.setGPR inst.rd (s.gpr inst.ra + inst.simm16 <<< 16)
  else s.setGPR inst.rd (inst.simm16 <<< 16)

def addic : PPCState :=
  let a := s.gpr inst.ra
  let imm := inst.simm16
  (s.setGPR inst.rd (a + imm)).setCarry (boolToU32 (helperCarry a imm))

def addic_rc : PPCState :=
  let s := addic s inst
  updateCR0 s (s.gpr inst.rd)

def mulli : PPCState := s.setGPR inst.rd (s.gpr inst.ra * inst.simm16)

def subfic : PPCState :=
  let a := s.gpr inst.ra
  let immediate := inst.simm16
  (s.setGPR inst.rd (immediate - a)).setCarry (boolToU32 (a == 0 || helperCarry (0 - a) immediate))

/-- rA := f(rS, UIMM), with UIMM in the upper half if `shifted`. -/
def bitwiseImm (f : BitVec 32 → BitVec 32 → BitVec 32) (shifted : Bool) : PPCState :=
  let imm := inst.uimm.setWidth 32
  s.setGPR inst.ra (f (s.gpr inst.rs) (if shifted then imm <<< 16 else imm))

def ori : PPCState := bitwiseImm s inst (· ||| ·) false
def oris : PPCState := bitwiseImm s inst (· ||| ·) true
def xori : PPCState := bitwiseImm s inst (· ^^^ ·) false
def xoris : PPCState := bitwiseImm s inst (· ^^^ ·) true

def andi_rc : PPCState :=
  let s := bitwiseImm s inst (· &&& ·) false
  updateCR0 s (s.gpr inst.ra)

def andis_rc : PPCState :=
  let s := bitwiseImm s inst (· &&& ·) true
  updateCR0 s (s.gpr inst.ra)

/-! ## Results in rA -/

/-- Writes rA, and CR0 if the record bit is set. -/
def writeA (value : BitVec 32) : PPCState :=
  let s := s.setGPR inst.ra value
  if inst.rc then updateCR0 s (s.gpr inst.ra) else s

def rlwimix : PPCState :=
  let mask := makeRotationMask inst.mb inst.me
  writeA s inst ((s.gpr inst.ra &&& ~~~mask) ||| ((s.gpr inst.rs).rotateLeft inst.sh.toNat &&& mask))

def rlwinmx : PPCState :=
  writeA s inst ((s.gpr inst.rs).rotateLeft inst.sh.toNat &&& makeRotationMask inst.mb inst.me)

def rlwnmx : PPCState :=
  writeA s inst ((s.gpr inst.rs).rotateLeft (s.gpr inst.rb &&& 0x1F).toNat &&&
    makeRotationMask inst.mb inst.me)

def andx : PPCState := writeA s inst (s.gpr inst.rs &&& s.gpr inst.rb)
def andcx : PPCState := writeA s inst (s.gpr inst.rs &&& ~~~s.gpr inst.rb)
def eqvx : PPCState := writeA s inst (~~~(s.gpr inst.rs ^^^ s.gpr inst.rb))
def nandx : PPCState := writeA s inst (~~~(s.gpr inst.rs &&& s.gpr inst.rb))
def norx : PPCState := writeA s inst (~~~(s.gpr inst.rs ||| s.gpr inst.rb))
def orx : PPCState := writeA s inst (s.gpr inst.rs ||| s.gpr inst.rb)
def orcx : PPCState := writeA s inst (s.gpr inst.rs ||| ~~~s.gpr inst.rb)
def xorx : PPCState := writeA s inst (s.gpr inst.rs ^^^ s.gpr inst.rb)

def cntlzwx : PPCState := writeA s inst (s.gpr inst.rs).clz
def extsbx : PPCState := writeA s inst (((s.gpr inst.rs).setWidth 8).signExtend 32)
def extshx : PPCState := writeA s inst (((s.gpr inst.rs).setWidth 16).signExtend 32)

def slwx : PPCState :=
  let amount := s.gpr inst.rb
  writeA s inst
    (if amount &&& 0x20 ≠ 0 then 0 else s.gpr inst.rs <<< (amount &&& 0x1f).toNat)

def srwx : PPCState :=
  let amount := s.gpr inst.rb
  writeA s inst
    (if amount &&& 0x20 ≠ 0 then 0 else s.gpr inst.rs >>> (amount &&& 0x1f).toNat)

/-- Writes rA and the carry, and CR0 if the record bit is set. -/
def writeACarry (value : BitVec 32) (carry : Bool) : PPCState :=
  let s := (s.setGPR inst.ra value).setCarry (boolToU32 carry)
  if inst.rc then updateCR0 s (s.gpr inst.ra) else s

/-- The bits that an arithmetic shift of a negative value shifts out are not all 0. -/
def shiftCarry (rrs : BitVec 32) (amount : ℕ) : Bool :=
  rrs.slt 0 && decide (0 < amount) && rrs <<< (32 - amount) != 0

def srawx : PPCState :=
  let rb := s.gpr inst.rb
  if rb &&& 0x20 ≠ 0 then
    if s.gpr inst.rs &&& 0x80000000 ≠ 0 then writeACarry s inst 0xFFFFFFFF true
    else writeACarry s inst 0 false
  else
    let amount := (rb &&& 0x1f).toNat
    let rrs := s.gpr inst.rs
    writeACarry s inst (rrs.sshiftRight amount) (shiftCarry rrs amount)

def srawix : PPCState :=
  let amount := inst.sh.toNat
  let rrs := s.gpr inst.rs
  writeACarry s inst (rrs.sshiftRight amount) (shiftCarry rrs amount)

/-! ## Results in rD -/

/-- Writes rD, the carry if there is one, OV if the overflow bit is set, and CR0 if the record bit
is. -/
def writeD (result : BitVec 32) (carry : Option Bool) (overflow : Bool) : PPCState :=
  let s := s.setGPR inst.rd result
  let s := match carry with
    | some carry => s.setCarry (boolToU32 carry)
    | none => s
  let s := if inst.oe then s.setXER_OV overflow else s
  if inst.rc then updateCR0 s result else s

def addx : PPCState :=
  let a := s.gpr inst.ra
  let b := s.gpr inst.rb
  let result := a + b
  writeD s inst result none (hasAddOverflowed a b result)

def addcx : PPCState :=
  let a := s.gpr inst.ra
  let b := s.gpr inst.rb
  let result := a + b
  writeD s inst result (some (helperCarry a b)) (hasAddOverflowed a b result)

def addex : PPCState :=
  let carry := s.getCarry
  let a := s.gpr inst.ra
  let b := s.gpr inst.rb
  let result := a + b + carry
  writeD s inst result (some (helperCarry a b || (carry != 0 && helperCarry (a + b) carry)))
    (hasAddOverflowed a b result)

def addmex : PPCState :=
  let carry := s.getCarry
  let a := s.gpr inst.ra
  let b := 0xFFFFFFFF
  let result := a + b + carry
  writeD s inst result (some (helperCarry a (carry - 1))) (hasAddOverflowed a b result)

def addzex : PPCState :=
  let carry := s.getCarry
  let a := s.gpr inst.ra
  let result := a + carry
  writeD s inst result (some (helperCarry a carry)) (hasAddOverflowed a 0 result)

def divwx : PPCState :=
  let a := s.gpr inst.ra
  let b := s.gpr inst.rb
  let overflow := b == 0 || (a == 0x80000000 && b == 0xFFFFFFFF)
  let result := if overflow then if a.slt 0 then 0xFFFFFFFF else 0 else a.sdiv b
  writeD s inst result none overflow

def divwux : PPCState :=
  let a := s.gpr inst.ra
  let b := s.gpr inst.rb
  let overflow := b == 0
  writeD s inst (if overflow then 0 else a / b) none overflow

/-- Writes rD, and CR0 if the record bit is set; the overflow bit is not looked at. -/
def writeDNoOverflow (d : BitVec 32) : PPCState :=
  let s := s.setGPR inst.rd d
  if inst.rc then updateCR0 s d else s

def mulhwx : PPCState :=
  let a := (s.gpr inst.ra).signExtend 64
  let b := (s.gpr inst.rb).signExtend 64
  writeDNoOverflow s inst (((a * b).sshiftRight 32).setWidth 32)

def mulhwux : PPCState :=
  let a := (s.gpr inst.ra).setWidth 64
  let b := (s.gpr inst.rb).setWidth 64
  writeDNoOverflow s inst (((a * b) >>> 32).setWidth 32)

def mullwx : PPCState :=
  let a := (s.gpr inst.ra).signExtend 64
  let b := (s.gpr inst.rb).signExtend 64
  let result := a * b
  writeD s inst (result.setWidth 32) none
    (decide (result.toInt < -0x80000000 ∨ 0x7FFFFFFF < result.toInt))

def negx : PPCState :=
  let a := s.gpr inst.ra
  writeD s inst (~~~a + 1) none (a == 0x80000000)

def subfx : PPCState :=
  let a := ~~~s.gpr inst.ra
  let b := s.gpr inst.rb
  let result := a + b + 1
  writeD s inst result none (hasAddOverflowed a b result)

def subfcx : PPCState :=
  let a := ~~~s.gpr inst.ra
  let b := s.gpr inst.rb
  let result := a + b + 1
  writeD s inst result (some (a == 0xFFFFFFFF || helperCarry b (a + 1)))
    (hasAddOverflowed a b result)

def subfex : PPCState :=
  let a := ~~~s.gpr inst.ra
  let b := s.gpr inst.rb
  let carry := s.getCarry
  let result := a + b + carry
  writeD s inst result (some (helperCarry a b || helperCarry (a + b) carry))
    (hasAddOverflowed a b result)

def subfmex : PPCState :=
  let a := ~~~s.gpr inst.ra
  let b := 0xFFFFFFFF
  let carry := s.getCarry
  let result := a + b + carry
  writeD s inst result (some (helperCarry a (carry - 1))) (hasAddOverflowed a b result)

def subfzex : PPCState :=
  let a := ~~~s.gpr inst.ra
  let carry := s.getCarry
  let result := a + carry
  writeD s inst result (some (helperCarry a carry)) (hasAddOverflowed a 0 result)

/-! ## Dispatch -/

/-- The handler of a word of table 31. -/
def table31 (subop10 : BitVec 10) : Option (PPCState → Inst → PPCState) :=
  match subop10.toNat with
  | 266 | 778 => some addx
  | 10 | 522 => some addcx
  | 138 | 650 => some addex
  | 234 | 746 => some addmex
  | 202 | 714 => some addzex
  | 491 | 1003 => some divwx
  | 459 | 971 => some divwux
  | 75 => some mulhwx
  | 11 => some mulhwux
  | 235 | 747 => some mullwx
  | 104 | 616 => some negx
  | 40 | 552 => some subfx
  | 8 | 520 => some subfcx
  | 136 | 648 => some subfex
  | 232 | 744 => some subfmex
  | 200 | 712 => some subfzex
  | 28 => some andx
  | 60 => some andcx
  | 444 => some orx
  | 124 => some norx
  | 316 => some xorx
  | 412 => some orcx
  | 476 => some nandx
  | 284 => some eqvx
  | 26 => some cntlzwx
  | 922 => some extshx
  | 954 => some extsbx
  | 536 => some srwx
  | 792 => some srawx
  | 824 => some srawix
  | 24 => some slwx
  | _ => none

def handler : Option (PPCState → Inst → PPCState) :=
  match inst.opcd.toNat with
  | 7 => some mulli
  | 8 => some subfic
  | 12 => some addic
  | 13 => some addic_rc
  | 14 => some addi
  | 15 => some addis
  | 20 => some rlwimix
  | 21 => some rlwinmx
  | 23 => some rlwnmx
  | 24 => some ori
  | 25 => some oris
  | 26 => some xori
  | 27 => some xoris
  | 28 => some andi_rc
  | 29 => some andis_rc
  | 31 => table31 inst.subop10
  | _ => none

/-- The state after the word, if it has one of these handlers. -/
def execute : Option PPCState := (handler inst).map fun run => run s inst

end Interpreter

end PowerPC
