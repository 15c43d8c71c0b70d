import Mathlib.Algebra.Order.Group.Multiset
import Mathlib.Logic.Function.Basic

/-!
# Instruction words and the state of the integer unit

* `Inst`: a `UGeckoInstruction`, a word with its fields.
* `PPCState`: the general registers, the parts of XER and field 0 of the condition register.
-/

set_option autoImplicit false

namespace PowerPC

/-- A `UGeckoInstruction`. -/
structure Inst where
  hex : BitVec 32
  deriving DecidableEq

namespace Inst

variable (inst : Inst)

def opcd : BitVec 6 := inst.hex.extractLsb' 26 6
def rd : BitVec 5 := inst.hex.extractLsb' 21 5
def rs : BitVec 5 := inst.hex.extractLsb' 21 5
def ra : BitVec 5 := inst.hex.extractLsb' 16 5
def rb : BitVec 5 := inst.hex.extractLsb' 11 5
def sh : BitVec 5 := inst.hex.extractLsb' 11 5
def mb : BitVec 5 := inst.hex.extractLsb' 6 5
def me : BitVec 5 := inst.hex.extractLsb' 1 5
def subop10 : BitVec 10 := inst.hex.extractLsb' 1 10
def oe : Bool := inst.hex.getLsbD 10
def rc : Bool := inst.hex.getLsbD 0
def uimm : BitVec 16 := inst.hex.extractLsb' 0 16

/-- `SIMM_16` as an `s32`. -/
def simm16 : BitVec 32 := (inst.hex.extractLsb' 0 16).signExtend 32

/-- The overflow bit is the upper bit of `SUBOP10`. -/
theorem oe_eq : inst.oe = inst.subop10.getLsbD 9 := by
  simp [oe, subop10]

end Inst

def makeRotationMask (mb me : BitVec 5) : BitVec 32 :=
  let begin' := 0xFFFFFFFF#32 >>> mb.toNat
  let end' := 0x7FFFFFFF#32 >>> me.toNat
  let mask := begin' ^^^ end'
  if me < mb then ~~~mask else mask

/-! ## Flags of the instructions -/

def flSetCa : BitVec 64 := 1 <<< 3
def flInB : BitVec 64 := 1 <<< 10
def flOutD : BitVec 64 := 1 <<< 13
def flSetOe : BitVec 64 := 1 <<< 22

/-- `flags & flag` as a condition. -/
def hasFlag (flags flag : BitVec 64) : Bool := flags &&& flag != 0

/-- The flags in `s_table31`, restricted to those above. -/
def table31Flags (subop10 : BitVec 10) : BitVec 64 :=
  match subop10.toNat with
  | 266 | 491 | 459 | 75 | 11 | 235 | 40 => flOutD ||| flInB
  | 778 | 1003 | 971 | 747 | 552 => flOutD ||| flInB ||| flSetOe
  | 10 | 138 | 8 | 136 => flOutD ||| flInB ||| flSetCa
  | 522 | 650 | 520 | 648 => flOutD ||| flInB ||| flSetCa ||| flSetOe
  | 234 | 202 | 232 | 200 => flOutD ||| flSetCa
  | 746 | 714 | 744 | 712 => flOutD ||| flSetCa ||| flSetOe
  | 104 => flOutD
  | 616 => flOutD ||| flSetOe
  | 28 | 60 | 444 | 124 | 316 | 412 | 476 | 284 | 0 | 32 | 536 | 24 => flInB
  | 792 => flInB ||| flSetCa
  | 824 => flSetCa
  -- dcbst, dcbf, dcbi, dcbz
  | 54 | 86 | 470 | 1014 => flInB
  -- loads
  | 23 | 55 | 279 | 311 | 343 | 375 | 87 | 119 | 534 | 790 | 20 | 533 => flOutD ||| flInB
  | 597 => flOutD
  -- stores
  | 150 | 151 | 183 | 407 | 439 | 215 | 247 | 662 | 918 | 661 => flInB
  | 535 | 567 | 599 | 631 | 663 | 695 | 727 | 759 | 983 => flInB
  -- mfcr, mfmsr, mfspr, mftb, mfsr, mfsrin
  | 19 | 83 | 339 | 371 | 595 => flOutD
  | 659 => flOutD ||| flInB
  -- mtsrin, mcrxr, tw, icbi, eciwx, ecowx, tlbie
  | 242 | 4 | 982 | 438 | 306 => flInB
  | 512 => flSetCa
  | 310 => flOutD ||| flInB
  | _ => 0

/-- The flags of `GetOpInfo`. The folding reads them for table 31 only; `other` are those of the
other tables. -/
def opInfoFlags (other : BitVec 64) (inst : Inst) : BitVec 64 :=
  if inst.opcd = 31 then table31Flags inst.subop10 else other

/-! ## State -/

@[ext] structure PPCState where
  gpr : BitVec 5 → BitVec 32
  xerCa : BitVec 8
  /-- `(SO << 1) | OV` -/
  xerSoOv : BitVec 8
  /-- `cr.fields[0]` -/
  cr0 : BitVec 64

def boolToU32 (b : Bool) : BitVec 32 := if b then 1 else 0

namespace PPCState

variable (s : PPCState)

def setGPR (r : BitVec 5) (value : BitVec 32) : PPCState :=
  { s with gpr := Function.update s.gpr r value }

def setCarry (ca : BitVec 32) : PPCState := { s with xerCa := ca.setWidth 8 }

def getCarry : BitVec 32 := s.xerCa.setWidth 32

def getXER_SO : BitVec 32 := (s.xerSoOv >>> 1).setWidth 32

def setXER_SO (value : Bool) : PPCState :=
  { s with xerSoOv := s.xerSoOv ||| (boolToU32 value <<< 1).setWidth 8 }

def getXER_OV : BitVec 32 := s.xerSoOv.setWidth 32 &&& 1

def setXER_OV (value : Bool) : PPCState :=
  ({ s with xerSoOv := (s.xerSoOv &&& 0xFE) ||| (boolToU32 value).setWidth 8 }).setXER_SO value

@[simp] theorem setGPR_gpr_self (r : BitVec 5) (value : BitVec 32) :
    (s.setGPR r value).gpr r = value :=
  Function.update_self _ _ _

@[simp] theorem setCarry_gpr (ca : BitVec 32) : (s.setCarry ca).gpr = s.gpr := rfl

theorem setXER_OV_getXER_OV (value : Bool) : (s.setXER_OV value).getXER_OV = boolToU32 value := by
  show ((s.xerSoOv &&& 0xFE ||| (boolToU32 value).setWidth 8) |||
    (boolToU32 value <<< 1).setWidth 8).setWidth 32 &&& 1 = boolToU32 value
  generalize s.xerSoOv = x
  revert x
  cases value <;> decide

end PPCState

end PowerPC
