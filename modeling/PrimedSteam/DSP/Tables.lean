import Mathlib.Algebra.Order.Group.Multiset
import Mathlib.Tactic.Abel

/-!
# The opcode tables of the DSP

`opcodes` and `opcodesExt` are the tables of `DSPTables.cpp`, and `getOpTemplate` is the lookup that the
interpreter, the recompiler and the analyzer use.
-/

set_option autoImplicit false

namespace DSP

abbrev Word := BitVec 16

/-! ## Registers -/

abbrev Register := ℕ

def regAr0 : Register := 0x00
def regIx0 : Register := 0x04
def regAch0 : Register := 0x10
def regAxl0 : Register := 0x18
def regAxl1 : Register := 0x19
def regAxh0 : Register := 0x1a
def regAcl0 : Register := 0x1c
def regAcm0 : Register := 0x1e
def regAcc0Full : Register := 0x20
def regAx0Full : Register := 0x22

/-! ## Parameters

The bits of a parameter type above the low byte give the first register. -/

abbrev ParType := BitVec 16

def pVal : ParType := 0x0001
def pImm : ParType := 0x0002
def pMem : ParType := 0x0003
def pAddrI : ParType := 0x0005
def pReg : ParType := 0x8000
def pReg04 : ParType := pReg ||| .ofNat 16 (regIx0 <<< 8)
def pReg18 : ParType := pReg ||| .ofNat 16 (regAxl0 <<< 8)
def pRegM18 : ParType := pReg ||| .ofNat 16 (regAxl0 <<< 8) ||| 0x10
def pReg19 : ParType := pReg ||| .ofNat 16 (regAxl1 <<< 8)
def pRegM19 : ParType := pReg ||| .ofNat 16 (regAxl1 <<< 8) ||| 0x10
def pReg1A : ParType := pReg ||| .ofNat 16 (regAxh0 <<< 8) ||| 0x80
def pAccL : ParType := pReg ||| .ofNat 16 (regAcl0 <<< 8)
def pReg1C : ParType := pReg ||| .ofNat 16 (regAcl0 <<< 8) ||| 0x10
def pAccM : ParType := pReg ||| .ofNat 16 (regAcm0 <<< 8)
def pAccMD : ParType := pReg ||| .ofNat 16 (regAcm0 <<< 8) ||| 0x80
def pAcc : ParType := pReg ||| .ofNat 16 (regAcc0Full <<< 8)
def pAccH : ParType := pReg ||| .ofNat 16 (regAch0 <<< 8)
def pAccD : ParType := pReg ||| .ofNat 16 (regAcc0Full <<< 8) ||| 0x80
def pAx : ParType := pReg ||| .ofNat 16 (regAx0Full <<< 8)
def pRegsMask : ParType := 0x3f80
def pRef : ParType := pReg ||| 0x4000
def pPrg : ParType := pRef ||| pReg

/-- `param2_t`. No shift in the tables is negative. -/
structure Param where
  type : ParType
  size : ℕ
  loc : ℕ
  lshift : ℕ
  mask : Word

structure DSPOPCTemplate where
  name : String
  opcode : Word
  opcodeMask : Word
  size : ℕ
  params : List Param
  extended : Bool
  branch : Bool
  uncondBranch : Bool
  readsPc : Bool
  updatesSr : Bool

namespace DSPOPCTemplate

/-- The test of `FindByOpcode`. -/
def Matches (t : DSPOPCTemplate) (inst : Word) : Bool := inst &&& t.opcodeMask == t.opcode

end DSPOPCTemplate

/-! ## Tables -/

/-- `s_opcodes` -/
def opcodes : List DSPOPCTemplate := [
  ⟨"NOP", 0x0000, 0xfffc, 1, [], false, false, false, false, false⟩,
  ⟨"DAR", 0x0004, 0xfffc, 1, [⟨pReg, 1, 0, 0, 0x0003⟩], false, false, false, false, false⟩,
  ⟨"IAR", 0x0008, 0xfffc, 1, [⟨pReg, 1, 0, 0, 0x0003⟩], false, false, false, false, false⟩,
  ⟨"SUBARN", 0x000c, 0xfffc, 1, [⟨pReg, 1, 0, 0, 0x0003⟩], false, false, false, false, false⟩,
  ⟨"ADDARN", 0x0010, 0xfff0, 1, [⟨pReg, 1, 0, 0, 0x0003⟩, ⟨pReg04, 1, 0, 2, 0x000c⟩],
    false, false, false, false, false⟩,
  ⟨"HALT", 0x0021, 0xffff, 1, [], false, true, true, false, false⟩,
  ⟨"RETGE", 0x02d0, 0xffff, 1, [], false, true, false, true, false⟩,
  ⟨"RETL", 0x02d1, 0xffff, 1, [], false, true, false, true, false⟩,
  ⟨"RETG", 0x02d2, 0xffff, 1, [], false, true, false, true, false⟩,
  ⟨"RETLE", 0x02d3, 0xffff, 1, [], false, true, false, true, false⟩,
  ⟨"RETNZ", 0x02d4, 0xffff, 1, [], false, true, false, true, false⟩,
  ⟨"RETZ", 0x02d5, 0xffff, 1, [], false, true, false, true, false⟩,
  ⟨"RETNC", 0x02d6, 0xffff, 1, [], false, true, false, true, false⟩,
  ⟨"RETC", 0x02d7, 0xffff, 1, [], false, true, false, true, false⟩,
  ⟨"RETX8", 0x02d8, 0xffff, 1, [], false, true, false, true, false⟩,
  ⟨"RETX9", 0x02d9, 0xffff, 1, [], false, true, false, true, false⟩,
  ⟨"RETXA", 0x02da, 0xffff, 1, [], false, true, false, true, false⟩,
  ⟨"RETXB", 0x02db, 0xffff, 1, [], false, true, false, true, false⟩,
  ⟨"RETLNZ", 0x02dc, 0xffff, 1, [], false, true, false, true, false⟩,
  ⟨"RETLZ", 0x02dd, 0xffff, 1, [], false, true, false, true, false⟩,
  ⟨"RETO", 0x02de, 0xffff, 1, [], false, true, false, true, false⟩,
  ⟨"RET", 0x02df, 0xffff, 1, [], false, true, true, false, false⟩,
  ⟨"RTIGE", 0x02f0, 0xffff, 1, [], false, true, false, true, false⟩,
  ⟨"RTIL", 0x02f1, 0xffff, 1, [], false, true, false, true, false⟩,
  ⟨"RTIG", 0x02f2, 0xffff, 1, [], false, true, false, true, false⟩,
  ⟨"RTILE", 0x02f3, 0xffff, 1, [], false, true, false, true, false⟩,
  ⟨"RTINZ", 0x02f4, 0xffff, 1, [], false, true, false, true, false⟩,
  ⟨"RTIZ", 0x02f5, 0xffff, 1, [], false, true, false, true, false⟩,
  ⟨"RTINC", 0x02f6, 0xffff, 1, [], false, true, false, true, false⟩,
  ⟨"RTIC", 0x02f7, 0xffff, 1, [], false, true, false, true, false⟩,
  ⟨"RTIX8", 0x02f8, 0xffff, 1, [], false, true, false, true, false⟩,
  ⟨"RTIX9", 0x02f9, 0xffff, 1, [], false, true, false, true, false⟩,
  ⟨"RTIXA", 0x02fa, 0xffff, 1, [], false, true, false, true, false⟩,
  ⟨"RTIXB", 0x02fb, 0xffff, 1, [], false, true, false, true, false⟩,
  ⟨"RTILNZ", 0x02fc, 0xffff, 1, [], false, true, false, true, false⟩,
  ⟨"RTILZ", 0x02fd, 0xffff, 1, [], false, true, false, true, false⟩,
  ⟨"RTIO", 0x02fe, 0xffff, 1, [], false, true, false, true, false⟩,
  ⟨"RTI", 0x02ff, 0xffff, 1, [], false, true, true, false, false⟩,
  ⟨"CALLGE", 0x02b0, 0xffff, 2, [⟨pAddrI, 2, 1, 0, 0xffff⟩], false, true, false, true, false⟩,
  ⟨"CALLL", 0x02b1, 0xffff, 2, [⟨pAddrI, 2, 1, 0, 0xffff⟩], false, true, false, true, false⟩,
  ⟨"CALLG", 0x02b2, 0xffff, 2, [⟨pAddrI, 2, 1, 0, 0xffff⟩], false, true, false, true, false⟩,
  ⟨"CALLLE", 0x02b3, 0xffff, 2, [⟨pAddrI, 2, 1, 0, 0xffff⟩], false, true, false, true, false⟩,
  ⟨"CALLNZ", 0x02b4, 0xffff, 2, [⟨pAddrI, 2, 1, 0, 0xffff⟩], false, true, false, true, false⟩,
  ⟨"CALLZ", 0x02b5, 0xffff, 2, [⟨pAddrI, 2, 1, 0, 0xffff⟩], false, true, false, true, false⟩,
  ⟨"CALLNC", 0x02b6, 0xffff, 2, [⟨pAddrI, 2, 1, 0, 0xffff⟩], false, true, false, true, false⟩,
  ⟨"CALLC", 0x02b7, 0xffff, 2, [⟨pAddrI, 2, 1, 0, 0xffff⟩], false, true, false, true, false⟩,
  ⟨"CALLX8", 0x02b8, 0xffff, 2, [⟨pAddrI, 2, 1, 0, 0xffff⟩], false, true, false, true, false⟩,
  ⟨"CALLX9", 0x02b9, 0xffff, 2, [⟨pAddrI, 2, 1, 0, 0xffff⟩], false, true, false, true, false⟩,
  ⟨"CALLXA", 0x02ba, 0xffff, 2, [⟨pAddrI, 2, 1, 0, 0xffff⟩], false, true, false, true, false⟩,
  ⟨"CALLXB", 0x02bb, 0xffff, 2, [⟨pAddrI, 2, 1, 0, 0xffff⟩], false, true, false, true, false⟩,
  ⟨"CALLLNZ", 0x02bc, 0xffff, 2, [⟨pAddrI, 2, 1, 0, 0xffff⟩], false, true, false, true, false⟩,
  ⟨"CALLLZ", 0x02bd, 0xffff, 2, [⟨pAddrI, 2, 1, 0, 0xffff⟩], false, true, false, true, false⟩,
  ⟨"CALLO", 0x02be, 0xffff, 2, [⟨pAddrI, 2, 1, 0, 0xffff⟩], false, true, false, true, false⟩,
  ⟨"CALL", 0x02bf, 0xffff, 2, [⟨pAddrI, 2, 1, 0, 0xffff⟩], false, true, true, true, false⟩,
  ⟨"IFGE", 0x0270, 0xffff, 1, [], false, true, false, true, false⟩,
  ⟨"IFL", 0x0271, 0xffff, 1, [], false, true, false, true, false⟩,
  ⟨"IFG", 0x0272, 0xffff, 1, [], false, true, false, true, false⟩,
  ⟨"IFLE", 0x0273, 0xffff, 1, [], false, true, false, true, false⟩,
  ⟨"IFNZ", 0x0274, 0xffff, 1, [], false, true, false, true, false⟩,
  ⟨"IFZ", 0x0275, 0xffff, 1, [], false, true, false, true, false⟩,
  ⟨"IFNC", 0x0276, 0xffff, 1, [], false, true, false, true, false⟩,
  ⟨"IFC", 0x0277, 0xffff, 1, [], false, true, false, true, false⟩,
  ⟨"IFX8", 0x0278, 0xffff, 1, [], false, true, false, true, false⟩,
  ⟨"IFX9", 0x0279, 0xffff, 1, [], false, true, false, true, false⟩,
  ⟨"IFXA", 0x027a, 0xffff, 1, [], false, true, false, true, false⟩,
  ⟨"IFXB", 0x027b, 0xffff, 1, [], false, true, false, true, false⟩,
  ⟨"IFLNZ", 0x027c, 0xffff, 1, [], false, true, false, true, false⟩,
  ⟨"IFLZ", 0x027d, 0xffff, 1, [], false, true, false, true, false⟩,
  ⟨"IFO", 0x027e, 0xffff, 1, [], false, true, false, true, false⟩,
  ⟨"IF", 0x027f, 0xffff, 1, [], false, true, true, true, false⟩,
  ⟨"JGE", 0x0290, 0xffff, 2, [⟨pAddrI, 2, 1, 0, 0xffff⟩], false, true, false, true, false⟩,
  ⟨"JL", 0x0291, 0xffff, 2, [⟨pAddrI, 2, 1, 0, 0xffff⟩], false, true, false, true, false⟩,
  ⟨"JG", 0x0292, 0xffff, 2, [⟨pAddrI, 2, 1, 0, 0xffff⟩], false, true, false, true, false⟩,
  ⟨"JLE", 0x0293, 0xffff, 2, [⟨pAddrI, 2, 1, 0, 0xffff⟩], false, true, false, true, false⟩,
  ⟨"JNZ", 0x0294, 0xffff, 2, [⟨pAddrI, 2, 1, 0, 0xffff⟩], false, true, false, true, false⟩,
  ⟨"JZ", 0x0295, 0xffff, 2, [⟨pAddrI, 2, 1, 0, 0xffff⟩], false, true, false, true, false⟩,
  ⟨"JNC", 0x0296, 0xffff, 2, [⟨pAddrI, 2, 1, 0, 0xffff⟩], false, true, false, true, false⟩,
  ⟨"JC", 0x0297, 0xffff, 2, [⟨pAddrI, 2, 1, 0, 0xffff⟩], false, true, false, true, false⟩,
  ⟨"JMPX8", 0x0298, 0xffff, 2, [⟨pAddrI, 2, 1, 0, 0xffff⟩], false, true, false, true, false⟩,
  ⟨"JMPX9", 0x0299, 0xffff, 2, [⟨pAddrI, 2, 1, 0, 0xffff⟩], false, true, false, true, false⟩,
  ⟨"JMPXA", 0x029a, 0xffff, 2, [⟨pAddrI, 2, 1, 0, 0xffff⟩], false, true, false, true, false⟩,
  ⟨"JMPXB", 0x029b, 0xffff, 2, [⟨pAddrI, 2, 1, 0, 0xffff⟩], false, true, false, true, false⟩,
  ⟨"JLNZ", 0x029c, 0xffff, 2, [⟨pAddrI, 2, 1, 0, 0xffff⟩], false, true, false, true, false⟩,
  ⟨"JLZ", 0x029d, 0xffff, 2, [⟨pAddrI, 2, 1, 0, 0xffff⟩], false, true, false, true, false⟩,
  ⟨"JO", 0x029e, 0xffff, 2, [⟨pAddrI, 2, 1, 0, 0xffff⟩], false, true, false, true, false⟩,
  ⟨"JMP", 0x029f, 0xffff, 2, [⟨pAddrI, 2, 1, 0, 0xffff⟩], false, true, true, true, false⟩,
  ⟨"JRGE", 0x1700, 0xff1f, 1, [⟨pReg, 1, 0, 5, 0x00e0⟩], false, true, false, false, false⟩,
  ⟨"JRL", 0x1701, 0xff1f, 1, [⟨pReg, 1, 0, 5, 0x00e0⟩], false, true, false, false, false⟩,
  ⟨"JRG", 0x1702, 0xff1f, 1, [⟨pReg, 1, 0, 5, 0x00e0⟩], false, true, false, false, false⟩,
  ⟨"JRLE", 0x1703, 0xff1f, 1, [⟨pReg, 1, 0, 5, 0x00e0⟩], false, true, false, false, false⟩,
  ⟨"JRNZ", 0x1704, 0xff1f, 1, [⟨pReg, 1, 0, 5, 0x00e0⟩], false, true, false, false, false⟩,
  ⟨"JRZ", 0x1705, 0xff1f, 1, [⟨pReg, 1, 0, 5, 0x00e0⟩], false, true, false, false, false⟩,
  ⟨"JRNC", 0x1706, 0xff1f, 1, [⟨pReg, 1, 0, 5, 0x00e0⟩], false, true, false, false, false⟩,
  ⟨"JRC", 0x1707, 0xff1f, 1, [⟨pReg, 1, 0, 5, 0x00e0⟩], false, true, false, false, false⟩,
  ⟨"JMPRX8", 0x1708, 0xff1f, 1, [⟨pReg, 1, 0, 5, 0x00e0⟩], false, true, false, false, false⟩,
  ⟨"JMPRX9", 0x1709, 0xff1f, 1, [⟨pReg, 1, 0, 5, 0x00e0⟩], false, true, false, false, false⟩,
  ⟨"JMPRXA", 0x170a, 0xff1f, 1, [⟨pReg, 1, 0, 5, 0x00e0⟩], false, true, false, false, false⟩,
  ⟨"JMPRXB", 0x170b, 0xff1f, 1, [⟨pReg, 1, 0, 5, 0x00e0⟩], false, true, false, false, false⟩,
  ⟨"JRLNZ", 0x170c, 0xff1f, 1, [⟨pReg, 1, 0, 5, 0x00e0⟩], false, true, false, false, false⟩,
  ⟨"JRLZ", 0x170d, 0xff1f, 1, [⟨pReg, 1, 0, 5, 0x00e0⟩], false, true, false, false, false⟩,
  ⟨"JRO", 0x170e, 0xff1f, 1, [⟨pReg, 1, 0, 5, 0x00e0⟩], false, true, false, false, false⟩,
  ⟨"JMPR", 0x170f, 0xff1f, 1, [⟨pReg, 1, 0, 5, 0x00e0⟩], false, true, true, false, false⟩,
  ⟨"CALLRGE", 0x1710, 0xff1f, 1, [⟨pReg, 1, 0, 5, 0x00e0⟩], false, true, false, true, false⟩,
  ⟨"CALLRL", 0x1711, 0xff1f, 1, [⟨pReg, 1, 0, 5, 0x00e0⟩], false, true, false, true, false⟩,
  ⟨"CALLRG", 0x1712, 0xff1f, 1, [⟨pReg, 1, 0, 5, 0x00e0⟩], false, true, false, true, false⟩,
  ⟨"CALLRLE", 0x1713, 0xff1f, 1, [⟨pReg, 1, 0, 5, 0x00e0⟩], false, true, false, true, false⟩,
  ⟨"CALLRNZ", 0x1714, 0xff1f, 1, [⟨pReg, 1, 0, 5, 0x00e0⟩], false, true, false, true, false⟩,
  ⟨"CALLRZ", 0x1715, 0xff1f, 1, [⟨pReg, 1, 0, 5, 0x00e0⟩], false, true, false, true, false⟩,
  ⟨"CALLRNC", 0x1716, 0xff1f, 1, [⟨pReg, 1, 0, 5, 0x00e0⟩], false, true, false, true, false⟩,
  ⟨"CALLRC", 0x1717, 0xff1f, 1, [⟨pReg, 1, 0, 5, 0x00e0⟩], false, true, false, true, false⟩,
  ⟨"CALLRX8", 0x1718, 0xff1f, 1, [⟨pReg, 1, 0, 5, 0x00e0⟩], false, true, false, true, false⟩,
  ⟨"CALLRX9", 0x1719, 0xff1f, 1, [⟨pReg, 1, 0, 5, 0x00e0⟩], false, true, false, true, false⟩,
  ⟨"CALLRXA", 0x171a, 0xff1f, 1, [⟨pReg, 1, 0, 5, 0x00e0⟩], false, true, false, true, false⟩,
  ⟨"CALLRXB", 0x171b, 0xff1f, 1, [⟨pReg, 1, 0, 5, 0x00e0⟩], false, true, false, true, false⟩,
  ⟨"CALLRLNZ", 0x171c, 0xff1f, 1, [⟨pReg, 1, 0, 5, 0x00e0⟩], false, true, false, true, false⟩,
  ⟨"CALLRLZ", 0x171d, 0xff1f, 1, [⟨pReg, 1, 0, 5, 0x00e0⟩], false, true, false, true, false⟩,
  ⟨"CALLRO", 0x171e, 0xff1f, 1, [⟨pReg, 1, 0, 5, 0x00e0⟩], false, true, false, true, false⟩,
  ⟨"CALLR", 0x171f, 0xff1f, 1, [⟨pReg, 1, 0, 5, 0x00e0⟩], false, true, true, true, false⟩,
  ⟨"SBCLR", 0x1200, 0xff00, 1, [⟨pImm, 1, 0, 0, 0x0007⟩], false, false, false, false, false⟩,
  ⟨"SBSET", 0x1300, 0xff00, 1, [⟨pImm, 1, 0, 0, 0x0007⟩], false, false, false, false, false⟩,
  ⟨"LSL", 0x1400, 0xfec0, 1, [⟨pAcc, 1, 0, 8, 0x0100⟩, ⟨pImm, 1, 0, 0, 0x003f⟩],
    false, false, false, false, true⟩,
  ⟨"LSR", 0x1440, 0xfec0, 1, [⟨pAcc, 1, 0, 8, 0x0100⟩, ⟨pImm, 1, 0, 0, 0x003f⟩],
    false, false, false, false, true⟩,
  ⟨"ASL", 0x1480, 0xfec0, 1, [⟨pAcc, 1, 0, 8, 0x0100⟩, ⟨pImm, 1, 0, 0, 0x003f⟩],
    false, false, false, false, true⟩,
  ⟨"ASR", 0x14c0, 0xfec0, 1, [⟨pAcc, 1, 0, 8, 0x0100⟩, ⟨pImm, 1, 0, 0, 0x003f⟩],
    false, false, false, false, true⟩,
  ⟨"LSRN", 0x02ca, 0xffff, 1, [], false, false, false, false, true⟩,
  ⟨"ASRN", 0x02cb, 0xffff, 1, [], false, false, false, false, true⟩,
  ⟨"LRI", 0x0080, 0xffe0, 2, [⟨pReg, 1, 0, 0, 0x001f⟩, ⟨pImm, 2, 1, 0, 0xffff⟩],
    false, false, false, true, false⟩,
  ⟨"LR", 0x00c0, 0xffe0, 2, [⟨pReg, 1, 0, 0, 0x001f⟩, ⟨pMem, 2, 1, 0, 0xffff⟩],
    false, false, false, true, false⟩,
  ⟨"SR", 0x00e0, 0xffe0, 2, [⟨pMem, 2, 1, 0, 0xffff⟩, ⟨pReg, 1, 0, 0, 0x001f⟩],
    false, false, false, true, false⟩,
  ⟨"MRR", 0x1c00, 0xfc00, 1, [⟨pReg, 1, 0, 5, 0x03e0⟩, ⟨pReg, 1, 0, 0, 0x001f⟩],
    false, false, false, false, false⟩,
  ⟨"SI", 0x1600, 0xff00, 2, [⟨pMem, 1, 0, 0, 0x00ff⟩, ⟨pImm, 2, 1, 0, 0xffff⟩],
    false, false, false, true, false⟩,
  ⟨"ADDIS", 0x0400, 0xfe00, 1, [⟨pAccM, 1, 0, 8, 0x0100⟩, ⟨pImm, 1, 0, 0, 0x00ff⟩],
    false, false, false, false, true⟩,
  ⟨"CMPIS", 0x0600, 0xfe00, 1, [⟨pAccM, 1, 0, 8, 0x0100⟩, ⟨pImm, 1, 0, 0, 0x00ff⟩],
    false, false, false, false, true⟩,
  ⟨"LRIS", 0x0800, 0xf800, 1, [⟨pReg18, 1, 0, 8, 0x0700⟩, ⟨pImm, 1, 0, 0, 0x00ff⟩],
    false, false, false, false, true⟩,
  ⟨"ADDI", 0x0200, 0xfeff, 2, [⟨pAccM, 1, 0, 8, 0x0100⟩, ⟨pImm, 2, 1, 0, 0xffff⟩],
    false, false, false, true, true⟩,
  ⟨"XORI", 0x0220, 0xfeff, 2, [⟨pAccM, 1, 0, 8, 0x0100⟩, ⟨pImm, 2, 1, 0, 0xffff⟩],
    false, false, false, true, true⟩,
  ⟨"ANDI", 0x0240, 0xfeff, 2, [⟨pAccM, 1, 0, 8, 0x0100⟩, ⟨pImm, 2, 1, 0, 0xffff⟩],
    false, false, false, true, true⟩,
  ⟨"ORI", 0x0260, 0xfeff, 2, [⟨pAccM, 1, 0, 8, 0x0100⟩, ⟨pImm, 2, 1, 0, 0xffff⟩],
    false, false, false, true, true⟩,
  ⟨"CMPI", 0x0280, 0xfeff, 2, [⟨pAccM, 1, 0, 8, 0x0100⟩, ⟨pImm, 2, 1, 0, 0xffff⟩],
    false, false, false, true, true⟩,
  ⟨"ANDF", 0x02a0, 0xfeff, 2, [⟨pAccM, 1, 0, 8, 0x0100⟩, ⟨pImm, 2, 1, 0, 0xffff⟩],
    false, false, false, true, true⟩,
  ⟨"ANDCF", 0x02c0, 0xfeff, 2, [⟨pAccM, 1, 0, 8, 0x0100⟩, ⟨pImm, 2, 1, 0, 0xffff⟩],
    false, false, false, true, true⟩,
  ⟨"ILRR", 0x0210, 0xfefc, 1, [⟨pAccM, 1, 0, 8, 0x0100⟩, ⟨pPrg, 1, 0, 0, 0x0003⟩],
    false, false, false, false, false⟩,
  ⟨"ILRRD", 0x0214, 0xfefc, 1, [⟨pAccM, 1, 0, 8, 0x0100⟩, ⟨pPrg, 1, 0, 0, 0x0003⟩],
    false, false, false, false, false⟩,
  ⟨"ILRRI", 0x0218, 0xfefc, 1, [⟨pAccM, 1, 0, 8, 0x0100⟩, ⟨pPrg, 1, 0, 0, 0x0003⟩],
    false, false, false, false, false⟩,
  ⟨"ILRRN", 0x021c, 0xfefc, 1, [⟨pAccM, 1, 0, 8, 0x0100⟩, ⟨pPrg, 1, 0, 0, 0x0003⟩],
    false, false, false, false, false⟩,
  ⟨"LOOP", 0x0040, 0xffe0, 1, [⟨pReg, 1, 0, 0, 0x001f⟩], false, true, true, true, false⟩,
  ⟨"BLOOP", 0x0060, 0xffe0, 2, [⟨pReg, 1, 0, 0, 0x001f⟩, ⟨pAddrI, 2, 1, 0, 0xffff⟩],
    false, true, true, true, false⟩,
  ⟨"LOOPI", 0x1000, 0xff00, 1, [⟨pImm, 1, 0, 0, 0x00ff⟩], false, true, true, true, false⟩,
  ⟨"BLOOPI", 0x1100, 0xff00, 2, [⟨pImm, 1, 0, 0, 0x00ff⟩, ⟨pAddrI, 2, 1, 0, 0xffff⟩],
    false, true, true, true, false⟩,
  ⟨"LRR", 0x1800, 0xff80, 1, [⟨pReg, 1, 0, 0, 0x001f⟩, ⟨pPrg, 1, 0, 5, 0x0060⟩],
    false, false, false, false, false⟩,
  ⟨"LRRD", 0x1880, 0xff80, 1, [⟨pReg, 1, 0, 0, 0x001f⟩, ⟨pPrg, 1, 0, 5, 0x0060⟩],
    false, false, false, false, false⟩,
  ⟨"LRRI", 0x1900, 0xff80, 1, [⟨pReg, 1, 0, 0, 0x001f⟩, ⟨pPrg, 1, 0, 5, 0x0060⟩],
    false, false, false, false, false⟩,
  ⟨"LRRN", 0x1980, 0xff80, 1, [⟨pReg, 1, 0, 0, 0x001f⟩, ⟨pPrg, 1, 0, 5, 0x0060⟩],
    false, false, false, false, false⟩,
  ⟨"SRR", 0x1a00, 0xff80, 1, [⟨pPrg, 1, 0, 5, 0x0060⟩, ⟨pReg, 1, 0, 0, 0x001f⟩],
    false, false, false, false, false⟩,
  ⟨"SRRD", 0x1a80, 0xff80, 1, [⟨pPrg, 1, 0, 5, 0x0060⟩, ⟨pReg, 1, 0, 0, 0x001f⟩],
    false, false, false, false, false⟩,
  ⟨"SRRI", 0x1b00, 0xff80, 1, [⟨pPrg, 1, 0, 5, 0x0060⟩, ⟨pReg, 1, 0, 0, 0x001f⟩],
    false, false, false, false, false⟩,
  ⟨"SRRN", 0x1b80, 0xff80, 1, [⟨pPrg, 1, 0, 5, 0x0060⟩, ⟨pReg, 1, 0, 0, 0x001f⟩],
    false, false, false, false, false⟩,
  ⟨"LRS", 0x2000, 0xf800, 1, [⟨pReg18, 1, 0, 8, 0x0700⟩, ⟨pMem, 1, 0, 0, 0x00ff⟩],
    false, false, false, false, false⟩,
  ⟨"SRSH", 0x2800, 0xfe00, 1, [⟨pMem, 1, 0, 0, 0x00ff⟩, ⟨pAccH, 1, 0, 8, 0x0100⟩],
    false, false, false, false, false⟩,
  ⟨"SRS", 0x2c00, 0xfc00, 1, [⟨pMem, 1, 0, 0, 0x00ff⟩, ⟨pReg1C, 1, 0, 8, 0x0300⟩],
    false, false, false, false, false⟩,
  ⟨"XORR", 0x3000, 0xfc80, 1, [⟨pAccM, 1, 0, 8, 0x0100⟩, ⟨pReg1A, 1, 0, 9, 0x0200⟩],
    true, false, false, false, true⟩,
  ⟨"ANDR", 0x3400, 0xfc80, 1, [⟨pAccM, 1, 0, 8, 0x0100⟩, ⟨pReg1A, 1, 0, 9, 0x0200⟩],
    true, false, false, false, true⟩,
  ⟨"ORR", 0x3800, 0xfc80, 1, [⟨pAccM, 1, 0, 8, 0x0100⟩, ⟨pReg1A, 1, 0, 9, 0x0200⟩],
    true, false, false, false, true⟩,
  ⟨"ANDC", 0x3c00, 0xfe80, 1, [⟨pAccM, 1, 0, 8, 0x0100⟩, ⟨pAccMD, 1, 0, 8, 0x0100⟩],
    true, false, false, false, true⟩,
  ⟨"ORC", 0x3e00, 0xfe80, 1, [⟨pAccM, 1, 0, 8, 0x0100⟩, ⟨pAccMD, 1, 0, 8, 0x0100⟩],
    true, false, false, false, true⟩,
  ⟨"XORC", 0x3080, 0xfe80, 1, [⟨pAccM, 1, 0, 8, 0x0100⟩, ⟨pAccMD, 1, 0, 8, 0x0100⟩],
    true, false, false, false, true⟩,
  ⟨"NOT", 0x3280, 0xfe80, 1, [⟨pAccM, 1, 0, 8, 0x0100⟩], true, false, false, false, true⟩,
  ⟨"LSRNRX", 0x3480, 0xfc80, 1, [⟨pAcc, 1, 0, 8, 0x0100⟩, ⟨pReg1A, 1, 0, 9, 0x0200⟩],
    true, false, false, false, true⟩,
  ⟨"ASRNRX", 0x3880, 0xfc80, 1, [⟨pAcc, 1, 0, 8, 0x0100⟩, ⟨pReg1A, 1, 0, 9, 0x0200⟩],
    true, false, false, false, true⟩,
  ⟨"LSRNR", 0x3c80, 0xfe80, 1, [⟨pAcc, 1, 0, 8, 0x0100⟩, ⟨pAccMD, 1, 0, 8, 0x0100⟩],
    true, false, false, false, true⟩,
  ⟨"ASRNR", 0x3e80, 0xfe80, 1, [⟨pAcc, 1, 0, 8, 0x0100⟩, ⟨pAccMD, 1, 0, 8, 0x0100⟩],
    true, false, false, false, true⟩,
  ⟨"ADDR", 0x4000, 0xf800, 1, [⟨pAcc, 1, 0, 8, 0x0100⟩, ⟨pReg18, 1, 0, 9, 0x0600⟩],
    true, false, false, false, true⟩,
  ⟨"ADDAX", 0x4800, 0xfc00, 1, [⟨pAcc, 1, 0, 8, 0x0100⟩, ⟨pAx, 1, 0, 9, 0x0200⟩],
    true, false, false, false, true⟩,
  ⟨"ADD", 0x4c00, 0xfe00, 1, [⟨pAcc, 1, 0, 8, 0x0100⟩, ⟨pAccD, 1, 0, 8, 0x0100⟩],
    true, false, false, false, true⟩,
  ⟨"ADDP", 0x4e00, 0xfe00, 1, [⟨pAcc, 1, 0, 8, 0x0100⟩], true, false, false, false, true⟩,
  ⟨"SUBR", 0x5000, 0xf800, 1, [⟨pAcc, 1, 0, 8, 0x0100⟩, ⟨pReg18, 1, 0, 9, 0x0600⟩],
    true, false, false, false, true⟩,
  ⟨"SUBAX", 0x5800, 0xfc00, 1, [⟨pAcc, 1, 0, 8, 0x0100⟩, ⟨pAx, 1, 0, 9, 0x0200⟩],
    true, false, false, false, true⟩,
  ⟨"SUB", 0x5c00, 0xfe00, 1, [⟨pAcc, 1, 0, 8, 0x0100⟩, ⟨pAccD, 1, 0, 8, 0x0100⟩],
    true, false, false, false, true⟩,
  ⟨"SUBP", 0x5e00, 0xfe00, 1, [⟨pAcc, 1, 0, 8, 0x0100⟩], true, false, false, false, true⟩,
  ⟨"MOVR", 0x6000, 0xf800, 1, [⟨pAcc, 1, 0, 8, 0x0100⟩, ⟨pReg18, 1, 0, 9, 0x0600⟩],
    true, false, false, false, true⟩,
  ⟨"MOVAX", 0x6800, 0xfc00, 1, [⟨pAcc, 1, 0, 8, 0x0100⟩, ⟨pAx, 1, 0, 9, 0x0200⟩],
    true, false, false, false, true⟩,
  ⟨"MOV", 0x6c00, 0xfe00, 1, [⟨pAcc, 1, 0, 8, 0x0100⟩, ⟨pAccD, 1, 0, 8, 0x0100⟩],
    true, false, false, false, true⟩,
  ⟨"MOVP", 0x6e00, 0xfe00, 1, [⟨pAcc, 1, 0, 8, 0x0100⟩], true, false, false, false, true⟩,
  ⟨"ADDAXL", 0x7000, 0xfc00, 1, [⟨pAcc, 1, 0, 8, 0x0100⟩, ⟨pReg18, 1, 0, 9, 0x0200⟩],
    true, false, false, false, true⟩,
  ⟨"INCM", 0x7400, 0xfe00, 1, [⟨pAccM, 1, 0, 8, 0x0100⟩], true, false, false, false, true⟩,
  ⟨"INC", 0x7600, 0xfe00, 1, [⟨pAcc, 1, 0, 8, 0x0100⟩], true, false, false, false, true⟩,
  ⟨"DECM", 0x7800, 0xfe00, 1, [⟨pAccM, 1, 0, 8, 0x0100⟩], true, false, false, false, true⟩,
  ⟨"DEC", 0x7a00, 0xfe00, 1, [⟨pAcc, 1, 0, 8, 0x0100⟩], true, false, false, false, true⟩,
  ⟨"NEG", 0x7c00, 0xfe00, 1, [⟨pAcc, 1, 0, 8, 0x0100⟩], true, false, false, false, true⟩,
  ⟨"MOVNP", 0x7e00, 0xfe00, 1, [⟨pAcc, 1, 0, 8, 0x0100⟩], true, false, false, false, true⟩,
  ⟨"NX", 0x8000, 0xf700, 1, [], true, false, false, false, false⟩,
  ⟨"CLR", 0x8100, 0xf700, 1, [⟨pAcc, 1, 0, 11, 0x0800⟩], true, false, false, false, true⟩,
  ⟨"CMP", 0x8200, 0xff00, 1, [], true, false, false, false, true⟩,
  ⟨"MULAXH", 0x8300, 0xff00, 1, [], true, false, false, false, true⟩,
  ⟨"CLRP", 0x8400, 0xff00, 1, [], true, false, false, false, true⟩,
  ⟨"TSTPROD", 0x8500, 0xff00, 1, [], true, false, false, false, true⟩,
  ⟨"TSTAXH", 0x8600, 0xfe00, 1, [⟨pReg1A, 1, 0, 8, 0x0100⟩], true, false, false, false, true⟩,
  ⟨"M2", 0x8a00, 0xff00, 1, [], true, false, false, false, false⟩,
  ⟨"M0", 0x8b00, 0xff00, 1, [], true, false, false, false, false⟩,
  ⟨"CLR15", 0x8c00, 0xff00, 1, [], true, false, false, false, false⟩,
  ⟨"SET15", 0x8d00, 0xff00, 1, [], true, false, false, false, false⟩,
  ⟨"SET16", 0x8e00, 0xff00, 1, [], true, false, false, false, false⟩,
  ⟨"SET40", 0x8f00, 0xff00, 1, [], true, false, false, false, false⟩,
  ⟨"MUL", 0x9000, 0xf700, 1, [⟨pReg18, 1, 0, 11, 0x0800⟩, ⟨pReg1A, 1, 0, 11, 0x0800⟩],
    true, false, false, false, true⟩,
  ⟨"ASR16", 0x9100, 0xf700, 1, [⟨pAcc, 1, 0, 11, 0x0800⟩], true, false, false, false, true⟩,
  ⟨"MULMVZ", 0x9200, 0xf600, 1, [⟨pReg18, 1, 0, 11, 0x0800⟩, ⟨pReg1A, 1, 0, 11, 0x0800⟩, ⟨pAcc, 1, 0, 8, 0x0100⟩],
    true, false, false, false, true⟩,
  ⟨"MULAC", 0x9400, 0xf600, 1, [⟨pReg18, 1, 0, 11, 0x0800⟩, ⟨pReg1A, 1, 0, 11, 0x0800⟩, ⟨pAcc, 1, 0, 8, 0x0100⟩],
    true, false, false, false, true⟩,
  ⟨"MULMV", 0x9600, 0xf600, 1, [⟨pReg18, 1, 0, 11, 0x0800⟩, ⟨pReg1A, 1, 0, 11, 0x0800⟩, ⟨pAcc, 1, 0, 8, 0x0100⟩],
    true, false, false, false, true⟩,
  ⟨"MULX", 0xa000, 0xe700, 1, [⟨pRegM18, 1, 0, 11, 0x1000⟩, ⟨pRegM19, 1, 0, 10, 0x0800⟩],
    true, false, false, false, true⟩,
  ⟨"ABS", 0xa100, 0xf700, 1, [⟨pAcc, 1, 0, 11, 0x0800⟩], true, false, false, false, true⟩,
  ⟨"MULXMVZ", 0xa200, 0xe600, 1, [⟨pRegM18, 1, 0, 11, 0x1000⟩, ⟨pRegM19, 1, 0, 10, 0x0800⟩, ⟨pAcc, 1, 0, 8, 0x0100⟩],
    true, false, false, false, true⟩,
  ⟨"MULXAC", 0xa400, 0xe600, 1, [⟨pRegM18, 1, 0, 11, 0x1000⟩, ⟨pRegM19, 1, 0, 10, 0x0800⟩, ⟨pAcc, 1, 0, 8, 0x0100⟩],
    true, false, false, false, true⟩,
  ⟨"MULXMV", 0xa600, 0xe600, 1, [⟨pRegM18, 1, 0, 11, 0x1000⟩, ⟨pRegM19, 1, 0, 10, 0x0800⟩, ⟨pAcc, 1, 0, 8, 0x0100⟩],
    true, false, false, false, true⟩,
  ⟨"TST", 0xb100, 0xf700, 1, [⟨pAcc, 1, 0, 11, 0x0800⟩], true, false, false, false, true⟩,
  ⟨"MULC", 0xc000, 0xe700, 1, [⟨pAccM, 1, 0, 12, 0x1000⟩, ⟨pReg1A, 1, 0, 11, 0x0800⟩],
    true, false, false, false, true⟩,
  ⟨"CMPAXH", 0xc100, 0xe700, 1, [⟨pAcc, 1, 0, 11, 0x0800⟩, ⟨pReg1A, 1, 0, 12, 0x1000⟩],
    true, false, false, false, true⟩,
  ⟨"MULCMVZ", 0xc200, 0xe600, 1, [⟨pAccM, 1, 0, 12, 0x1000⟩, ⟨pReg1A, 1, 0, 11, 0x0800⟩, ⟨pAcc, 1, 0, 8, 0x0100⟩],
    true, false, false, false, true⟩,
  ⟨"MULCAC", 0xc400, 0xe600, 1, [⟨pAccM, 1, 0, 12, 0x1000⟩, ⟨pReg1A, 1, 0, 11, 0x0800⟩, ⟨pAcc, 1, 0, 8, 0x0100⟩],
    true, false, false, false, true⟩,
  ⟨"MULCMV", 0xc600, 0xe600, 1, [⟨pAccM, 1, 0, 12, 0x1000⟩, ⟨pReg1A, 1, 0, 11, 0x0800⟩, ⟨pAcc, 1, 0, 8, 0x0100⟩],
    true, false, false, false, true⟩,
  ⟨"MADDX", 0xe000, 0xfc00, 1, [⟨pRegM18, 1, 0, 8, 0x0200⟩, ⟨pRegM19, 1, 0, 7, 0x0100⟩],
    true, false, false, false, true⟩,
  ⟨"MSUBX", 0xe400, 0xfc00, 1, [⟨pRegM18, 1, 0, 8, 0x0200⟩, ⟨pRegM19, 1, 0, 7, 0x0100⟩],
    true, false, false, false, true⟩,
  ⟨"MADDC", 0xe800, 0xfc00, 1, [⟨pAccM, 1, 0, 9, 0x0200⟩, ⟨pReg19, 1, 0, 7, 0x0100⟩],
    true, false, false, false, true⟩,
  ⟨"MSUBC", 0xec00, 0xfc00, 1, [⟨pAccM, 1, 0, 9, 0x0200⟩, ⟨pReg19, 1, 0, 7, 0x0100⟩],
    true, false, false, false, true⟩,
  ⟨"LSL16", 0xf000, 0xfe00, 1, [⟨pAcc, 1, 0, 8, 0x0100⟩], true, false, false, false, true⟩,
  ⟨"MADD", 0xf200, 0xfe00, 1, [⟨pReg18, 1, 0, 8, 0x0100⟩, ⟨pReg1A, 1, 0, 8, 0x0100⟩],
    true, false, false, false, true⟩,
  ⟨"LSR16", 0xf400, 0xfe00, 1, [⟨pAcc, 1, 0, 8, 0x0100⟩], true, false, false, false, true⟩,
  ⟨"MSUB", 0xf600, 0xfe00, 1, [⟨pReg18, 1, 0, 8, 0x0100⟩, ⟨pReg1A, 1, 0, 8, 0x0100⟩],
    true, false, false, false, true⟩,
  ⟨"ADDPAXZ", 0xf800, 0xfc00, 1, [⟨pAcc, 1, 0, 9, 0x0200⟩, ⟨pAx, 1, 0, 8, 0x0100⟩],
    true, false, false, false, true⟩,
  ⟨"CLRL", 0xfc00, 0xfe00, 1, [⟨pAccL, 1, 0, 11, 0x0800⟩], true, false, false, false, true⟩,
  ⟨"MOVPZ", 0xfe00, 0xfe00, 1, [⟨pAcc, 1, 0, 8, 0x0100⟩], true, false, false, false, true⟩]

/-- The entry of a word that no other entry has. -/
def cw : DSPOPCTemplate := ⟨"CW", 0x0000, 0x0000, 1, [⟨pVal, 2, 0, 0, 0xffff⟩], false, false, false, false, false⟩

/-- `s_opcodes_ext` -/
def opcodesExt : List DSPOPCTemplate := [
  ⟨"XXX", 0x0000, 0x00fc, 1, [⟨pVal, 1, 0, 0, 0x00ff⟩], false, false, false, false, false⟩,
  ⟨"DR", 0x0004, 0x00fc, 1, [⟨pReg, 1, 0, 0, 0x0003⟩], false, false, false, false, false⟩,
  ⟨"IR", 0x0008, 0x00fc, 1, [⟨pReg, 1, 0, 0, 0x0003⟩], false, false, false, false, false⟩,
  ⟨"NR", 0x000c, 0x00fc, 1, [⟨pReg, 1, 0, 0, 0x0003⟩], false, false, false, false, false⟩,
  ⟨"MV", 0x0010, 0x00f0, 1, [⟨pReg18, 1, 0, 2, 0x000c⟩, ⟨pReg1C, 1, 0, 0, 0x0003⟩],
    false, false, false, false, false⟩,
  ⟨"S", 0x0020, 0x00e4, 1, [⟨pPrg, 1, 0, 0, 0x0003⟩, ⟨pReg1C, 1, 0, 3, 0x0018⟩],
    false, false, false, false, false⟩,
  ⟨"SN", 0x0024, 0x00e4, 1, [⟨pPrg, 1, 0, 0, 0x0003⟩, ⟨pReg1C, 1, 0, 3, 0x0018⟩],
    false, false, false, false, false⟩,
  ⟨"L", 0x0040, 0x00c4, 1, [⟨pReg18, 1, 0, 3, 0x0038⟩, ⟨pPrg, 1, 0, 0, 0x0003⟩],
    false, false, false, false, false⟩,
  ⟨"LN", 0x0044, 0x00c4, 1, [⟨pReg18, 1, 0, 3, 0x0038⟩, ⟨pPrg, 1, 0, 0, 0x0003⟩],
    false, false, false, false, false⟩,
  ⟨"LS", 0x0080, 0x00ce, 1, [⟨pReg18, 1, 0, 4, 0x0030⟩, ⟨pAccM, 1, 0, 0, 0x0001⟩],
    false, false, false, false, false⟩,
  ⟨"SL", 0x0082, 0x00ce, 1, [⟨pAccM, 1, 0, 0, 0x0001⟩, ⟨pReg18, 1, 0, 4, 0x0030⟩],
    false, false, false, false, false⟩,
  ⟨"LSN", 0x0084, 0x00ce, 1, [⟨pReg18, 1, 0, 4, 0x0030⟩, ⟨pAccM, 1, 0, 0, 0x0001⟩],
    false, false, false, false, false⟩,
  ⟨"SLN", 0x0086, 0x00ce, 1, [⟨pAccM, 1, 0, 0, 0x0001⟩, ⟨pReg18, 1, 0, 4, 0x0030⟩],
    false, false, false, false, false⟩,
  ⟨"LSM", 0x0088, 0x00ce, 1, [⟨pReg18, 1, 0, 4, 0x0030⟩, ⟨pAccM, 1, 0, 0, 0x0001⟩],
    false, false, false, false, false⟩,
  ⟨"SLM", 0x008a, 0x00ce, 1, [⟨pAccM, 1, 0, 0, 0x0001⟩, ⟨pReg18, 1, 0, 4, 0x0030⟩],
    false, false, false, false, false⟩,
  ⟨"LSNM", 0x008c, 0x00ce, 1, [⟨pReg18, 1, 0, 4, 0x0030⟩, ⟨pAccM, 1, 0, 0, 0x0001⟩],
    false, false, false, false, false⟩,
  ⟨"SLNM", 0x008e, 0x00ce, 1, [⟨pAccM, 1, 0, 0, 0x0001⟩, ⟨pReg18, 1, 0, 4, 0x0030⟩],
    false, false, false, false, false⟩,
  ⟨"LDAX", 0x00c3, 0x00cf, 1, [⟨pAx, 1, 0, 4, 0x0010⟩, ⟨pPrg, 1, 0, 5, 0x0020⟩],
    false, false, false, false, false⟩,
  ⟨"LDAXN", 0x00c7, 0x00cf, 1, [⟨pAx, 1, 0, 4, 0x0010⟩, ⟨pPrg, 1, 0, 5, 0x0020⟩],
    false, false, false, false, false⟩,
  ⟨"LDAXM", 0x00cb, 0x00cf, 1, [⟨pAx, 1, 0, 4, 0x0010⟩, ⟨pPrg, 1, 0, 5, 0x0020⟩],
    false, false, false, false, false⟩,
  ⟨"LDAXNM", 0x00cf, 0x00cf, 1, [⟨pAx, 1, 0, 4, 0x0010⟩, ⟨pPrg, 1, 0, 5, 0x0020⟩],
    false, false, false, false, false⟩,
  ⟨"LD", 0x00c0, 0x00cc, 1, [⟨pRegM18, 1, 0, 4, 0x0020⟩, ⟨pRegM19, 1, 0, 3, 0x0010⟩, ⟨pPrg, 1, 0, 0, 0x0003⟩],
    false, false, false, false, false⟩,
  ⟨"LDN", 0x00c4, 0x00cc, 1, [⟨pRegM18, 1, 0, 4, 0x0020⟩, ⟨pRegM19, 1, 0, 3, 0x0010⟩, ⟨pPrg, 1, 0, 0, 0x0003⟩],
    false, false, false, false, false⟩,
  ⟨"LDM", 0x00c8, 0x00cc, 1, [⟨pRegM18, 1, 0, 4, 0x0020⟩, ⟨pRegM19, 1, 0, 3, 0x0010⟩, ⟨pPrg, 1, 0, 0, 0x0003⟩],
    false, false, false, false, false⟩,
  ⟨"LDNM", 0x00cc, 0x00cc, 1, [⟨pRegM18, 1, 0, 4, 0x0020⟩, ⟨pRegM19, 1, 0, 3, 0x0010⟩, ⟨pPrg, 1, 0, 0, 0x0003⟩],
    false, false, false, false, false⟩]

/-! ## Lookups -/

def findOpInfoByOpcode (inst : Word) : Option DSPOPCTemplate := opcodes.find? (·.Matches inst)

def findExtOpInfoByOpcode (inst : Word) : Option DSPOPCTemplate := opcodesExt.find? (·.Matches inst)

def getOpTemplate (inst : Word) : DSPOPCTemplate := (findOpInfoByOpcode inst).getD cw

/-- The opcodes from `0x3000` to `0x3fff` have an extension of seven bits. -/
def extensionBits (inst : Word) : Word :=
  if inst >>> 12 = 0x3 then inst &&& 0x7F else inst &&& 0xFF

end DSP
