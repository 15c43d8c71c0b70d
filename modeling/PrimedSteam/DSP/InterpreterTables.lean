import PrimedSteam.DSP.Tables

/-!
# The interpreter's own decoding

The tables of `DSPIntTables.cpp`, and for each function of the interpreter which registers it takes from
the bits of its opcode.
-/

set_option autoImplicit false

namespace DSP

/-! ## Tables -/

/-- The functions of the interpreter. -/
inductive Handler where
  | nop | dar | iar | subarn | addarn | halt | ret | rti | call | ifcc | jcc | jmprcc | callr | sbclr
  | sbset | lsl | lsr | asl | asr | lsrn | asrn | lri | lr | sr | mrr | si | addis | cmpis | lris
  | addi | xori | andi | ori | cmpi | andf | andcf | ilrr | ilrrd | ilrri | ilrrn | loop | bloop
  | loopi | bloopi | lrr | lrrd | lrri | lrrn | srr | srrd | srri | srrn | lrs | srsh | srs | xorr
  | andr | orr | andc | orc | xorc | notc | lsrnrx | asrnrx | lsrnr | asrnr | addr | addax | add
  | addp | subr | subax | sub | subp | movr | movax | mov | movp | addaxl | incm | inc | decm | dec
  | neg | movnp | nx | clr | cmp | mulaxh | clrp | tstprod | tstaxh | srbith | mul | asr16 | mulmvz
  | mulac | mulmv | mulx | abs | mulxmvz | mulxac | mulxmv | tst | mulc | cmpaxh | mulcmvz | mulcac
  | mulcmv | maddx | msubx | maddc | msubc | lsl16 | madd | lsr16 | msub | addpaxz | clrl | movpz
  | nopExt | dr | ir | nr | mv | s | sn | l | ln | ls | sl | lsn | sln | lsm | slm | lsnm | slnm
  | ldax | ldaxn | ldaxm | ldaxnm | ld | ldn | ldm | ldnm
  deriving DecidableEq

structure InterpreterOpInfo where
  opcode : Word
  opcodeMask : Word
  function : Handler

/-- The test of `FindByOpcode`. -/
def InterpreterOpInfo.Matches (e : InterpreterOpInfo) (inst : Word) : Bool :=
  inst &&& e.opcodeMask == e.opcode

/-- `s_opcodes` of the interpreter -/
def interpreterOpcodes : List InterpreterOpInfo := [
  ⟨0x0000, 0xfffc, .nop⟩, ⟨0x0004, 0xfffc, .dar⟩, ⟨0x0008, 0xfffc, .iar⟩, ⟨0x000c, 0xfffc, .subarn⟩,
  ⟨0x0010, 0xfff0, .addarn⟩, ⟨0x0021, 0xffff, .halt⟩, ⟨0x02d0, 0xfff0, .ret⟩, ⟨0x02f0, 0xfff0, .rti⟩,
  ⟨0x02b0, 0xfff0, .call⟩, ⟨0x0270, 0xfff0, .ifcc⟩, ⟨0x0290, 0xfff0, .jcc⟩,
  ⟨0x1700, 0xff10, .jmprcc⟩, ⟨0x1710, 0xff10, .callr⟩, ⟨0x1200, 0xff00, .sbclr⟩,
  ⟨0x1300, 0xff00, .sbset⟩, ⟨0x1400, 0xfec0, .lsl⟩, ⟨0x1440, 0xfec0, .lsr⟩, ⟨0x1480, 0xfec0, .asl⟩,
  ⟨0x14c0, 0xfec0, .asr⟩, ⟨0x02ca, 0xffff, .lsrn⟩, ⟨0x02cb, 0xffff, .asrn⟩, ⟨0x0080, 0xffe0, .lri⟩,
  ⟨0x00c0, 0xffe0, .lr⟩, ⟨0x00e0, 0xffe0, .sr⟩, ⟨0x1c00, 0xfc00, .mrr⟩, ⟨0x1600, 0xff00, .si⟩,
  ⟨0x0400, 0xfe00, .addis⟩, ⟨0x0600, 0xfe00, .cmpis⟩, ⟨0x0800, 0xf800, .lris⟩,
  ⟨0x0200, 0xfeff, .addi⟩, ⟨0x0220, 0xfeff, .xori⟩, ⟨0x0240, 0xfeff, .andi⟩, ⟨0x0260, 0xfeff, .ori⟩,
  ⟨0x0280, 0xfeff, .cmpi⟩, ⟨0x02a0, 0xfeff, .andf⟩, ⟨0x02c0, 0xfeff, .andcf⟩,
  ⟨0x0210, 0xfefc, .ilrr⟩, ⟨0x0214, 0xfefc, .ilrrd⟩, ⟨0x0218, 0xfefc, .ilrri⟩,
  ⟨0x021c, 0xfefc, .ilrrn⟩, ⟨0x0040, 0xffe0, .loop⟩, ⟨0x0060, 0xffe0, .bloop⟩,
  ⟨0x1000, 0xff00, .loopi⟩, ⟨0x1100, 0xff00, .bloopi⟩, ⟨0x1800, 0xff80, .lrr⟩,
  ⟨0x1880, 0xff80, .lrrd⟩, ⟨0x1900, 0xff80, .lrri⟩, ⟨0x1980, 0xff80, .lrrn⟩, ⟨0x1a00, 0xff80, .srr⟩,
  ⟨0x1a80, 0xff80, .srrd⟩, ⟨0x1b00, 0xff80, .srri⟩, ⟨0x1b80, 0xff80, .srrn⟩, ⟨0x2000, 0xf800, .lrs⟩,
  ⟨0x2800, 0xfe00, .srsh⟩, ⟨0x2c00, 0xfc00, .srs⟩, ⟨0x3000, 0xfc80, .xorr⟩, ⟨0x3400, 0xfc80, .andr⟩,
  ⟨0x3800, 0xfc80, .orr⟩, ⟨0x3c00, 0xfe80, .andc⟩, ⟨0x3e00, 0xfe80, .orc⟩, ⟨0x3080, 0xfe80, .xorc⟩,
  ⟨0x3280, 0xfe80, .notc⟩, ⟨0x3480, 0xfc80, .lsrnrx⟩, ⟨0x3880, 0xfc80, .asrnrx⟩,
  ⟨0x3c80, 0xfe80, .lsrnr⟩, ⟨0x3e80, 0xfe80, .asrnr⟩, ⟨0x4000, 0xf800, .addr⟩,
  ⟨0x4800, 0xfc00, .addax⟩, ⟨0x4c00, 0xfe00, .add⟩, ⟨0x4e00, 0xfe00, .addp⟩, ⟨0x5000, 0xf800, .subr⟩,
  ⟨0x5800, 0xfc00, .subax⟩, ⟨0x5c00, 0xfe00, .sub⟩, ⟨0x5e00, 0xfe00, .subp⟩, ⟨0x6000, 0xf800, .movr⟩,
  ⟨0x6800, 0xfc00, .movax⟩, ⟨0x6c00, 0xfe00, .mov⟩, ⟨0x6e00, 0xfe00, .movp⟩,
  ⟨0x7000, 0xfc00, .addaxl⟩, ⟨0x7400, 0xfe00, .incm⟩, ⟨0x7600, 0xfe00, .inc⟩,
  ⟨0x7800, 0xfe00, .decm⟩, ⟨0x7a00, 0xfe00, .dec⟩, ⟨0x7c00, 0xfe00, .neg⟩, ⟨0x7e00, 0xfe00, .movnp⟩,
  ⟨0x8000, 0xf700, .nx⟩, ⟨0x8100, 0xf700, .clr⟩, ⟨0x8200, 0xff00, .cmp⟩, ⟨0x8300, 0xff00, .mulaxh⟩,
  ⟨0x8400, 0xff00, .clrp⟩, ⟨0x8500, 0xff00, .tstprod⟩, ⟨0x8600, 0xfe00, .tstaxh⟩,
  ⟨0x8a00, 0xff00, .srbith⟩, ⟨0x8b00, 0xff00, .srbith⟩, ⟨0x8c00, 0xff00, .srbith⟩,
  ⟨0x8d00, 0xff00, .srbith⟩, ⟨0x8e00, 0xff00, .srbith⟩, ⟨0x8f00, 0xff00, .srbith⟩,
  ⟨0x9000, 0xf700, .mul⟩, ⟨0x9100, 0xf700, .asr16⟩, ⟨0x9200, 0xf600, .mulmvz⟩,
  ⟨0x9400, 0xf600, .mulac⟩, ⟨0x9600, 0xf600, .mulmv⟩, ⟨0xa000, 0xe700, .mulx⟩,
  ⟨0xa100, 0xf700, .abs⟩, ⟨0xa200, 0xe600, .mulxmvz⟩, ⟨0xa400, 0xe600, .mulxac⟩,
  ⟨0xa600, 0xe600, .mulxmv⟩, ⟨0xb100, 0xf700, .tst⟩, ⟨0xc000, 0xe700, .mulc⟩,
  ⟨0xc100, 0xe700, .cmpaxh⟩, ⟨0xc200, 0xe600, .mulcmvz⟩, ⟨0xc400, 0xe600, .mulcac⟩,
  ⟨0xc600, 0xe600, .mulcmv⟩, ⟨0xe000, 0xfc00, .maddx⟩, ⟨0xe400, 0xfc00, .msubx⟩,
  ⟨0xe800, 0xfc00, .maddc⟩, ⟨0xec00, 0xfc00, .msubc⟩, ⟨0xf000, 0xfe00, .lsl16⟩,
  ⟨0xf200, 0xfe00, .madd⟩, ⟨0xf400, 0xfe00, .lsr16⟩, ⟨0xf600, 0xfe00, .msub⟩,
  ⟨0xf800, 0xfc00, .addpaxz⟩, ⟨0xfc00, 0xfe00, .clrl⟩, ⟨0xfe00, 0xfe00, .movpz⟩]

/-- `s_opcodes_ext` of the interpreter -/
def interpreterOpcodesExt : List InterpreterOpInfo := [
  ⟨0x0000, 0x00fc, .nopExt⟩, ⟨0x0004, 0x00fc, .dr⟩, ⟨0x0008, 0x00fc, .ir⟩, ⟨0x000c, 0x00fc, .nr⟩,
  ⟨0x0010, 0x00f0, .mv⟩, ⟨0x0020, 0x00e4, .s⟩, ⟨0x0024, 0x00e4, .sn⟩, ⟨0x0040, 0x00c4, .l⟩,
  ⟨0x0044, 0x00c4, .ln⟩, ⟨0x0080, 0x00ce, .ls⟩, ⟨0x0082, 0x00ce, .sl⟩, ⟨0x0084, 0x00ce, .lsn⟩,
  ⟨0x0086, 0x00ce, .sln⟩, ⟨0x0088, 0x00ce, .lsm⟩, ⟨0x008a, 0x00ce, .slm⟩, ⟨0x008c, 0x00ce, .lsnm⟩,
  ⟨0x008e, 0x00ce, .slnm⟩, ⟨0x00c3, 0x00cf, .ldax⟩, ⟨0x00c7, 0x00cf, .ldaxn⟩,
  ⟨0x00cb, 0x00cf, .ldaxm⟩, ⟨0x00cf, 0x00cf, .ldaxnm⟩, ⟨0x00c0, 0x00cc, .ld⟩, ⟨0x00c4, 0x00cc, .ldn⟩,
  ⟨0x00c8, 0x00cc, .ldm⟩, ⟨0x00cc, 0x00cc, .ldnm⟩]

/-- What a table has for a word. -/
def findFunction (entries : List InterpreterOpInfo) (inst : Word) : Handler :=
  ((entries.find? (·.Matches inst)).map (·.function)).getD .nop

def getOp (inst : Word) : Handler := findFunction interpreterOpcodes inst

def getExtOp (inst : Word) : Handler := findFunction interpreterOpcodesExt (extensionBits inst)

/-! ## Registers -/

/-- How a function picks a register: by a field of the opcode. -/
inductive Access where
  /-- `((opc >> shift) & mask) + base`, read or written by its number -/
  | reg (shift mask : ℕ) (base : Register)
  /-- `GetLongAcc(reg)` and `SetLongAcc(reg, ..)` -/
  | acc (shift : ℕ)
  /-- `GetLongAcc(1 - reg)` -/
  | otherAcc (shift : ℕ)
  /-- `ac[reg].m` -/
  | accMid (shift : ℕ)
  /-- `ac[1 - reg].m` -/
  | otherAccMid (shift : ℕ)
  /-- `GetAXLow(reg)` -/
  | axLow (shift : ℕ)
  /-- `GetAXHigh(reg)` -/
  | axHigh (shift : ℕ)
  /-- `GetLongACX(reg)`, or both halves of it -/
  | longAcx (shift : ℕ)
  /-- `(reg == 0) ? GetAXLow(n) : GetAXHigh(n)` -/
  | axLowOrHigh (shift n : ℕ)

namespace Access

def shift : Access → ℕ
  | reg shift _ _ | acc shift | otherAcc shift | accMid shift | otherAccMid shift | axLow shift
  | axHigh shift | longAcx shift | axLowOrHigh shift _ => shift

def mask : Access → ℕ
  | reg _ mask _ => mask
  | _ => 1

/-- The parts of a long accumulator. -/
def accParts (i : ℕ) : List Register := [regAcc0Full + i, regAcl0 + i, regAcm0 + i, regAch0 + i]

/-- The registers for a value of the field. -/
def registersAt (field : ℕ) : Access → List Register
  | reg _ _ base => [field + base]
  | acc _ => accParts field
  | otherAcc _ => accParts (1 - field)
  | accMid _ => [regAcm0 + field]
  | otherAccMid _ => [regAcm0 + (1 - field)]
  | axLow _ => [regAxl0 + field]
  | axHigh _ => [regAxh0 + field]
  | longAcx _ => [regAx0Full + field, regAxl0 + field, regAxh0 + field]
  | axLowOrHigh _ n => [if field = 0 then regAxl0 + n else regAxh0 + n]

def registers (a : Access) (opc : Word) : List Register :=
  a.registersAt ((opc.toNat >>> a.shift) &&& a.mask)

end Access

/-- The registers that a function takes from its opcode, in the order of its description. -/
def Handler.accesses : Handler → List Access
  | nop | halt | ret | rti | call | ifcc | jcc | sbclr | sbset | lsrn | asrn | si | loopi | bloopi | nx
  | cmp | mulaxh | clrp | tstprod | srbith | nopExt => []
  | dar | iar | subarn | dr | ir | nr => [.reg 0 0x3 regAr0]
  | addarn => [.reg 0 0x3 regAr0, .reg 2 0x3 regIx0]
  | jmprcc | callr => [.reg 5 0x7 0]
  | lri | lr | sr | loop | bloop => [.reg 0 0x1f 0]
  | mrr => [.reg 5 0x1f 0, .reg 0 0x1f 0]
  | lris => [.reg 8 0x7 regAxl0]
  | ilrr | ilrrd | ilrri | ilrrn => [.reg 8 0x1 regAcm0, .reg 0 0x3 regAr0]
  | lrr | lrrd | lrri | lrrn => [.reg 0 0x1f 0, .reg 5 0x3 regAr0]
  | srr | srrd | srri | srrn => [.reg 5 0x3 regAr0, .reg 0 0x1f 0]
  | lrs => [.reg 8 0x7 0x18]
  | srsh => [.reg 8 0x1 regAch0]
  | srs => [.reg 8 0x3 regAcl0]
  | lsl | lsr | asl | asr | addis | cmpis | addi | cmpi | addp | subp | movp | incm | inc | decm | dec
  | neg | movnp | lsl16 | lsr16 | movpz | clrl => [.acc 8]
  | clr | asr16 | abs | tst => [.acc 11]
  | xori | andi | ori | andf | andcf | notc => [.accMid 8]
  | xorr | andr | orr => [.accMid 8, .axHigh 9]
  | andc | orc | xorc => [.accMid 8, .otherAccMid 8]
  | lsrnrx | asrnrx => [.acc 8, .axHigh 9]
  | lsrnr | asrnr => [.acc 8, .otherAccMid 8]
  | addr | subr | movr => [.acc 8, .reg 9 0x3 regAxl0]
  | addax | subax | movax | addpaxz => [.acc 8, .longAcx 9]
  | add | sub | mov => [.acc 8, .otherAcc 8]
  | addaxl => [.acc 8, .axLow 9]
  | tstaxh => [.axHigh 8]
  | mul => [.axLow 11, .axHigh 11]
  | mulmvz | mulac | mulmv => [.axLow 11, .axHigh 11, .acc 8]
  | mulx => [.axLowOrHigh 12 0, .axLowOrHigh 11 1]
  | mulxmvz | mulxac | mulxmv => [.axLowOrHigh 12 0, .axLowOrHigh 11 1, .acc 8]
  | mulc => [.accMid 12, .axHigh 11]
  | cmpaxh => [.acc 11, .axHigh 12]
  | mulcmvz | mulcac | mulcmv => [.accMid 12, .axHigh 11, .acc 8]
  | maddx | msubx => [.axLowOrHigh 9 0, .axLowOrHigh 8 1]
  | maddc | msubc => [.accMid 9, .axHigh 8]
  | madd | msub => [.axLow 8, .axHigh 8]
  | mv => [.reg 2 0x3 regAxl0, .reg 0 0x3 regAcl0]
  | s | sn => [.reg 0 0x3 regAr0, .reg 3 0x3 regAcl0]
  | l | ln => [.reg 3 0x7 regAxl0, .reg 0 0x3 regAr0]
  | ls | lsn | lsm | lsnm => [.reg 4 0x3 regAxl0, .reg 0 0x1 regAcm0]
  | sl | sln | slm | slnm => [.reg 0 0x1 regAcm0, .reg 4 0x3 regAxl0]
  | ldax | ldaxn | ldaxm | ldaxnm => [.longAcx 4, .reg 5 0x1 regAr0]
  | ld | ldn | ldm | ldnm => [.axLowOrHigh 5 0, .axLowOrHigh 4 1, .reg 0 0x3 regAr0]

end DSP
