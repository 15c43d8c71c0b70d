import Mathlib.Logic.Function.Iterate
import PrimedSteam.DSP.Analyzer
import PrimedSteam.DSP.InterpreterTables

/-!
# Hardware loops of the DSP

`step` is one instruction of the interpreter: the loop instructions push three stack registers, and
`handleLoop` tests them at the words that the analysis marks. What straight-line instructions do to the
other registers is a parameter, and so are the instructions that programs here do not have.

* `Code`, `At`: well-nested programs, and the words that they take in memory.
* `Exact`: the runs of `step` that the loops should make.
* `EndsWell`: the blocks that are entered end with an instruction of one word.
-/

set_option autoImplicit false

namespace DSP

/-- The functions that fetch a second word. -/
def Handler.fetches : Handler → Bool
  | lri | lr | sr | si | addi | xori | andi | ori | cmpi | andf | andcf | call | jcc | bloop | bloopi =>
    true
  | _ => false

/-- The functions that set the program counter themselves. -/
def Handler.branches : Handler → Bool
  | halt | ret | rti | call | ifcc | jcc | jmprcc | callr | loop | loopi | bloop | bloopi => true
  | _ => false

namespace Interpreter

/-! ## States -/

inductive StackRegister where
  | call | data | loopAddress | loopCounter
  deriving DecidableEq

/-- The status register, and all that the instructions work on. -/
structure Regs (ρ : Type*) where
  sr : Word
  rest : ρ

structure SDSP (ρ : Type*) where
  pc : Word
  /-- `r.st` -/
  st : StackRegister → Word
  regStackPtrs : StackRegister → BitVec 5
  regStacks : StackRegister → BitVec 5 → Word
  exceptions : BitVec 8
  regs : Regs ρ

/-- The instructions that are not modelled. -/
structure Core (ρ : Type*) where
  /-- `OpReadRegister` of a register that is no stack -/
  readRegister : Register → Regs ρ → Word
  /-- A straight-line instruction, with its second word -/
  straight : Word → Word → Regs ρ → Regs ρ
  /-- Any other instruction -/
  other : Word → SDSP ρ → SDSP ρ

namespace SDSP

variable {ρ : Type*} (core : Core ρ) (image : Image) (s : SDSP ρ)

def storeStack (reg : StackRegister) (val : Word) : SDSP ρ :=
  { s with
    regStackPtrs := Function.update s.regStackPtrs reg (s.regStackPtrs reg + 1)
    regStacks := Function.update s.regStacks reg
      (Function.update (s.regStacks reg) (s.regStackPtrs reg + 1) (s.st reg))
    st := Function.update s.st reg val }

def popStack (reg : StackRegister) : Word × SDSP ρ :=
  (s.st reg,
    { s with
      st := Function.update s.st reg (s.regStacks reg (s.regStackPtrs reg))
      regStackPtrs := Function.update s.regStackPtrs reg (s.regStackPtrs reg - 1) })

def srIntEnable : Word := 0x0200
def srExtIntEnable : Word := 0x0800

def checkExceptions : SDSP ρ :=
  if s.exceptions = 0 then s
  else
    match [7, 6, 5, 4, 3, 2, 1].find? fun i =>
      s.exceptions.getLsbD i && (s.regs.sr &&& srIntEnable != 0 || i == 7) with
    | some i =>
      let s := (s.storeStack .call s.pc).storeStack .data s.regs.sr
      { s with
        pc := .ofNat 16 (i * 2)
        exceptions := s.exceptions &&& ~~~((1 : BitVec 8) <<< i)
        regs := { s.regs with sr := s.regs.sr &&& ~~~(if i = 7 then srExtIntEnable else srIntEnable) } }
    | none => s

def fetchInstruction : Word × SDSP ρ := (image.readImem s.pc, { s with pc := s.pc + 1 })

def skipInstruction : SDSP ρ := { s with pc := s.pc + .ofNat 16 (image.template s.pc).size }

end SDSP

/-! ## Instructions -/

def regSt0 : Register := 0x0c

/-- The stack of a register number. -/
def stackRegister (reg : Register) : Option StackRegister :=
  if reg = regSt0 then some .call
  else if reg = regSt0 + 1 then some .data
  else if reg = regSt0 + 2 then some .loopAddress
  else if reg = regSt0 + 3 then some .loopCounter
  else none

section

variable {ρ : Type*} (core : Core ρ) (image : Image)

/-- A read of a stack register pops its stack. -/
def opReadRegister (reg : Register) (s : SDSP ρ) : Word × SDSP ρ :=
  match stackRegister reg with
  | some stack => s.popStack stack
  | none => (core.readRegister reg s.regs, s)

def handleLoop (s : SDSP ρ) : SDSP ρ :=
  let rCallAddress := s.st .call
  let rLoopAddress := s.st .loopAddress
  if 0 < rLoopAddress ∧ 0 < s.st .loopCounter then
    if s.pc.toNat = rLoopAddress.toNat + 1 then
      let s := { s with st := Function.update s.st .loopCounter (s.st .loopCounter - 1) }
      if 0 < s.st .loopCounter then { s with pc := rCallAddress }
      else (((s.popStack .call).2.popStack .loopAddress).2.popStack .loopCounter).2
    else s
  else s

/-- The stacks of a loop that is entered. -/
def enterLoop (loopPc cnt : Word) (s : SDSP ρ) : SDSP ρ :=
  ((s.storeStack .call s.pc).storeStack .loopAddress loopPc).storeStack .loopCounter cnt

def loop (opc : Word) (s : SDSP ρ) : SDSP ρ :=
  let (cnt, s) := opReadRegister core (opc &&& 0x1f).toNat s
  let loopPc := s.pc
  if cnt ≠ 0 then enterLoop loopPc cnt s else s.skipInstruction image

def loopi (opc : Word) (s : SDSP ρ) : SDSP ρ :=
  let cnt := opc &&& 0xff
  let loopPc := s.pc
  if cnt ≠ 0 then enterLoop loopPc cnt s else s.skipInstruction image

def bloop (opc : Word) (s : SDSP ρ) : SDSP ρ :=
  let (cnt, s) := opReadRegister core (opc &&& 0x1f).toNat s
  let (loopPc, s) := s.fetchInstruction image
  if cnt ≠ 0 then enterLoop loopPc cnt s else { s with pc := loopPc }.skipInstruction image

def bloopi (opc : Word) (s : SDSP ρ) : SDSP ρ :=
  let cnt := opc &&& 0xff
  let (loopPc, s) := s.fetchInstruction image
  if cnt ≠ 0 then enterLoop loopPc cnt s else { s with pc := loopPc }.skipInstruction image

/-- The word names one of the stack registers. -/
def usesStack (opc : Word) : Bool :=
  (getOp opc).accesses.any fun a => (a.registers opc).any fun reg => (stackRegister reg).isSome

/-- An instruction of the tables that goes on to the next one and leaves the stacks alone. -/
def straightLine (opc : Word) : Bool :=
  (findOpInfoByOpcode opc).isSome && !(getOp opc).branches && !usesStack opc

def executeInstruction (opc : Word) (s : SDSP ρ) : SDSP ρ :=
  match getOp opc with
  | .loop => loop core image opc s
  | .loopi => loopi image opc s
  | .bloop => bloop core image opc s
  | .bloopi => bloopi image opc s
  | h =>
    if straightLine opc then
      let (operand, s) := if h.fetches then s.fetchInstruction image else (0, s)
      { s with regs := core.straight opc operand s.regs }
    else core.other opc s

def isLoopEnd (flags : CodeMap) (address : Word) : Bool := flags address &&& codeLoopEnd ≠ 0

/-- `Interpreter::Step` -/
def step (s : SDSP ρ) : SDSP ρ :=
  let (opc, s) := s.checkExceptions.fetchInstruction image
  let s := executeInstruction core image opc s
  if isLoopEnd (analyze image) (s.pc - 1) then handleLoop s else s

end

/-! ## Programs -/

/-- Straight-line code and blocks that are repeated. The body of a block ends with an instruction, so the
ends of nested blocks are different; a program may also stop after a block. -/
inductive Code where
  | stop
  | last (word operand : Word)
  | inst (word operand : Word) (rest : Code)
  | block (word : Word) (body rest : Code)

/-- `LOOP` and `LOOPI`, which repeat one instruction. -/
def isLoop (word : Word) : Bool := getOp word == .loop || getOp word == .loopi

/-- `BLOOP` and `BLOOPI`, which name the last instruction of the block. -/
def isBloop (word : Word) : Bool := getOp word == .bloop || getOp word == .bloopi

def wordSize (word : Word) : ℕ := (getOpTemplate word).size

/-- An address of the program. -/
def loc (a : ℕ) : Word := .ofNat 16 a

namespace Code

def size : Code → ℕ
  | stop => 0
  | last word _ => wordSize word
  | inst word _ rest => wordSize word + rest.size
  | block word body rest => wordSize word + body.size + rest.size

/-- The code ends with an instruction. -/
def closed : Code → Bool
  | stop => false
  | last _ _ => true
  | inst _ _ rest => rest.closed
  | block _ _ rest => rest.closed

/-- Where the last instruction starts. -/
def lastOffset : Code → ℕ
  | stop | last _ _ => 0
  | inst word _ rest => wordSize word + rest.lastOffset
  | block word body rest => wordSize word + body.size + rest.lastOffset

def lastSize : Code → ℕ
  | stop => 0
  | last word _ => wordSize word
  | inst _ _ rest => rest.lastSize
  | block _ _ rest => rest.lastSize

def isLast : Code → Bool
  | last _ _ => true
  | _ => false

/-- How many loops are nested. -/
def depth : Code → ℕ
  | stop | last _ _ => 0
  | inst _ _ rest => rest.depth
  | block _ body rest => max (body.depth + 1) rest.depth

end Code

/-- The program is in memory at an address. -/
def At (image : Image) : Code → ℕ → Prop
  | .stop, _ => True
  | .last word operand, a =>
    image.readImem (loc a) = word ∧ image.readImem (loc (a + 1)) = operand ∧ straightLine word = true
  | .inst word operand rest, a =>
    image.readImem (loc a) = word ∧ image.readImem (loc (a + 1)) = operand ∧ straightLine word = true ∧
      At image rest (a + wordSize word)
  | .block word body rest, a =>
    image.readImem (loc a) = word ∧ body.closed = true ∧
      ((isLoop word = true ∧ body.isLast = true) ∨ (isBloop word = true ∧
        image.readImem (loc (a + 1)) = loc (a + wordSize word + body.lastOffset))) ∧
      At image body (a + wordSize word) ∧ At image rest (a + wordSize word + body.size)

/-- The analysis comes to the address as the start of an instruction. -/
inductive Swept (image : Image) (startAddr endAddr : ℕ) : ℕ → Prop where
  | start : Swept image startAddr endAddr startAddr
  | next {a : ℕ} : Swept image startAddr endAddr a → a < endAddr →
      Swept image startAddr endAddr (a + wordSize (image.readImem (loc a)))

/-- The program is in the instruction RAM or ROM, and the analysis decodes it as it is. -/
def Analyzed (image : Image) (c : Code) (a : ℕ) : Prop :=
  (Swept image 0x0000 0x1000 a ∧ a + c.size ≤ 0x1000) ∨
    (Swept image 0x8000 0x9000 a ∧ a + c.size ≤ 0x9000)

section

variable {ρ : Type*} (core : Core ρ) (image : Image)

/-- The number of times that a block should be run. -/
def blockCount (word : Word) (s : SDSP ρ) : ℕ :=
  (if getOp word = .loop ∨ getOp word = .bloop then
    (opReadRegister core (word &&& 0x1f).toNat s).1 else word &&& 0xff).toNat

/-- The state after a program, a step for each instruction that should be run. -/
def after : Code → SDSP ρ → SDSP ρ
  | .stop, s => s
  | .last _ _, s => step core image s
  | .inst _ _ rest, s => after rest (step core image s)
  | .block word body rest, s =>
    after rest ((after body)^[blockCount core word s] (step core image s))

/-- The stacks are as before, but for the places above the top that were used. -/
structure Restored (used : ℕ) (s s' : SDSP ρ) : Prop where
  st : s'.st = s.st
  regStackPtrs : s'.regStackPtrs = s.regStackPtrs
  regStacks : ∀ reg place, (∀ k, 1 ≤ k → k ≤ used → place ≠ s.regStackPtrs reg + .ofNat 5 k) →
    s'.regStacks reg place = s.regStacks reg place

/-- From the address to the exit, each instruction goes on to the next one, and each block is run as
often as it should be, is left at the instruction that follows it and restores the stacks. -/
def Exact : Code → ℕ → ℕ → SDSP ρ → Prop
  | .stop, _, _, _ => True
  | .last _ _, _, exit, s => (step core image s).pc = loc exit
  | .inst word _ rest, a, exit, s =>
    (step core image s).pc = loc (a + wordSize word) ∧
      Exact rest (a + wordSize word) exit (step core image s)
  | .block word body rest, a, exit, s =>
    let start := a + wordSize word
    let next := start + body.size
    let count := blockCount core word s
    let s' := (after core image body)^[count] (step core image s)
    (∀ i < count, ((after core image body)^[i] (step core image s)).pc = loc start ∧
      Exact body start (if i + 1 < count then start else next)
        ((after core image body)^[i] (step core image s))) ∧
    s'.pc = loc next ∧ Restored (body.depth + 1) s s' ∧ Exact rest next exit s'

/-! ## What a program does -/

/-- The count of a block is read from a stack register. -/
def countsStack (word : Word) : Bool :=
  (getOp word == .loop || getOp word == .bloop) && (stackRegister (word &&& 0x1f).toNat).isSome

def countOf (word : Word) (r : Regs ρ) : ℕ :=
  (if getOp word = .loop ∨ getOp word = .bloop then core.readRegister (word &&& 0x1f).toNat r
    else word &&& 0xff).toNat

def operandOf (word operand : Word) : Word := if (getOp word).fetches then operand else 0

/-- What the registers should be after a program. -/
def meaning : Code → Regs ρ → Regs ρ
  | .stop, r => r
  | .last word operand, r => core.straight word (operandOf word operand) r
  | .inst word operand rest, r => meaning rest (core.straight word (operandOf word operand) r)
  | .block word body rest, r => meaning rest ((meaning body)^[countOf core word r] r)

/-- Each block that is entered ends with an instruction of one word, and no count is taken from a stack. -/
def EndsWell : Code → Regs ρ → Prop
  | .stop, _ | .last _ _, _ => True
  | .inst word operand rest, r => EndsWell rest (core.straight word (operandOf word operand) r)
  | .block word body rest, r =>
    countsStack word = false ∧ (countOf core word r ≠ 0 → body.lastSize = 1) ∧
      (∀ i < countOf core word r, EndsWell body ((meaning core body)^[i] r)) ∧
      EndsWell rest ((meaning core body)^[countOf core word r] r)

end

end Interpreter

end DSP
