import PrimedSteam.DSP.Tables
import Mathlib.Logic.Function.Basic

/-!
# The analysis of DSP code

`analyze` marks the words of a program image: where instructions start, loops start and end, and exceptions are to be
checked, and what may be skipped. The analysis of which instructions must update the status register is switched off
in the source; `disableUpdateSrAnalysis` stands for that switch.

* `analyze_noUpdateSr`: no instruction is marked as one that must update.
-/

set_option autoImplicit false

namespace DSP

/-! ## Program images -/

structure Image where
  iram : BitVec 12 → Word
  irom : BitVec 12 → Word

/-- `ReadIMEM` -/
def Image.readImem (image : Image) (address : Word) : Word :=
  if address >>> 12 = 0 then image.iram (address.setWidth 12)
  else if address >>> 12 = 8 then image.irom (address.setWidth 12)
  else 0

def Image.template (image : Image) (address : Word) : DSPOPCTemplate :=
  getOpTemplate (image.readImem address)

/-! ## Analysis -/

/-- `DISABLE_UPDATE_SR_ANALYSIS` is defined. -/
def disableUpdateSrAnalysis : Bool := true

abbrev CodeFlags := BitVec 8

def codeStartOfInst : CodeFlags := 1
def codeIdleSkip : CodeFlags := 2
def codeLoopStart : CodeFlags := 4
def codeLoopEnd : CodeFlags := 8
def codeUpdateSr : CodeFlags := 16
def codeCheckExc : CodeFlags := 32

abbrev CodeMap := Word → CodeFlags

def mark (address : Word) (flag : CodeFlags) (flags : CodeMap) : CodeMap :=
  Function.update flags address (flags address ||| flag)

def idleSkipSigs : List (List Word) := [
  [0x26fc, 0x02c0, 0x8000, 0x029d, 0xFFFF, 0, 0],
  [0x27fc, 0x03c0, 0x8000, 0x029d, 0xFFFF, 0, 0],
  [0x26fe, 0x02c0, 0x8000, 0x029c, 0xFFFF, 0, 0],
  [0x27fe, 0x03c0, 0x8000, 0x029c, 0xFFFF, 0, 0],
  [0x26fc, 0x02a0, 0x8000, 0x029c, 0xFFFF, 0, 0],
  [0x27fc, 0x03a0, 0x8000, 0x029c, 0xFFFF, 0, 0],
  [0x00de, 0xFFFE, 0x02c0, 0x8000, 0x029c, 0xFFFF, 0],
  [0x00da, 0x0352, 0x8600, 0x0295, 0xFFFF, 0, 0]]

section

variable (image : Image)

/-- A signature is found when its first zero is reached. -/
def signatureFound : Word → List Word → Bool
  | _, [] => false
  | address, word :: words =>
    if word = 0 then true
    else if word = 0xFFFF then signatureFound (address + 1) words
    else if word ≠ image.readImem address then false
    else signatureFound (address + 1) words

def findIdleSkips (startAddr endAddr : Word) (flags : CodeMap) : CodeMap := fun address =>
  if startAddr ≤ address ∧ address < endAddr ∧ idleSkipSigs.any (signatureFound image address) = true then
    flags address ||| codeIdleSkip
  else flags address

def markLoops (address inst : Word) (flags : CodeMap) : CodeMap :=
  if inst &&& 0xffe0 = 0x0060 ∨ inst &&& 0xff00 = 0x1100 then
    mark (image.readImem (address + 1)) codeLoopEnd (mark address codeLoopStart flags)
  else if inst &&& 0xffe0 = 0x0040 ∨ inst &&& 0xff00 = 0x1000 then
    mark (address + 1) codeLoopEnd (mark address codeLoopStart flags)
  else flags

def raisesExceptions (opcode : DSPOPCTemplate) : Bool :=
  [0x00c0, 0x00e0, 0x1600, 0x1800, 0x1880, 0x1900, 0x1980, 0x1a00, 0x1a80, 0x1b00, 0x1b80, 0x2000, 0x2800,
    0x2c00].contains opcode.opcode || opcode.extended

/-- The marks of one instruction. The second component is `last_arithmetic`. -/
def markInst (address : Word) (s : CodeMap × Word) : CodeMap × Word :=
  let inst := image.readImem address
  let opcode := getOpTemplate inst
  let flags := markLoops image address inst (mark address codeStartOfInst s.1)
  let s :=
    if disableUpdateSrAnalysis then (flags, s.2)
    else
      let lastArithmetic := if opcode.updatesSr then address else s.2
      (if opcode.branch && !opcode.uncondBranch then mark lastArithmetic codeUpdateSr flags else flags,
        lastArithmetic)
  (if raisesExceptions opcode then mark (address + .ofNat 16 opcode.size) codeCheckExc s.1 else s.1, s.2)

/-- The loop of `FindInstructionStarts`: each iteration goes on by a word or more. -/
def sweep (endAddr : Word) : ℕ → Word → CodeMap × Word → CodeMap × Word
  | 0, _, s => s
  | fuel + 1, address, s =>
    if address < endAddr then
      sweep endAddr fuel (address + .ofNat 16 (image.template address).size) (markInst image address s)
    else s

def findInstructionStarts (startAddr endAddr : Word) (flags : CodeMap) : CodeMap :=
  (sweep image endAddr (endAddr.toNat - startAddr.toNat) startAddr (flags, 0)).1

def analyzeRange (startAddr endAddr : Word) (flags : CodeMap) : CodeMap :=
  findIdleSkips image startAddr endAddr (findInstructionStarts image startAddr endAddr flags)

def analyze : CodeMap :=
  analyzeRange image 0x8000 0x9000 (analyzeRange image 0x0000 0x1000 fun _ => 0)

end

/-! ## The marks of the analysis -/

/-- The flags have no mark of an update. -/
def NoUpdateSr (flags : CodeMap) : Prop := ∀ address, flags address &&& codeUpdateSr = 0

theorem NoUpdateSr.mark {flags : CodeMap} (h : NoUpdateSr flags) (address : Word) (flag : CodeFlags)
    (hflag : flag &&& codeUpdateSr = 0) : NoUpdateSr (mark address flag flags) := by
  intro a
  by_cases ha : a = address
  · subst ha
    have hold := h a
    simp only [DSP.mark, Function.update_self]
    rw [BitVec.and_or_distrib_right, hold, hflag]
    rfl
  · simp only [DSP.mark, Function.update_of_ne ha]
    exact h a

theorem NoUpdateSr.markInst {image : Image} {s : CodeMap × Word} (h : NoUpdateSr s.1) (address : Word) :
    NoUpdateSr (markInst image address s).1 := by
  have hstart := h.mark address codeStartOfInst (by decide)
  have hloops : NoUpdateSr (markLoops image address (image.readImem address)
      (DSP.mark address codeStartOfInst s.1)) := by
    unfold markLoops
    split
    · exact (hstart.mark _ _ (by decide)).mark _ _ (by decide)
    split
    · exact (hstart.mark _ _ (by decide)).mark _ _ (by decide)
    · exact hstart
  simp only [DSP.markInst, disableUpdateSrAnalysis, if_true]
  split
  · exact hloops.mark _ _ (by decide)
  · exact hloops

theorem NoUpdateSr.sweep {image : Image} {endAddr : Word} {fuel : ℕ} {address : Word}
    {s : CodeMap × Word} (h : NoUpdateSr s.1) :
    NoUpdateSr (sweep image endAddr fuel address s).1 := by
  induction fuel generalizing address s with
  | zero => exact h
  | succ fuel ih =>
    unfold DSP.sweep
    split
    · exact ih (h.markInst address)
    · exact h

theorem NoUpdateSr.analyzeRange {image : Image} {startAddr endAddr : Word} {flags : CodeMap}
    (h : NoUpdateSr flags) : NoUpdateSr (analyzeRange image startAddr endAddr flags) := by
  have hstarts : NoUpdateSr (findInstructionStarts image startAddr endAddr flags) :=
    NoUpdateSr.sweep (s := (flags, 0)) h
  intro a
  unfold DSP.analyzeRange findIdleSkips
  split
  · rw [BitVec.and_or_distrib_right, hstarts a]
    rfl
  · exact hstarts a

/-- **No mark of an update**, for any image. -/
theorem analyze_noUpdateSr (image : Image) : NoUpdateSr (analyze image) := by
  have hzero : NoUpdateSr fun _ => 0 := fun _ => (by decide : (0 : CodeFlags) &&& codeUpdateSr = 0)
  exact hzero.analyzeRange.analyzeRange

end DSP
