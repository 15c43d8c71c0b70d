import PrimedSteam.DSP.InterpreterTables
import PrimedSteam.Lib.BitPattern

/-!
# Operands of DSP instructions

* `operandRegister`: the register that a parameter descriptor names for a word.
* `OperandsAgree`: each of them is the register that the function of the interpreter uses in that role.
* `Param.agreesWith`, `checkEntry`: what is compared once for each entry of the tables.
* **`operandsAgree_iff`**: the words for which the operands agree.
-/

set_option autoImplicit false

namespace DSP

/-! ## Descriptors -/

/-- The types of multiplication operands have a mark in the low byte, which is dropped. -/
def registerType (type : ParType) : ParType :=
  if type &&& 0xff = 0x10 then type &&& 0xff00 else type

/-- The register for a value of the bits of a parameter. -/
def registerName (type : ParType) (val : Word) : Option Register :=
  if registerType type &&& pReg ≠ 0 then
    some ((if registerType type = pAccD ∨ registerType type = pAccMD then ~~~val &&& 0x1 else val) |||
      ((registerType type &&& pRegsMask) >>> 8)).toNat
  else none

/-- `DisassembleParameters` -/
def operandRegister (op1 op2 : Word) (p : Param) : Option Register :=
  registerName p.type (((if 1 ≤ p.loc then op2 else op1) &&& p.mask) >>> p.lshift)

def operandRegisters (t : DSPOPCTemplate) (op1 op2 : Word) : List Register :=
  t.params.filterMap (operandRegister op1 op2)

/-- The named registers are those that the function uses, role by role. -/
def Agree (t : DSPOPCTemplate) (h : Handler) (op1 op2 : Word) : Prop :=
  List.Forall₂ (fun name registers => name ∈ registers) (operandRegisters t op1 op2)
    (h.accesses.map fun a => a.registers op1)

/-- Both halves of a word that the tables have. -/
structure OperandsAgree (op1 op2 : Word) : Prop where
  main : ∀ t, findOpInfoByOpcode op1 = some t → Agree t (getOp op1) op1 op2
  extension : ∀ t, (getOpTemplate op1).extended = true →
    findExtOpInfoByOpcode (extensionBits op1) = some t → Agree t (getExtOp op1) op1 op2

/-- `CLRL $ac0`, `ADDPAXZ` with different numbers, and `MADDC` and `MSUBC` with `$ax0.h`. -/
def misnamed : List (BitPattern 16) :=
  [⟨0xfc00, 0xff00⟩, ⟨0xf900, 0xff00⟩, ⟨0xfa00, 0xff00⟩, ⟨0xe800, 0xfd00⟩, ⟨0xec00, 0xfd00⟩]

def Misnamed (op1 : Word) : Prop := ∃ p ∈ misnamed, p.Matches op1 = true

/-! ## Fields -/

/-- Masking and shifting is a shifted field. -/
theorem and_shiftLeft_shiftRight (x mask shift double : ℕ) (hdouble : double ≤ shift) :
    (x &&& (mask <<< shift)) >>> (shift - double) = ((x >>> shift) &&& mask) <<< double := by
  apply Nat.eq_of_testBit_eq
  intro i
  simp only [Nat.testBit_shiftRight, Nat.testBit_and, Nat.testBit_shiftLeft]
  by_cases hi : double ≤ i
  · have hindex : shift - double + i = shift + (i - double) := by omega
    have hle : shift ≤ shift + (i - double) := Nat.le_add_right _ _
    simp [hindex, hi, hle]
  · have hlt : ¬ shift ≤ shift - double + i := by omega
    simp [hi, hlt]

/-- The descriptor and the function use the same bits, and for each value of them they agree. -/
def Param.agreesWith (p : Param) (a : Access) : Bool :=
  p.loc == 0 && p.mask.toNat == a.mask <<< a.shift && p.lshift ≤ a.shift &&
    (List.range (a.mask + 1)).all fun field =>
      (registerName p.type (.ofNat 16 (field <<< (a.shift - p.lshift)))).any
        ((a.registersAt field).contains ·)

theorem Param.agreesWith_sound {p : Param} {a : Access} (h : p.agreesWith a = true) (op1 op2 : Word) :
    ∃ name, operandRegister op1 op2 p = some name ∧ name ∈ a.registers op1 := by
  simp only [Param.agreesWith, Bool.and_eq_true, beq_iff_eq, decide_eq_true_iff, List.all_eq_true,
    List.mem_range] at h
  obtain ⟨⟨⟨hloc, hmask⟩, hshift⟩, hall⟩ := h
  have hfield : (op1.toNat >>> a.shift) &&& a.mask < a.mask + 1 := Nat.lt_succ_of_le Nat.and_le_right
  have hval : (op1 &&& p.mask) >>> p.lshift =
      .ofNat 16 (((op1.toNat >>> a.shift) &&& a.mask) <<< (a.shift - p.lshift)) := by
    have hbits := and_shiftLeft_shiftRight op1.toNat a.mask a.shift (a.shift - p.lshift) (Nat.sub_le _ _)
    rw [Nat.sub_sub_self hshift, ← hmask] at hbits
    rw [← hbits]
    apply BitVec.eq_of_toNat_eq
    have hlt : (op1.toNat &&& p.mask.toNat) >>> p.lshift < 2 ^ 16 :=
      lt_of_le_of_lt (Nat.shiftRight_le _ _) (lt_of_le_of_lt Nat.and_le_left op1.isLt)
    simp only [BitVec.toNat_ushiftRight, BitVec.toNat_and, BitVec.toNat_ofNat]
    exact (Nat.mod_eq_of_lt hlt).symm
  have hagree := hall _ hfield
  rw [Option.any_eq_true] at hagree
  obtain ⟨name, hname, hmem⟩ := hagree
  refine ⟨name, ?_, ?_⟩
  · unfold operandRegister
    rw [hloc, if_neg (by decide), hval]
    exact hname
  · unfold Access.registers
    simpa using hmem

/-! ## Entries -/

def Param.isRegister (p : Param) : Bool := registerType p.type &&& pReg ≠ 0

theorem operandRegister_eq_none {p : Param} (h : p.isRegister = false) (op1 op2 : Word) :
    operandRegister op1 op2 p = none := by
  unfold operandRegister registerName
  rw [if_neg]
  simpa [Param.isRegister] using h

/-- All register parameters agree with the accesses of the function. -/
def agreesAll : List Param → List Access → Bool
  | [], [] => true
  | [], _ :: _ => false
  | p :: ps, as =>
    if p.isRegister then
      match as with
      | a :: as => p.agreesWith a && agreesAll ps as
      | [] => false
    else agreesAll ps as

theorem agreesAll_sound {ps : List Param} {as : List Access} (h : agreesAll ps as = true)
    (op1 op2 : Word) :
    List.Forall₂ (fun name registers => name ∈ registers)
      (ps.filterMap (operandRegister op1 op2)) (as.map fun a => a.registers op1) := by
  induction ps generalizing as with
  | nil =>
    cases as with
    | nil => exact .nil
    | cons a as => cases h
  | cons p ps ih =>
    unfold agreesAll at h
    by_cases hregister : p.isRegister = true
    · rw [if_pos hregister] at h
      cases as with
      | nil => cases h
      | cons a as =>
        rw [Bool.and_eq_true] at h
        obtain ⟨name, hname, hmem⟩ := Param.agreesWith_sound h.1 op1 op2
        rw [List.filterMap_cons_some hname, List.map_cons]
        exact .cons hmem (ih h.2)
    · rw [if_neg hregister] at h
      have hnone := operandRegister_eq_none (by simpa using hregister) op1 op2
      rw [List.filterMap_cons_none hnone]
      exact ih h

def DSPOPCTemplate.pattern (t : DSPOPCTemplate) : BitPattern 16 := ⟨t.opcode, t.opcodeMask⟩

def InterpreterOpInfo.pattern (e : InterpreterOpInfo) : BitPattern 16 := ⟨e.opcode, e.opcodeMask⟩

/-- The function that a table of the interpreter has for all words of an entry. -/
def functionFor (entries : List InterpreterOpInfo) (t : DSPOPCTemplate) : Option Handler :=
  match entries.find? fun e => t.pattern.Compatible e.pattern with
  | some e => if e.pattern.Covers t.pattern then some e.function else none
  | none => none

theorem findFunction_of_functionFor {entries : List InterpreterOpInfo} {t : DSPOPCTemplate} {h : Handler}
    (hfor : functionFor entries t = some h) {inst : Word} (hmatches : t.Matches inst = true) :
    findFunction entries inst = h := by
  unfold functionFor at hfor
  split at hfor
  next e hfirst =>
    rw [Option.ite_none_right_eq_some] at hfor
    have hfind := BitPattern.find?_eq_of_covers (p := t.pattern)
      (show t.pattern.Matches inst = true from hmatches) hfirst hfor.1
    have hsame : entries.find? (·.Matches inst) = some e := hfind
    rw [findFunction, hsame]
    exact Option.some_inj.mp hfor.2
  · cases hfor

/-- The operands of an entry agree for all its words, and none of them is misnamed. -/
def checkEntry (t : DSPOPCTemplate) : Bool :=
  (functionFor interpreterOpcodes t).any fun h =>
    agreesAll t.params h.accesses && misnamed.all fun p => !t.pattern.Compatible p

theorem agree_of_checkEntry {t : DSPOPCTemplate} (hcheck : checkEntry t = true) {op1 : Word}
    (hmatches : t.Matches op1 = true) (op2 : Word) : Agree t (getOp op1) op1 op2 ∧ ¬ Misnamed op1 := by
  unfold checkEntry at hcheck
  rw [Option.any_eq_true] at hcheck
  obtain ⟨h, hfor, hagrees⟩ := hcheck
  rw [Bool.and_eq_true, List.all_eq_true] at hagrees
  refine ⟨?_, ?_⟩
  · rw [getOp, findFunction_of_functionFor hfor hmatches]
    exact agreesAll_sound hagrees.1 op1 op2
  · rintro ⟨p, hp, hmisnamed⟩
    have hnot := hagrees.2 p hp
    rw [BitPattern.compatible_of_matches (p := t.pattern) hmatches hmisnamed] at hnot
    cases hnot

/-! ## Entries with a wrong descriptor

All their register fields are in the high byte. -/

def highByte (op1 : Word) : Word := op1 &&& 0xff00

theorem operandRegister_highByte {p : Param} (hloc : p.loc = 0) (hmask : 0xff00 &&& p.mask = p.mask)
    (op1 op2 : Word) : operandRegister (highByte op1) 0 p = operandRegister op1 op2 p := by
  unfold operandRegister highByte
  rw [hloc, if_neg (by decide), if_neg (by decide), BitVec.and_assoc, hmask]

theorem registers_highByte {a : Access} (hmask : 0xff00 &&& (a.mask <<< a.shift) = a.mask <<< a.shift)
    (op1 : Word) : a.registers (highByte op1) = a.registers op1 := by
  have hfield := and_shiftLeft_shiftRight op1.toNat a.mask a.shift 0 (Nat.zero_le _)
  have hhigh := and_shiftLeft_shiftRight (highByte op1).toNat a.mask a.shift 0 (Nat.zero_le _)
  have htoNat : (highByte op1).toNat = op1.toNat &&& 0xff00 := BitVec.toNat_and ..
  rw [htoNat, Nat.and_assoc, hmask, hfield] at hhigh
  unfold Access.registers
  rw [htoNat]
  simp only [Nat.shiftLeft_zero] at hhigh
  rw [← hhigh]

def fieldsInHighByte (t : DSPOPCTemplate) (h : Handler) : Bool :=
  t.params.all (fun p => p.loc == 0 && 0xff00 &&& p.mask == p.mask) &&
    h.accesses.all fun a => 0xff00 &&& (a.mask <<< a.shift) == a.mask <<< a.shift

theorem agree_highByte {t : DSPOPCTemplate} {h : Handler} (hfields : fieldsInHighByte t h = true)
    (op1 op2 : Word) : Agree t h (highByte op1) 0 ↔ Agree t h op1 op2 := by
  simp only [fieldsInHighByte, Bool.and_eq_true, List.all_eq_true, beq_iff_eq] at hfields
  unfold Agree operandRegisters
  have hnames : ∀ ps : List Param, (∀ p ∈ ps, p.loc = 0 ∧ 0xff00 &&& p.mask = p.mask) →
      ps.filterMap (operandRegister (highByte op1) 0) = ps.filterMap (operandRegister op1 op2) := by
    intro ps hps
    exact List.filterMap_congr fun p hp => operandRegister_highByte (hps p hp).1 (hps p hp).2 op1 op2
  have haccesses : h.accesses.map (fun a => a.registers (highByte op1)) =
      h.accesses.map fun a => a.registers op1 :=
    List.map_congr_left fun a ha => registers_highByte (hfields.2 a ha) op1
  rw [hnames _ hfields.1, haccesses]

instance (t : DSPOPCTemplate) (h : Handler) (op1 op2 : Word) : Decidable (Agree t h op1 op2) :=
  inferInstanceAs (Decidable (List.Forall₂ _ _ _))

instance (op1 : Word) : Decidable (Misnamed op1) :=
  inferInstanceAs (Decidable (∃ p ∈ misnamed, p.Matches op1 = true))

/-- The operands agree exactly for the high bytes that are not misnamed. -/
def checkHighBytes (t : DSPOPCTemplate) : Bool :=
  (functionFor interpreterOpcodes t).any fun h =>
    fieldsInHighByte t h && 0xff00 &&& t.opcodeMask == t.opcodeMask &&
      (List.range 256).all fun high => !t.Matches (.ofNat 16 (high <<< 8)) ||
        decide (Agree t h (.ofNat 16 (high <<< 8)) 0) == !decide (Misnamed (.ofNat 16 (high <<< 8)))

theorem highByte_eq (op1 : Word) : highByte op1 = .ofNat 16 ((op1.toNat >>> 8) <<< 8) := by
  have hbits := and_shiftLeft_shiftRight op1.toNat 0xff 8 8 le_rfl
  have hfield : (op1.toNat >>> 8) &&& 0xff = op1.toNat >>> 8 := by
    have hlt := op1.isLt
    rw [Nat.shiftRight_eq_div_pow, Nat.and_two_pow_sub_one_eq_mod _ 8]
    exact Nat.mod_eq_of_lt (by omega)
  rw [hfield, Nat.sub_self, Nat.shiftRight_zero] at hbits
  rw [← hbits]
  apply BitVec.eq_of_toNat_eq
  rw [BitVec.toNat_ofNat]
  exact (Nat.mod_eq_of_lt (lt_of_le_of_lt Nat.and_le_left op1.isLt)).symm

theorem misnamed_highByte (op1 : Word) : Misnamed (highByte op1) ↔ Misnamed op1 := by
  have hmask : ∀ p ∈ misnamed, 0xff00 &&& p.mask = p.mask := by decide
  unfold Misnamed BitPattern.Matches highByte
  constructor <;> rintro ⟨p, hp, hmatches⟩ <;> refine ⟨p, hp, ?_⟩
  · rwa [BitVec.and_assoc, hmask p hp] at hmatches
  · rwa [BitVec.and_assoc, hmask p hp]

theorem agree_iff_of_checkHighBytes {t : DSPOPCTemplate} (hcheck : checkHighBytes t = true) {op1 : Word}
    (hmatches : t.Matches op1 = true) (op2 : Word) : Agree t (getOp op1) op1 op2 ↔ ¬ Misnamed op1 := by
  unfold checkHighBytes at hcheck
  rw [Option.any_eq_true] at hcheck
  obtain ⟨h, hfor, hchecked⟩ := hcheck
  simp only [Bool.and_eq_true, List.all_eq_true, beq_iff_eq] at hchecked
  obtain ⟨⟨hfields, hmask⟩, hall⟩ := hchecked
  have hhigh : op1.toNat >>> 8 ∈ List.range 256 := by
    have hlt := op1.isLt
    rw [List.mem_range, Nat.shiftRight_eq_div_pow]
    omega
  have hsame := hall _ hhigh
  rw [← highByte_eq] at hsame
  have hmatchesHigh : t.Matches (highByte op1) = true := by
    unfold DSPOPCTemplate.Matches highByte at *
    rwa [BitVec.and_assoc, hmask]
  rw [hmatchesHigh, Bool.not_true, Bool.false_or, beq_iff_eq] at hsame
  rw [getOp, findFunction_of_functionFor hfor hmatches, ← agree_highByte hfields, ← misnamed_highByte]
  by_cases hmis : Misnamed (highByte op1)
  · simpa [hmis] using hsame
  · simpa [hmis] using hsame

/-! ## The tables -/

theorem opcodes_checked : (opcodes.all fun t => checkEntry t || checkHighBytes t) = true := by
  decide +kernel

theorem agree_iff {op1 : Word} {t : DSPOPCTemplate} (h : findOpInfoByOpcode op1 = some t) (op2 : Word) :
    Agree t (getOp op1) op1 op2 ↔ ¬ Misnamed op1 := by
  have hmatches : t.Matches op1 = true := by
    unfold findOpInfoByOpcode at h
    simpa using List.find?_some h
  have hchecked := List.all_eq_true.mp opcodes_checked t (List.mem_of_find?_eq_some h)
  rw [Bool.or_eq_true] at hchecked
  rcases hchecked with hentry | hhigh
  · obtain ⟨hagree, hnot⟩ := agree_of_checkEntry hentry hmatches op2
    exact iff_of_true hagree hnot
  · exact agree_iff_of_checkHighBytes hhigh hmatches op2

/-- The operands of an extension agree. -/
def checkExtension (extension : Word) : Bool :=
  (findExtOpInfoByOpcode extension).all fun t =>
    agreesAll t.params (findFunction interpreterOpcodesExt extension).accesses

theorem extensions_checked : ((List.range 256).all fun x => checkExtension (.ofNat 16 x)) = true := by
  decide +kernel

theorem extensionBits_lt (op1 : Word) : (extensionBits op1).toNat < 256 := by
  unfold extensionBits
  split <;> rw [BitVec.toNat_and]
  · exact lt_of_le_of_lt Nat.and_le_right (by decide)
  · exact lt_of_le_of_lt Nat.and_le_right (by decide)

theorem agree_extension {op1 : Word} {t : DSPOPCTemplate}
    (h : findExtOpInfoByOpcode (extensionBits op1) = some t) (op2 : Word) :
    Agree t (getExtOp op1) op1 op2 := by
  have hchecked := List.all_eq_true.mp extensions_checked _ (List.mem_range.mpr (extensionBits_lt op1))
  rw [BitVec.ofNat_toNat, BitVec.setWidth_eq, checkExtension, h] at hchecked
  exact agreesAll_sound hchecked op1 op2

theorem misnamed_found {op1 : Word} (h : Misnamed op1) : ∃ t, findOpInfoByOpcode op1 = some t := by
  have hcovered : ∀ p ∈ misnamed, (opcodes.any fun t => t.pattern.Covers p) = true := by decide +kernel
  obtain ⟨p, hp, hmatches⟩ := h
  obtain ⟨t, ht, hcovers⟩ := List.any_eq_true.mp (hcovered p hp)
  refine Option.isSome_iff_exists.mp (List.find?_isSome.mpr ⟨t, ht, ?_⟩)
  exact BitPattern.matches_of_covers hcovers hmatches

/-- **The tables and the interpreter name the same registers** for all words but the misnamed ones. -/
theorem operandsAgree_iff (op1 op2 : Word) : OperandsAgree op1 op2 ↔ ¬ Misnamed op1 := by
  constructor
  · intro hagree hmisnamed
    obtain ⟨t, ht⟩ := misnamed_found hmisnamed
    exact (agree_iff ht op2).mp (hagree.main t ht) hmisnamed
  · intro hnot
    exact ⟨fun t ht => (agree_iff ht op2).mpr hnot, fun t _ ht => agree_extension ht op2⟩

/-- `CLRL $ac0` has a descriptor that says `$ac1.l`. -/
theorem clrl_misnamed : ¬ ∀ op1 op2 : Word, OperandsAgree op1 op2 := by
  intro hall
  have hagree := (hall 0xfc00 0).main ⟨"CLRL", 0xfc00, 0xfe00, 1, [⟨pAccL, 1, 0, 11, 0x0800⟩],
    true, false, false, false, true⟩ rfl
  exact absurd hagree (by decide +kernel)

end DSP
