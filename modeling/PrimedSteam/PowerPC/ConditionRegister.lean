import Mathlib
import PrimedSteam.Lib.BitRuns

/-!
# The condition register

Each field of four flags is a number of 64 bits, in which the sign, the low half and two bits encode the
flags. A flag has many encodings.

* `ConditionRegister.plain`: the flags that are read.
* `getFieldValue_resultField`: the result of an operation is its own encoding.
* `run_faithful`: every update does what it does to the flags.
-/

set_option autoImplicit false

namespace ConditionRegister

/-- There are fields. -/
scoped instance neZero8 : NeZero 8 := ⟨by decide⟩

def crSO : BitVec 8 := 1

def crEQ : BitVec 8 := 2

def crGT : BitVec 8 := 4

def crLT : BitVec 8 := 8

def crEQBit : ℕ := 1

def crGTBit : ℕ := 2

def crEmuSOBit : ℕ := 59

def crEmuLTBit : ℕ := 62

/-- A condition as a number. -/
def flag (b : Bool) : BitVec 64 := (BitVec.ofBool b).setWidth 64

/-- `PPCToInternal` -/
def ppcToInternal (value : BitVec 8) : BitVec 64 :=
  0x100000000 ||| flag (value &&& crSO != 0) <<< crEmuSOBit ||| flag (value &&& crEQ == 0) |||
    flag (value &&& crGT == 0) <<< 63 ||| flag (value &&& crLT != 0) <<< crEmuLTBit

/-- `s_crTable` -/
def crTable : List (BitVec 64) := (List.range 16).map fun value => ppcToInternal (BitVec.ofNat 8 value)

end ConditionRegister

/-- The fields. -/
structure ConditionRegister where
  fields : Fin 8 → BitVec 64

namespace ConditionRegister

/-- What `GetField` reads from a field. -/
def getFieldValue (crVal : BitVec 64) : BitVec 32 :=
  (crVal >>> crEmuSOBit &&& (crLT ||| crSO).setWidth 64).setWidth 32 |||
    (flag (crVal &&& 0xFFFFFFFF == 0) <<< crEQBit).setWidth 32 |||
    (flag (BitVec.slt 0 crVal) <<< crGTBit).setWidth 32

def getField (cr : ConditionRegister) (crField : Fin 8) : BitVec 32 := getFieldValue (cr.fields crField)

/-- The table has an entry for every value of a field. -/
def setField (cr : ConditionRegister) (crField : Fin 8) (value : BitVec 32) : ConditionRegister :=
  ⟨Function.update cr.fields crField (crTable.getD value.toNat 0)⟩

theorem fieldOfBit_lt (bit : Fin 32) : bit.val >>> 2 < 8 := by
  rw [Nat.shiftRight_eq_div_pow]
  omega

/-- `bit >> 2` -/
def fieldOfBit (bit : Fin 32) : Fin 8 := ⟨bit.val >>> 2, fieldOfBit_lt bit⟩

def getBit (cr : ConditionRegister) (bit : Fin 32) : BitVec 32 :=
  cr.getField (fieldOfBit bit) >>> (3 - (bit.val &&& 3)) &&& 1

def setBit (cr : ConditionRegister) (bit : Fin 32) (value : BitVec 32) : ConditionRegister :=
  if value &&& 1 ≠ 0 then
    cr.setField (fieldOfBit bit) (cr.getField (fieldOfBit bit) ||| (0x8 : BitVec 32) >>> (bit.val &&& 3))
  else
    cr.setField (fieldOfBit bit) (cr.getField (fieldOfBit bit) &&& ~~~((0x8 : BitVec 32) >>> (bit.val &&& 3)))

def get (cr : ConditionRegister) : BitVec 32 :=
  (List.finRange 8).foldl (fun newCR i => newCR ||| cr.getField i <<< (28 - i.val * 4)) 0

def set (cr : ConditionRegister) (newCR : BitVec 32) : ConditionRegister :=
  (List.finRange 8).foldl (fun cr i => cr.setField i (newCR >>> (28 - i.val * 4) &&& 0xF)) cr

/-- The field that `Helper_UpdateCR0` writes for a result, with the summary overflow. -/
def resultField (value : BitVec 32) (so : Bool) : BitVec 64 :=
  let crVal := value.signExtend 64
  -- with the summary overflow set the field of a zero result would otherwise be positive
  let crVal := if value = 0 then crVal ||| (1 : BitVec 64) <<< 63 else crVal
  crVal &&& ~~~((1 : BitVec 64) <<< crEmuSOBit) ||| flag so <<< crEmuSOBit

/-- `Helper_UpdateCR0` -/
def updateCR0 (cr : ConditionRegister) (value : BitVec 32) (so : Bool) : ConditionRegister :=
  ⟨Function.update cr.fields 0 (resultField value so)⟩

/-! ## Plain fields -/

/-- Fields of four flags. -/
abbrev PlainCR := Fin 8 → BitVec 4

/-- A field with one bit changed; bit 0 is the highest. -/
def withBit (value : BitVec 4) (bit : ℕ) (b : Bool) : BitVec 4 :=
  BitVec.ofFnLE fun i => if i.val = 3 - bit then b else value.getLsbD i

namespace PlainCR

def setBit (cr : PlainCR) (bit : Fin 32) (b : Bool) : PlainCR :=
  Function.update cr (fieldOfBit bit) (withBit (cr (fieldOfBit bit)) (bit.val % 4) b)

def getBit (cr : PlainCR) (bit : Fin 32) : Bool := (cr (fieldOfBit bit)).getMsbD (bit.val % 4)

/-- The fields from the highest. -/
def get (cr : PlainCR) : BitVec 32 := cr 0 ++ cr 1 ++ cr 2 ++ cr 3 ++ cr 4 ++ cr 5 ++ cr 6 ++ cr 7

def ofWord (newCR : BitVec 32) : PlainCR := fun i => newCR.extractLsb' (28 - i.val * 4) 4

/-- The comparison of a result with zero, and the summary overflow. -/
def compareZero (value : BitVec 32) (so : Bool) : BitVec 4 :=
  BitVec.ofBool (decide (value.toInt < 0)) ++ BitVec.ofBool (decide (0 < value.toInt)) ++
    BitVec.ofBool (decide (value.toInt = 0)) ++ BitVec.ofBool so

end PlainCR

/-- The updates of the register. -/
inductive Update where
  | setField (crField : Fin 8) (value : BitVec 4)
  | setBit (bit : Fin 32) (value : BitVec 32)
  | set (newCR : BitVec 32)
  | updateCR0 (value : BitVec 32) (so : Bool)

def Update.apply : Update → ConditionRegister → ConditionRegister
  | setField crField value, cr => cr.setField crField (value.setWidth 32)
  | setBit bit value, cr => cr.setBit bit value
  | set newCR, cr => cr.set newCR
  | updateCR0 value so, cr => cr.updateCR0 value so

/-- The same update of plain fields. -/
def Update.applyPlain : Update → PlainCR → PlainCR
  | setField crField value, cr => Function.update cr crField value
  | setBit bit value, cr => cr.setBit bit (value.getLsbD 0)
  | set newCR, _ => PlainCR.ofWord newCR
  | updateCR0 value so, cr => Function.update cr 0 (PlainCR.compareZero value so)

def run (updates : List Update) (cr : ConditionRegister) : ConditionRegister :=
  updates.foldl (fun cr update => update.apply cr) cr

def runPlain (updates : List Update) (cr : PlainCR) : PlainCR :=
  updates.foldl (fun cr update => update.applyPlain cr) cr

/-- The flags as they are read. -/
def plain (cr : ConditionRegister) : PlainCR := fun i => (cr.getField i).setWidth 4

/-! ## Encodings -/

theorem flag_getLsbD (b : Bool) (i : ℕ) : (flag b).getLsbD i = (decide (i = 0) && b) := by
  rw [flag, BitVec.getLsbD_setWidth, BitVec.getLsbD_ofBool]
  by_cases h : i = 0
  · simp [h]
  · simp [h]

theorem getFieldValue_eq (crVal : BitVec 64) : getFieldValue crVal =
    (BitVec.ofBool (crVal.getLsbD 62) ++ BitVec.ofBool (BitVec.slt 0 crVal) ++
      BitVec.ofBool (crVal &&& 0xFFFFFFFF == 0) ++ BitVec.ofBool (crVal.getLsbD 59) : BitVec 4).setWidth 32 := by
  have hmask : ∀ i < 64, ((crLT ||| crSO).setWidth 64).getLsbD i = decide (i = 0 ∨ i = 3) := by decide
  apply BitVec.eq_of_getLsbD_eq
  intro i hi
  simp only [getFieldValue, BitVec.getLsbD_or, BitVec.getLsbD_setWidth, BitVec.getLsbD_and,
    BitVec.getLsbD_ushiftRight,
    hmask i (by omega), BitVec.getLsbD_shiftLeft, flag_getLsbD, BitVec.getLsbD_append, BitVec.getLsbD_ofBool,
    crEmuSOBit, crEQBit, crGTBit, hi]
  rcases i with _ | _ | _ | _ | i
  · simp
  · simp
  · simp
  · simp
  · simp

theorem getFieldValue_crTable (value : BitVec 4) :
    getFieldValue (crTable.getD value.toNat 0) = value.setWidth 32 := by
  have h : ∀ n < 16, getFieldValue (crTable.getD n 0) = BitVec.ofNat 32 n := by decide
  rw [h value.toNat value.isLt, BitVec.ofNat_toNat]

/-- A number is positive if it is not zero and has no sign. -/
theorem zero_slt {w : ℕ} (x : BitVec w) : BitVec.slt 0 x = (!x.msb && x != 0) := by
  rw [BitVec.slt_eq_sle_and_ne, BitVec.sle_eq_not_slt, bne_comm]
  exact congrArg (fun b => !b && x != 0) BitVec.slt_zero_eq_msb

theorem resultField_getLsbD (value : BitVec 32) (so : Bool) {i : ℕ} (hi : i < 64) :
    (resultField value so).getLsbD i
      = if i = 59 then so else ((value.signExtend 64).getLsbD i || (decide (value = 0) && decide (i = 63))) := by
  have hone : ∀ n j, j < 64 → ((1 : BitVec 64) <<< n).getLsbD j = decide (j = n) := by
    intro n j hj
    simp only [BitVec.getLsbD_shiftLeft, hj]
    grind
  have hset : (if value = 0 then value.signExtend 64 ||| (1 : BitVec 64) <<< 63 else value.signExtend 64).getLsbD i
      = ((value.signExtend 64).getLsbD i || (decide (value = 0) && decide (i = 63))) := by
    by_cases h : value = 0
    · rw [if_pos h, BitVec.getLsbD_or, hone 63 i hi, decide_eq_true h, Bool.true_and]
    · rw [if_neg h, decide_eq_false h, Bool.false_and, Bool.or_false]
  have hflag : (flag so <<< 59).getLsbD i = (decide (i = 59) && so) := by
    simp only [BitVec.getLsbD_shiftLeft, flag_getLsbD, hi]
    grind
  simp only [resultField, crEmuSOBit, BitVec.getLsbD_or, BitVec.getLsbD_and, BitVec.getLsbD_not, hset, hone 59 i hi,
    hflag, hi]
  by_cases h : i = 59
  · simp [h]
  · simp [h]

theorem resultField_low (value : BitVec 32) (so : Bool) :
    resultField value so &&& 0xFFFFFFFF = value.setWidth 64 := by
  have hmask : ∀ i, (0xFFFFFFFF : BitVec 64).getLsbD i = decide (i < 32) := BitRuns.getLsbD_of_low_ones rfl
  apply BitVec.eq_of_getLsbD_eq
  intro i hi
  rw [BitVec.getLsbD_and, resultField_getLsbD value so hi, hmask,
    BitVec.getLsbD_setWidth, BitVec.getLsbD_signExtend]
  by_cases hlow : i < 32
  · have h59 : i ≠ 59 := by omega
    have h63 : i ≠ 63 := by omega
    simp [hlow, h59, h63, hi]
  · rw [BitVec.getLsbD_of_ge value i (by omega)]
    simp [hlow]

/-- **The result of an operation is read as its comparison with zero.** -/
theorem getFieldValue_resultField (value : BitVec 32) (so : Bool) :
    getFieldValue (resultField value so) = (PlainCR.compareZero value so).setWidth 32 := by
  have hmsb : (resultField value so).msb = (value.msb || decide (value = 0)) := by
    rw [BitVec.msb_eq_getLsbD_last, resultField_getLsbD value so (by decide), if_neg (by decide),
      BitVec.getLsbD_signExtend]
    simp
  have hbit : (resultField value so).getLsbD 62 = decide (value.toInt < 0) := by
    rw [resultField_getLsbD value so (by decide), if_neg (by decide), BitVec.getLsbD_signExtend,
      ← BitVec.msb_eq_toInt]
    simp
  have hso : (resultField value so).getLsbD 59 = so := by
    rw [resultField_getLsbD value so (by decide), if_pos rfl]
  have hnat : value.setWidth 64 = 0 ↔ value = 0 := by
    rw [← BitVec.toNat_inj, ← BitVec.toNat_inj, BitVec.toNat_setWidth, Nat.mod_eq_of_lt (by omega)]
    rfl
  have hint : value.toInt = 0 ↔ value = 0 := by
    rw [← BitVec.toInt_inj]
    rfl
  have hzero : (resultField value so &&& 0xFFFFFFFF == 0) = decide (value.toInt = 0) := by
    rw [resultField_low, beq_eq_decide]
    exact decide_eq_decide.mpr (hnat.trans hint.symm)
  have hpos : BitVec.slt 0 (resultField value so) = decide (0 < value.toInt) := by
    have hvalue : decide (0 < value.toInt) = BitVec.slt 0 value := rfl
    have hne : value ≠ 0 → resultField value so ≠ 0 := by
      intro h heq
      have hlow := resultField_low value so
      rw [heq] at hlow
      exact h (hnat.mp (hlow.symm.trans (BitVec.zero_and)))
    rw [hvalue, zero_slt, zero_slt, hmsb]
    by_cases h : value = 0
    · rw [h]
      simp
    · rw [decide_eq_false h, Bool.or_false, bne_iff_ne.mpr h, bne_iff_ne.mpr (hne h)]
  rw [getFieldValue_eq, hbit, hpos, hzero, hso, PlainCR.compareZero]

/-! ## Updates -/

section Update

variable (cr : ConditionRegister)

theorem setWidth_four (value : BitVec 4) : (value.setWidth 32).setWidth 4 = value := by
  rw [BitVec.setWidth_setWidth_of_le _ (by decide), BitVec.setWidth_eq]

theorem plain_setWidth (crField : Fin 8) : (cr.plain crField).setWidth 32 = cr.getField crField := by
  rw [plain, getField, getFieldValue_eq, setWidth_four]

theorem getField_update (fields : Fin 8 → BitVec 64) (crField other : Fin 8) (crVal : BitVec 64) :
    (ConditionRegister.mk (Function.update fields crField crVal)).getField other
      = if other = crField then getFieldValue crVal else getFieldValue (fields other) := by
  change getFieldValue (Function.update fields crField crVal other) = _
  rw [Function.update_apply, apply_ite getFieldValue]

theorem plain_setField (crField : Fin 8) (value : BitVec 4) :
    (cr.setField crField (value.setWidth 32)).plain = Function.update cr.plain crField value := by
  funext other
  rw [plain, setField, getField_update, Function.update_apply]
  by_cases h : other = crField
  · rw [if_pos h, if_pos h, BitVec.toNat_setWidth, Nat.mod_eq_of_lt (by omega), getFieldValue_crTable, setWidth_four]
  · rw [if_neg h, if_neg h]
    rfl

theorem plain_updateCR0 (value : BitVec 32) (so : Bool) :
    (cr.updateCR0 value so).plain = Function.update cr.plain 0 (PlainCR.compareZero value so) := by
  funext other
  rw [plain, updateCR0, getField_update, Function.update_apply]
  by_cases h : other = 0
  · rw [if_pos h, if_pos h, getFieldValue_resultField, setWidth_four]
  · rw [if_neg h, if_neg h]
    rfl

/-- A bit of a field is set and cleared with a mask. -/
theorem withBit_eq (value : BitVec 4) {bit : ℕ} (h : bit < 4) :
    value.setWidth 32 ||| (0x8 : BitVec 32) >>> bit = (withBit value bit true).setWidth 32 ∧
      value.setWidth 32 &&& ~~~((0x8 : BitVec 32) >>> bit) = (withBit value bit false).setWidth 32 := by
  have hall : ∀ n < 16, ∀ bit < 4,
      (BitVec.ofNat 4 n).setWidth 32 ||| (0x8 : BitVec 32) >>> bit =
        (withBit (BitVec.ofNat 4 n) bit true).setWidth 32 ∧
        (BitVec.ofNat 4 n).setWidth 32 &&& ~~~((0x8 : BitVec 32) >>> bit)
          = (withBit (BitVec.ofNat 4 n) bit false).setWidth 32 := by decide
  have hvalue := hall value.toNat value.isLt bit h
  rwa [BitVec.ofNat_toNat, BitVec.setWidth_eq] at hvalue

theorem and_three (bit : ℕ) : bit &&& 3 = bit % 4 := Nat.and_two_pow_sub_one_eq_mod bit 2

theorem and_one (value : BitVec 32) : value &&& 1 = (BitVec.ofBool (value.getLsbD 0)).setWidth 32 :=
  BitVec.and_one_eq_setWidth_ofBool_getLsbD

theorem and_one_ne_zero (value : BitVec 32) : value &&& 1 ≠ 0 ↔ value.getLsbD 0 = true := by
  rw [and_one]
  cases value.getLsbD 0 with
  | true => decide
  | false => decide

theorem plain_setBit (bit : Fin 32) (value : BitVec 32) :
    (cr.setBit bit value).plain = cr.plain.setBit bit (value.getLsbD 0) := by
  obtain ⟨hset, hclear⟩ := withBit_eq (cr.plain (fieldOfBit bit)) (Nat.mod_lt bit.val (show 0 < 4 by decide))
  rw [setBit, PlainCR.setBit, and_three, ← plain_setWidth]
  by_cases h : value.getLsbD 0 = true
  · rw [if_pos ((and_one_ne_zero value).mpr h), h, hset, plain_setField]
  · rw [if_neg (fun hne => h ((and_one_ne_zero value).mp hne)), eq_false_of_ne_true h, hclear, plain_setField]

theorem shiftRight_and (newCR : BitVec 32) (n : ℕ) : newCR >>> n &&& 0xF = (newCR.extractLsb' n 4).setWidth 32 := by
  have hmask : ∀ i, (0xF : BitVec 32).getLsbD i = decide (i < 4) := BitRuns.getLsbD_of_low_ones rfl
  apply BitVec.eq_of_getLsbD_eq
  intro i hi
  rw [BitVec.getLsbD_and, BitVec.getLsbD_ushiftRight, hmask, BitVec.getLsbD_setWidth, BitVec.getLsbD_extractLsb',
    decide_eq_true hi, Bool.true_and, Bool.and_comm]

theorem plain_foldl_setField (newCR : BitVec 32) (fields : List (Fin 8)) (other : Fin 8) :
    (fields.foldl (fun cr i => cr.setField i (newCR >>> (28 - i.val * 4) &&& 0xF)) cr).plain other
      = if other ∈ fields then PlainCR.ofWord newCR other else cr.plain other := by
  induction fields generalizing cr with
  | nil => rfl
  | cons crField fields ih =>
    rw [List.foldl_cons, ih, shiftRight_and, plain_setField, Function.update_apply]
    by_cases hmem : other ∈ fields
    · rw [if_pos hmem, if_pos (List.mem_cons_of_mem _ hmem)]
    · by_cases heq : other = crField
      · rw [if_neg hmem, if_pos heq, if_pos (heq ▸ List.mem_cons_self), heq]
        rfl
      · rw [if_neg hmem, if_neg heq, if_neg (fun h => (List.mem_cons.mp h).elim heq hmem)]

theorem plain_set (newCR : BitVec 32) : (cr.set newCR).plain = PlainCR.ofWord newCR := by
  funext other
  rw [set, plain_foldl_setField, if_pos (List.mem_finRange other)]

theorem get_eq : cr.get = cr.plain.get := by
  have h : ∀ p : PlainCR, (List.finRange 8).foldl (fun newCR i => newCR ||| (p i).setWidth 32 <<< (28 - i.val * 4)) 0
      = PlainCR.get p := by
    intro p
    apply BitVec.eq_of_getLsbD_eq
    intro i hi
    simp only [List.finRange, List.ofFn, Fin.foldr, Fin.foldr.loop, List.foldl_cons, List.foldl_nil, PlainCR.get,
      BitVec.getLsbD_or, BitVec.getLsbD_append, BitVec.getLsbD_shiftLeft, BitVec.getLsbD_setWidth]
    interval_cases i <;> simp
  rw [← h]
  simp only [plain_setWidth]
  rfl

theorem getBit_eq (bit : Fin 32) : cr.getBit bit = (BitVec.ofBool (cr.plain.getBit bit)).setWidth 32 := by
  have hlt : bit.val % 4 < 4 := Nat.mod_lt _ (by decide)
  rw [getBit, and_one, ← plain_setWidth, and_three, BitVec.getLsbD_ushiftRight,
    BitVec.getLsbD_setWidth, PlainCR.getBit, BitVec.getMsbD, decide_eq_true hlt, Bool.true_and,
    decide_eq_true (by omega), Bool.true_and]
  rfl

/-- An update does to the flags what it does to plain fields. -/
theorem plain_apply (update : Update) : (update.apply cr).plain = update.applyPlain cr.plain := by
  cases update with
  | setField crField value => exact plain_setField cr crField value
  | setBit bit value => exact plain_setBit cr bit value
  | set newCR => exact plain_set cr newCR
  | updateCR0 value so => exact plain_updateCR0 cr value so

theorem plain_run (updates : List Update) : (run updates cr).plain = runPlain updates cr.plain := by
  induction updates generalizing cr with
  | nil => rfl
  | cons update updates ih =>
    rw [run, runPlain, List.foldl_cons, List.foldl_cons, ← plain_apply]
    exact ih (update.apply cr)

end Update

/-- Bits of fields are the same if fields and positions are. -/
theorem bit_eq_iff (bit other : Fin 32) :
    other = bit ↔ fieldOfBit other = fieldOfBit bit ∧ other.val % 4 = bit.val % 4 := by
  have hfield : ∀ b : Fin 32, (fieldOfBit b).val = b.val / 4 := fun b => Nat.shiftRight_eq_div_pow b.val 2
  rw [Fin.ext_iff, Fin.ext_iff, hfield, hfield]
  omega

theorem getMsbD_withBit (value : BitVec 4) (b : Bool) {i j : ℕ} (hi : i < 4) (hj : j < 4) :
    (withBit value i b).getMsbD j = if j = i then b else value.getMsbD j := by
  have hlt : 4 - 1 - j < 4 := by omega
  simp only [BitVec.getMsbD, withBit, BitVec.getLsbD_ofFnLE, hlt, hj, decide_true, Bool.true_and, dif_pos]
  by_cases h : j = i
  · rw [if_pos h, if_pos (by omega)]
  · rw [if_neg h, if_neg (by omega)]

theorem PlainCR.getBit_setBit (cr : PlainCR) (bit other : Fin 32) (b : Bool) :
    (cr.setBit bit b).getBit other = if other = bit then b else cr.getBit other := by
  have hbit := Nat.mod_lt bit.val (show 0 < 4 by decide)
  have hother := Nat.mod_lt other.val (show 0 < 4 by decide)
  rw [getBit, setBit, Function.update_apply]
  by_cases hfield : fieldOfBit other = fieldOfBit bit
  · rw [if_pos hfield, getMsbD_withBit _ b hbit hother, getBit, hfield]
    exact if_congr (by rw [bit_eq_iff, and_iff_right hfield]) rfl rfl
  · rw [if_neg hfield, if_neg (fun h => hfield ((bit_eq_iff bit other).mp h).1)]
    rfl

/-- **The encoding is faithful**: after any updates, whatever was there before, the fields, the register and its bits
are read as those of plain fields that are updated the same way, and a set bit is the only one that changes. -/
theorem run_faithful (updates : List Update) (cr : ConditionRegister) :
    (∀ crField, (run updates cr).getField crField = (runPlain updates cr.plain crField).setWidth 32) ∧
      (run updates cr).get = (runPlain updates cr.plain).get ∧
      (∀ bit, (run updates cr).getBit bit = (BitVec.ofBool ((runPlain updates cr.plain).getBit bit)).setWidth 32) ∧
      (∀ bit, (run updates cr).getBit bit
        = (BitVec.ofBool (((run updates cr).getField (fieldOfBit bit)).getLsbD (3 - bit.val % 4))).setWidth 32) ∧
      ∀ bit value other, ((run updates cr).setBit bit value).getBit other
        = if other = bit then value &&& 1 else (run updates cr).getBit other := by
  have hplain := plain_run cr updates
  have hbit : ∀ bit, (run updates cr).getBit bit
      = (BitVec.ofBool ((runPlain updates cr.plain).getBit bit)).setWidth 32 := by
    intro bit
    rw [getBit_eq, hplain]
  refine ⟨fun crField => ?_, ?_, hbit, fun bit => ?_, fun bit value other => ?_⟩
  · rw [← plain_setWidth, hplain]
  · rw [get_eq, hplain]
  · have hlt : bit.val % 4 < 4 := Nat.mod_lt _ (by decide)
    rw [getBit_eq, ← plain_setWidth, BitVec.getLsbD_setWidth, decide_eq_true (by omega), Bool.true_and,
      PlainCR.getBit,
      BitVec.getMsbD, decide_eq_true hlt, Bool.true_and]
  · rw [getBit_eq, plain_setBit, PlainCR.getBit_setBit, getBit_eq]
    by_cases h : other = bit
    · rw [if_pos h, if_pos h, and_one]
    · rw [if_neg h, if_neg h]

end ConditionRegister
