import PrimedSteam.Arm64.Instructions

/-!
# Constants in registers

`MOVI2R` writes a constant over one of five bases: the base that differs from the constant in the fewest parts
of 16 bits is loaded, and the other parts are moved in one by one.

* `movi2rImpl`: the search for the base and the code.
* `movi2r_spec`: the code as one write of the register.
* `movi2r_loads`: the code loads the constant.
-/

set_option autoImplicit false

namespace Arm64Gen

/-! ## Bases -/

inductive Approach where
  | movzBase
  | movnBase
  | adrBase
  | adrpBase
  | orrBase
deriving DecidableEq

structure Part where
  imm : BitVec 16
  shift : Fin 4
deriving DecidableEq

/-- `best_parts`, `best_approach` and `best_base` -/
structure Candidate where
  parts : List Part
  approach : Approach
  base : BitVec 64

/-- `sizeof(T) / 2` -/
def maxParts : GPRSize → ℕ
  | .b32 => 2
  | .b64 => 4

/-- `instructions_required` -/
def instructionsRequired (c : Candidate) : ℕ :=
  match c.approach with
  | .movzBase => c.parts.length
  | .movnBase => c.parts.length
  | _ => c.parts.length + 1

/-- The parts of the constant that the base does not have. -/
def differing (size : GPRSize) (imm base : BitVec 64) : List Part :=
  ((List.finRange 4).filter fun i : Fin 4 =>
    decide (i.val < maxParts size ∧ part imm i.val ≠ part base i.val)).map fun i : Fin 4 => ⟨part imm i.val, i⟩

def candidate (size : GPRSize) (imm base : BitVec 64) (approach : Approach) : Candidate :=
  ⟨differing size imm base, approach, base⟩

/-- `try_base` -/
def tryBase (size : GPRSize) (imm base : BitVec 64) (approach : Approach) (best : Candidate) : Candidate :=
  let c := candidate size imm base approach
  if instructionsRequired c < instructionsRequired best then c else best

/-- `sext_21_bit` -/
def sext21 (x : BitVec 64) : BitVec 64 :=
  (x &&& 0x1FFFFF) ||| (if x &&& 0x100000 ≠ 0 then ~~~(0x1FFFFF : BitVec 64) else 0)

def adrpOffset (imm pc : BitVec 64) : BitVec 64 := sext21 ((imm >>> 12) - (pc >>> 12)) <<< 12

def adrOffset (imm pc : BitVec 64) : BitVec 64 := sext21 (imm - pc)

def adrpBase (imm pc : BitVec 64) : BitVec 64 := (pc &&& ~~~(0xFFF : BitVec 64)) + adrpOffset imm pc

def adrBase (imm pc : BitVec 64) : BitVec 64 := pc + adrOffset imm pc

/-- The values for `ORR`. -/
def orrImms : GPRSize → BitVec 64 → List (BitVec 64)
  | .b64, imm => [imm, (imm <<< 32) ||| (imm &&& 0x00000000FFFFFFFF),
      (imm &&& 0xFFFFFFFF00000000) ||| (imm >>> 32),
      (imm <<< 48) ||| (imm &&& 0x0000FFFFFFFF0000) ||| (imm >>> 48)]
  | .b32, imm => [imm]

/-- The loop over the values for `ORR`. -/
def tryOrr (size : GPRSize) (imm : BitVec 64) : List (BitVec 64) → Candidate → Candidate
  | [], best => best
  | orrImm :: orrImms, best =>
    if (LogicalImm.new orrImm size).valid then
      let best := tryBase size imm orrImm .orrBase best
      if instructionsRequired best ≤ 1 then best else tryOrr size imm orrImms best
    else tryOrr size imm orrImms best

/-- The search for the base. -/
def bestBase (size : GPRSize) (imm pc : BitVec 64) : Candidate :=
  let best := candidate size imm 0 .movzBase
  let best := tryBase size imm (fit size (~~~0)) .movnBase best
  let best :=
    if size = .b64 then
      tryBase size imm (adrBase imm pc) .adrBase (tryBase size imm (adrpBase imm pc) .adrpBase best)
    else best
  if instructionsRequired best > 1 then tryOrr size imm (orrImms size imm) best else best

/-! ## The code -/

/-- The body of the loop that moves the other parts in. -/
def uploadPart (Rd : ARM64Reg) (imm pc : BitVec 64) (approach : Approach) (p : Part) : Option (List Inst) :=
  if approach = .adrpBase ∧ p.shift = 0 then
    if p.imm.setWidth 64 = (adrpBase imm pc &&& 0xF000) + (p.imm.setWidth 64 &&& 0xFFF) then
      encodeAddSubImm false false false (p.imm.setWidth 32 &&& 0xFFF) Rd Rd
    else none
  else MOVK Rd (p.imm.setWidth 32) p.shift

def uploadParts (Rd : ARM64Reg) (imm pc : BitVec 64) (approach : Approach) : List Part → Option (List Inst)
  | [] => some []
  | p :: parts => do
    let first ← uploadPart Rd imm pc approach p
    let rest ← uploadParts Rd imm pc approach parts
    some (first ++ rest)

/-- The instruction that overwrites the register, and the parts that it leaves. -/
def loadBase (Rd : ARM64Reg) (imm pc : BitVec 64) (best : Candidate) : Option (List Inst × List Part) :=
  match best.approach with
  | .movzBase =>
    let p := best.parts.headD ⟨0, 0⟩
    (MOVZ Rd (p.imm.setWidth 32) p.shift).map fun code => (code, best.parts.tail)
  | .movnBase =>
    let p := best.parts.headD ⟨0xFFFF, 0⟩
    (MOVN Rd ((~~~p.imm).setWidth 32) p.shift).map fun code => (code, best.parts.tail)
  | .adrBase => some (ADR Rd ((adrOffset imm pc).setWidth 32), best.parts)
  | .adrpBase => some (ADRP Rd (adrpOffset imm pc), best.parts)
  | .orrBase => do
    let (code, success) ← tryORRI2R Rd (zeroReg Rd.size) best.base
    if success then some (code, best.parts) else none

/-- `MOVI2RImpl<T>` at the address `pc`, for the type that has the size of the register. -/
def movi2rImpl (Rd : ARM64Reg) (imm pc : BitVec 64) : Option (List Inst) := do
  let best := bestBase Rd.size imm pc
  let (first, parts) ← loadBase Rd imm pc best
  let rest ← uploadParts Rd imm pc best.approach parts
  some (first ++ rest)

def MOVI2R (Rd : ARM64Reg) (imm pc : BitVec 64) : Option (List Inst) := movi2rImpl Rd (fit Rd.size imm) pc

/-! ## Parts of a value -/

section Parts

variable {v v' imm : BitVec 64}

theorem getLsbD_part (v : BitVec 64) (i k : ℕ) :
    (part v i).getLsbD k = (decide (k < 16) && v.getLsbD (16 * i + k)) := by
  rw [part, BitVec.getLsbD_extractLsb']

theorem part_inj (h : ∀ i < 4, part v i = part v' i) : v = v' := by
  refine BitVec.eq_of_getLsbD_eq fun n hn => ?_
  have hbit := congrArg (fun a => a.getLsbD (n % 16)) (h (n / 16) (by omega))
  simp only [getLsbD_part, decide_eq_true (Nat.mod_lt n (show 0 < 16 by decide)), Bool.true_and,
    Nat.div_add_mod] at hbit
  exact hbit

theorem getLsbD_mask16 (i : ℕ) : (0xFFFF : BitVec 64).getLsbD i = decide (i < 16) :=
  BitRuns.getLsbD_of_low_ones (by decide) i

theorem getLsbD_insert (v : BitVec 64) (a : BitVec 16) (i : ℕ) {n : ℕ} (hn : n < 64) :
    (insert v i a).getLsbD n
      = if 16 * i ≤ n ∧ n < 16 * i + 16 then a.getLsbD (n - 16 * i) else v.getLsbD n := by
  rw [insert, BitVec.getLsbD_or, BitVec.getLsbD_and, BitVec.getLsbD_not, BitVec.getLsbD_shiftLeft,
    BitVec.getLsbD_shiftLeft, getLsbD_mask16, BitVec.getLsbD_setWidth, decide_eq_true hn]
  by_cases hlow : n < 16 * i
  · rw [if_neg (by omega)]
    simp [hlow]
  by_cases hhigh : n < 16 * i + 16
  · rw [if_pos ⟨by omega, hhigh⟩, decide_eq_false hlow, decide_eq_true (show n - 16 * i < 16 by omega),
      decide_eq_true (show n - 16 * i < 64 by omega)]
    simp
  · rw [if_neg (by omega), decide_eq_false (show ¬n - 16 * i < 16 by omega),
      BitVec.getLsbD_of_ge a _ (by omega)]
    simp

theorem part_insert (v : BitVec 64) (a : BitVec 16) (i : ℕ) {j : ℕ} (hj : j < 4) :
    part (insert v i a) j = if j = i then a else part v j := by
  ext k hk
  rw [← BitVec.getLsbD_eq_getElem, ← BitVec.getLsbD_eq_getElem, getLsbD_part, decide_eq_true hk, Bool.true_and,
    getLsbD_insert v a i (by omega)]
  by_cases h : j = i
  · rw [if_pos h, if_pos (by omega), h, Nat.add_sub_cancel_left]
  · rw [if_neg h, if_neg (by omega), getLsbD_part, decide_eq_true hk, Bool.true_and]

theorem insert_part (v : BitVec 64) (i : ℕ) : insert v i (part v i) = v := by
  refine part_inj fun j hj => ?_
  rw [part_insert _ _ _ hj]
  split_ifs with h
  · rw [h]
  · rfl

theorem part_fit (size : GPRSize) (v : BitVec 64) {i : ℕ} (hi : i < 4) :
    part (fit size v) i = if i < maxParts size then part v i else 0 := by
  ext k hk
  rw [← BitVec.getLsbD_eq_getElem, ← BitVec.getLsbD_eq_getElem, getLsbD_part, getLsbD_fit, decide_eq_true hk,
    Bool.true_and]
  by_cases h : i < maxParts size
  · rw [if_pos h, getLsbD_part, decide_eq_true hk, Bool.true_and, decide_eq_true, Bool.true_and]
    cases size with
    | b64 => exact .inl rfl
    | b32 =>
      have h2 : i < 2 := h
      exact .inr (by omega)
  · rw [if_neg h, decide_eq_false, Bool.false_and]
    · simp
    · cases size with
      | b64 => exact absurd hi h
      | b32 =>
        have h2 : ¬i < 2 := h
        simp
        omega

end Parts

/-! ## Offsets -/

section Offsets

variable (imm pc x : BitVec 64)

theorem sext21_eq : sext21 x = (x.setWidth 21).signExtend 64 := by
  have hbit : x &&& 0x100000 = if x.getLsbD 20 then BitVec.twoPow 64 20 else 0 := BitVec.and_twoPow x 20
  have hmask : ∀ i, (0x1FFFFF : BitVec 64).getLsbD i = decide (i < 21) :=
    BitRuns.getLsbD_of_low_ones (by decide)
  refine BitVec.eq_of_getLsbD_eq fun i hi => ?_
  rw [sext21, hbit, BitVec.getLsbD_or, BitVec.getLsbD_and, hmask, BitVec.getLsbD_signExtend, decide_eq_true hi,
    BitVec.getLsbD_setWidth]
  have hmsb : (x.setWidth 21).msb = x.getLsbD 20 := by
    rw [BitVec.msb_eq_getLsbD_last, BitVec.getLsbD_setWidth]
    rfl
  rw [hmsb]
  cases h : x.getLsbD 20 with
  | false =>
    by_cases hlow : i < 21
    · simp [hlow]
    · simp [hlow]
  | true =>
    have hone : BitVec.twoPow 64 20 ≠ 0 := by decide
    rw [if_pos rfl, if_pos hone, BitVec.getLsbD_not, hmask]
    by_cases hlow : i < 21
    · simp [hlow]
    · simp [hlow, hi]

theorem setWidth_sext21 : (sext21 x).setWidth 21 = x.setWidth 21 := by
  rw [sext21_eq]
  ext i hi
  rw [← BitVec.getLsbD_eq_getElem, ← BitVec.getLsbD_eq_getElem, BitVec.getLsbD_setWidth, BitVec.getLsbD_signExtend,
    if_pos hi, decide_eq_true hi, decide_eq_true (show i < 64 by omega)]
  rfl

theorem offset_sext21 : Inst.offset ((sext21 x).setWidth 32) = sext21 x := by
  rw [Inst.offset, BitVec.setWidth_setWidth_of_le _ (by decide), setWidth_sext21, ← sext21_eq]

theorem sext21_range : -2 ^ 20 ≤ ((sext21 x).setWidth 32).toInt ∧ ((sext21 x).setWidth 32).toInt < 2 ^ 20 := by
  have hsign : (sext21 x).setWidth 32 = (x.setWidth 21).signExtend 32 := by
    rw [sext21_eq]
    ext i hi
    rw [← BitVec.getLsbD_eq_getElem, ← BitVec.getLsbD_eq_getElem, BitVec.getLsbD_setWidth,
      BitVec.getLsbD_signExtend, BitVec.getLsbD_signExtend, decide_eq_true hi,
      decide_eq_true (show i < 64 by omega), Bool.true_and, Bool.true_and]
  rw [hsign, BitVec.toInt_signExtend_of_le (by decide)]
  have hlow := BitVec.le_toInt (x.setWidth 21)
  have hhigh := BitVec.toInt_lt (x := x.setWidth 21)
  simp only [Nat.reduceSub] at hlow hhigh
  exact ⟨by exact_mod_cast hlow, by exact_mod_cast hhigh⟩

theorem adrpOffset_pages :
    ((adrpOffset imm pc).sshiftRight 12).setWidth 32 = (sext21 ((imm >>> 12) - (pc >>> 12))).setWidth 32 := by
  rw [adrpOffset]
  ext i hi
  rw [← BitVec.getLsbD_eq_getElem, ← BitVec.getLsbD_eq_getElem, BitVec.getLsbD_setWidth, BitVec.getLsbD_setWidth,
    BitVec.getLsbD_sshiftRight, decide_eq_true hi]
  simp [show 12 + i < 64 by omega, show ¬64 ≤ i by omega]
  exact (BitVec.getLsbD_eq_getElem _).symm

theorem adrpBase_pages :
    adrpBase imm pc = ((pc >>> 12) + sext21 ((imm >>> 12) - (pc >>> 12))) <<< 12 := by
  have hpage : pc &&& ~~~(0xFFF : BitVec 64) = (pc >>> 12) <<< 12 := by
    have hmask : ∀ i, (0xFFF : BitVec 64).getLsbD i = decide (i < 12) :=
      BitRuns.getLsbD_of_low_ones (by decide)
    refine BitVec.eq_of_getLsbD_eq fun i hi => ?_
    rw [BitVec.getLsbD_and, BitVec.getLsbD_not, hmask, BitVec.getLsbD_shiftLeft, BitVec.getLsbD_ushiftRight]
    by_cases hlow : i < 12
    · simp [hlow]
    · simp [hlow, hi, Nat.add_sub_of_le (Nat.not_lt.mp hlow)]
  rw [adrpBase, adrpOffset, hpage, BitVec.shiftLeft_add_distrib]

/-- The pages reach the bits of the constant up to the sign of the offset. -/
theorem getLsbD_adrpBase {i : ℕ} (hi : i < 33) :
    (adrpBase imm pc).getLsbD i = (decide (12 ≤ i) && imm.getLsbD i) := by
  have hpages : ((pc >>> 12) + sext21 ((imm >>> 12) - (pc >>> 12))).setWidth 21 = (imm >>> 12).setWidth 21 := by
    rw [BitVec.setWidth_add _ _ (by decide), setWidth_sext21, ← BitVec.setWidth_add _ _ (by decide),
      BitVec.add_comm, BitVec.sub_add_cancel]
  rw [adrpBase_pages, BitVec.getLsbD_shiftLeft]
  by_cases hlow : i < 12
  · simp [hlow]
  · have hbit := congrArg (fun v => v.getLsbD (i - 12)) hpages
    simp only [BitVec.getLsbD_setWidth, BitVec.getLsbD_ushiftRight,
      decide_eq_true (show i - 12 < 21 by omega), Bool.true_and, Nat.add_sub_of_le (Nat.not_lt.mp hlow)] at hbit
    rw [hbit]
    simp [hlow, Nat.not_lt.mp hlow, show i < 64 by omega]

theorem part_adrpBase_zero : part (adrpBase imm pc) 0 = part imm 0 &&& 0xF000 := by
  ext i hi
  have hmask : ∀ i < 16, (0xF000 : BitVec 16).getLsbD i = decide (12 ≤ i) := by decide
  rw [← BitVec.getLsbD_eq_getElem, ← BitVec.getLsbD_eq_getElem, getLsbD_part, BitVec.getLsbD_and, getLsbD_part,
    hmask i hi, Nat.mul_zero, Nat.zero_add, getLsbD_adrpBase imm pc (by omega)]
  simp [hi, Bool.and_comm]

end Offsets

/-! ## The search -/

section Search

variable {size : GPRSize} {imm pc : BitVec 64}

theorem mem_differing {base : BitVec 64} {p : Part} : p ∈ differing size imm base ↔
    p.shift.val < maxParts size ∧ p.imm = part imm p.shift ∧ part imm p.shift ≠ part base p.shift := by
  rw [differing, List.mem_map]
  constructor
  · rintro ⟨i, hi, rfl⟩
    rw [List.mem_filter, decide_eq_true_iff] at hi
    exact ⟨hi.2.1, rfl, hi.2.2⟩
  · rintro ⟨hlt, himm, hne⟩
    refine ⟨p.shift, ?_, ?_⟩
    · rw [List.mem_filter, decide_eq_true_iff]
      exact ⟨List.mem_finRange _, hlt, hne⟩
    · rw [← himm]

theorem differing_nodup (size : GPRSize) (imm base : BitVec 64) :
    ((differing size imm base).map Part.shift).Nodup := by
  rw [differing, List.map_map]
  exact ((List.nodup_finRange 4).filter _).map fun i j h => h

theorem length_differing_le (size : GPRSize) (imm base : BitVec 64) :
    (differing size imm base).length ≤ maxParts size := by
  have hsub : ((List.finRange 4).filter fun i : Fin 4 =>
      decide (i.val < maxParts size ∧ part imm i.val ≠ part base i.val)).length ≤
      ((List.finRange 4).filter fun i : Fin 4 => decide (i.val < maxParts size)).length := by
    refine List.Sublist.length_le (List.monotone_filter_right _ fun i hi => ?_)
    rw [decide_eq_true_iff] at hi ⊢
    exact hi.1
  have hcount : ((List.finRange 4).filter fun i : Fin 4 => decide (i.val < maxParts size)).length
      = maxParts size := by
    cases size with
    | b32 => decide
    | b64 => decide
  rw [differing, List.length_map]
  omega

/-- What the base of an approach is. -/
def BaseFor (size : GPRSize) (imm pc base : BitVec 64) : Approach → Prop
  | .movzBase => base = 0
  | .movnBase => base = fit size (~~~0)
  | .adrBase => size = .b64 ∧ base = adrBase imm pc
  | .adrpBase => size = .b64 ∧ base = adrpBase imm pc
  | .orrBase => fit size base = base ∧ (LogicalImm.new base size).valid = true

structure Sound (size : GPRSize) (imm pc : BitVec 64) (c : Candidate) : Prop where
  parts : c.parts = differing size imm c.base
  base : BaseFor size imm pc c.base c.approach
  required : instructionsRequired c ≤ maxParts size

theorem Sound.tryBase {c : Candidate} (h : Sound size imm pc c) (base : BitVec 64) (approach : Approach)
    (hbase : BaseFor size imm pc base approach) : Sound size imm pc (tryBase size imm base approach c) := by
  rw [Arm64Gen.tryBase]
  split_ifs with hlt
  · exact ⟨rfl, hbase, le_trans hlt.le h.required⟩
  · exact h

theorem Sound.tryOrr {orrImms : List (BitVec 64)} {c : Candidate} (h : Sound size imm pc c)
    (hfit : ∀ v ∈ orrImms, fit size v = v) : Sound size imm pc (tryOrr size imm orrImms c) := by
  induction orrImms generalizing c with
  | nil => exact h
  | cons v orrImms ih =>
    have htail : ∀ v ∈ orrImms, fit size v = v := fun v hv => hfit v (List.mem_cons_of_mem _ hv)
    rw [Arm64Gen.tryOrr]
    by_cases hvalid : (LogicalImm.new v size).valid = true
    · have hbest := h.tryBase v .orrBase ⟨hfit v List.mem_cons_self, hvalid⟩
      rw [if_pos hvalid]
      dsimp only
      split_ifs
      · exact hbest
      · exact ih hbest htail
    · rw [if_neg hvalid]
      exact ih h htail

theorem fit_orrImms (himm : fit size imm = imm) : ∀ v ∈ orrImms size imm, fit size v = v := by
  intro v hv
  cases size with
  | b64 => rfl
  | b32 =>
    rw [orrImms, List.mem_singleton] at hv
    rw [hv, himm]

/-- The base that is used differs in no more parts than fit. -/
theorem bestBase_sound (himm : fit size imm = imm) : Sound size imm pc (bestBase size imm pc) := by
  have hmovz : Sound size imm pc (candidate size imm 0 .movzBase) :=
    ⟨rfl, rfl, length_differing_le size imm 0⟩
  have hmovn := hmovz.tryBase (fit size (~~~0)) .movnBase rfl
  rw [bestBase]
  have hpc : Sound size imm pc
      (if size = .b64 then
        tryBase size imm (adrBase imm pc) .adrBase (tryBase size imm (adrpBase imm pc) .adrpBase
          (tryBase size imm (fit size (~~~0)) .movnBase (candidate size imm 0 .movzBase)))
      else tryBase size imm (fit size (~~~0)) .movnBase (candidate size imm 0 .movzBase)) := by
    split_ifs with hsize
    · exact (hmovn.tryBase _ .adrpBase ⟨hsize, rfl⟩).tryBase _ .adrBase ⟨hsize, rfl⟩
    · exact hmovn
  split_ifs at hpc ⊢
  · exact hpc.tryOrr (fit_orrImms himm)
  · exact hpc
  · exact hpc.tryOrr (fit_orrImms himm)
  · exact hpc

end Search

/-! ## The instructions -/

section Code

variable {size : GPRSize} {d : Fin 31} {imm pc v : BitVec 64}

/-- A number of 16 bits is in the range of the instruction. -/
theorem encodeMOVWide_eq (inst : ARM64Reg → BitVec 16 → Fin 4 → Inst) (Rd : ARM64Reg) (a : BitVec 16)
    (i : Fin 4) : encodeMOVWide inst Rd (a.setWidth 32) i = some [inst Rd a i] := by
  have hrange : a.setWidth 32 &&& ~~~0xFFFF = 0 := by
    have hmask : ∀ k, (0xFFFF : BitVec 32).getLsbD k = decide (k < 16) :=
      BitRuns.getLsbD_of_low_ones (by decide)
    refine BitVec.eq_of_getLsbD_eq fun k hk => ?_
    rw [BitVec.getLsbD_and, BitVec.getLsbD_not, hmask, BitVec.getLsbD_setWidth]
    by_cases hlow : k < 16
    · simp [hlow]
    · simp [BitVec.getLsbD_of_ge a k (by omega)]
  rw [encodeMOVWide, if_pos hrange, BitVec.setWidth_setWidth_of_le _ (by decide), BitVec.setWidth_eq]

/-- A valid logical immediate is loaded by an `ORR` with zero. -/
theorem tryORRI2R_eq {base : BitVec 64} (hfit : fit size base = base)
    (hvalid : (LogicalImm.new base size).valid = true) :
    tryORRI2R (gpr size d) (zeroReg size) base
        = some ([.orrImm (gpr size d) (zeroReg size) (LogicalImm.new base size)], true) ∧
      Inst.logical size (LogicalImm.new base size) = base := by
  have hsize : (LogicalImm.new base (gpr size d).size).valid = true := hvalid
  rw [tryORRI2R, if_pos hsize]
  cases size with
  | b64 =>
    rw [ORR, if_pos ⟨hsize, .inl rfl⟩]
    refine ⟨rfl, ?_⟩
    rw [Inst.logical, (logicalImm_valid_iff.1 base).2 hvalid]
    rfl
  | b32 =>
    have hwide : (base.setWidth 32).setWidth 64 = base := hfit
    have hdecode := (logicalImm_valid_iff.2 (base.setWidth 32)).2 (by rw [hwide]; exact hvalid)
    rw [hwide] at hdecode
    have hn : (LogicalImm.new base .b32).n = false := by
      by_contra hn
      rw [LogicalImm.decode, LogicalImm.elementSize, if_pos (Bool.eq_true_of_not_eq_false hn)] at hdecode
      cases hdecode
    rw [ORR, if_pos ⟨hsize, .inr hn⟩]
    refine ⟨rfl, ?_⟩
    rw [Inst.logical, hdecode]
    exact hwide

theorem add_low {a : BitVec 16} (h : part v 0 = a &&& 0xF000) :
    v + (a.setWidth 64 &&& 0xFFF) = insert v 0 a := by
  have hmask : ∀ k, (0xFFF : BitVec 64).getLsbD k = decide (k < 12) :=
    BitRuns.getLsbD_of_low_ones (by decide)
  have hbits : ∀ k < 16, v.getLsbD k = (decide (12 ≤ k) && a.getLsbD k) := by
    intro k hk
    have hmask' : ∀ k < 16, (0xF000 : BitVec 16).getLsbD k = decide (12 ≤ k) := by decide
    have hbit := congrArg (fun b => b.getLsbD k) h
    simp only [getLsbD_part, BitVec.getLsbD_and, hmask' k hk, decide_eq_true hk, Bool.true_and, Nat.mul_zero,
      Nat.zero_add] at hbit
    rw [hbit, Bool.and_comm]
  rw [BitVec.add_eq_or_of_and_eq_zero]
  · refine BitVec.eq_of_getLsbD_eq fun k hk => ?_
    rw [getLsbD_insert v a 0 hk, BitVec.getLsbD_or, BitVec.getLsbD_and, hmask, BitVec.getLsbD_setWidth,
      decide_eq_true hk, Nat.mul_zero, Nat.sub_zero]
    by_cases hpart : k < 16
    · rw [if_pos ⟨Nat.zero_le k, by omega⟩, hbits k hpart]
      by_cases hlow : k < 12
      · simp [hlow, Nat.not_le.mpr hlow]
      · simp [hlow, Nat.not_lt.mp hlow]
    · rw [if_neg (by omega), decide_eq_false (show ¬k < 12 by omega), Bool.and_false, Bool.or_false]
  · refine BitVec.eq_of_getLsbD_eq fun k hk => ?_
    rw [BitVec.getLsbD_and, BitVec.getLsbD_and, hmask]
    by_cases hlow : k < 12
    · rw [hbits k (by omega), decide_eq_false (Nat.not_le.mpr hlow)]
      simp
    · simp [hlow]

theorem adrp_low_assert (imm pc : BitVec 64) : (part imm 0).setWidth 64
    = (adrpBase imm pc &&& 0xF000) + ((part imm 0).setWidth 64 &&& 0xFFF) := by
  have hmask : ∀ k < 64, (0xF000 : BitVec 64).getLsbD k = decide (12 ≤ k ∧ k < 16) := by decide
  have hpart : part (adrpBase imm pc &&& 0xF000) 0 = part imm 0 &&& 0xF000 := by
    rw [← part_adrpBase_zero imm pc]
    ext k hk
    rw [← BitVec.getLsbD_eq_getElem, ← BitVec.getLsbD_eq_getElem, getLsbD_part, getLsbD_part, BitVec.getLsbD_and,
      Nat.mul_zero, Nat.zero_add, hmask k (by omega), getLsbD_adrpBase imm pc (by omega)]
    by_cases hlow : 12 ≤ k
    · simp [hlow, hk]
    · simp [hlow]
  rw [add_low hpart]
  refine BitVec.eq_of_getLsbD_eq fun k hk => ?_
  rw [getLsbD_insert _ _ _ hk, BitVec.getLsbD_setWidth, decide_eq_true hk, Bool.true_and]
  by_cases hlow : k < 16
  · rw [if_pos ⟨Nat.zero_le k, by omega⟩]
    rfl
  · rw [if_neg (by omega), BitVec.getLsbD_and, hmask k hk, BitVec.getLsbD_of_ge _ k (by omega)]
    simp [hlow]

theorem low_eq (a : BitVec 16) :
    ((a.setWidth 32 &&& 0xFFF).setWidth 12).setWidth 64 = a.setWidth 64 &&& 0xFFF := by
  have hmask : ∀ k, (0xFFF : BitVec 64).getLsbD k = decide (k < 12) :=
    BitRuns.getLsbD_of_low_ones (by decide)
  have hmask' : ∀ k, (0xFFF : BitVec 32).getLsbD k = decide (k < 12) :=
    BitRuns.getLsbD_of_low_ones (by decide)
  refine BitVec.eq_of_getLsbD_eq fun k hk => ?_
  rw [BitVec.getLsbD_setWidth, BitVec.getLsbD_setWidth, BitVec.getLsbD_and, hmask', BitVec.getLsbD_setWidth,
    BitVec.getLsbD_and, hmask, BitVec.getLsbD_setWidth]
  by_cases hlow : k < 12
  · simp [hlow, hk, show k < 32 by omega]
  · simp [hlow]

/-- What holds of the value in the register before the parts are moved in. -/
structure Uploads (size : GPRSize) (imm : BitVec 64) (approach : Approach) (v : BitVec 64)
    (parts : List Part) : Prop where
  fits : fit size v = v
  pending : ∀ i < 4, part v i ≠ part imm i → ∃ p ∈ parts, p.shift.val = i
  imms : ∀ p ∈ parts, p.imm = part imm p.shift
  nodup : (parts.map Part.shift).Nodup
  pages : approach = .adrpBase → size = .b64 ∧ ∀ p ∈ parts, p.shift = 0 → part v 0 = part imm 0 &&& 0xF000

variable {approach : Approach} {p : Part} {parts : List Part}

theorem Uploads.step (h : Uploads size imm approach v (p :: parts)) (himm : fit size imm = imm) :
    Uploads size imm approach (fit size (insert v p.shift p.imm)) parts := by
  have hnodup := List.nodup_cons.mp (List.map_cons ▸ h.nodup)
  have hparts : ∀ i < 4, i ≠ p.shift.val → i < maxParts size →
      part (fit size (insert v p.shift p.imm)) i = part v i := by
    intro i hi hne hlt
    rw [part_fit size _ hi, if_pos hlt, part_insert _ _ _ hi, if_neg hne]
  refine ⟨fit_fit _ _, ?_, fun q hq => h.imms q (List.mem_cons_of_mem _ hq), hnodup.2, ?_⟩
  · intro i hi hne
    have hlt : i < maxParts size := by
      by_contra hge
      rw [← himm, part_fit size _ hi, part_fit size _ hi, if_neg hge, if_neg hge] at hne
      exact hne rfl
    have hshift : i ≠ p.shift.val := by
      rintro rfl
      rw [part_fit size _ hi, if_pos hlt, part_insert _ _ _ hi, if_pos rfl, h.imms p List.mem_cons_self] at hne
      exact hne rfl
    rw [hparts i hi hshift hlt] at hne
    obtain ⟨q, hq, rfl⟩ := h.pending i hi hne
    rcases List.mem_cons.mp hq with rfl | hq
    · exact absurd rfl hshift
    · exact ⟨q, hq, rfl⟩
  · intro happroach
    obtain ⟨rfl, hpages⟩ := h.pages happroach
    refine ⟨rfl, fun q hq hzero => ?_⟩
    have hne : 0 ≠ p.shift.val := by
      intro h0
      refine hnodup.1 (List.mem_map.mpr ⟨q, hq, ?_⟩)
      rw [hzero]
      exact Fin.ext h0
    rw [hparts 0 (by decide) hne (by decide)]
    exact hpages q (List.mem_cons_of_mem _ hq) hzero

theorem uploadPart_spec (h : Uploads size imm approach v (p :: parts)) :
    ∃ inst : Inst, uploadPart (gpr size d) imm pc approach p = some [inst] ∧ inst.InRange ∧
      ∀ (pc' : BitVec 64) (s : Cpu), inst.exec pc' (s.writeSp (gpr size d) v)
        = s.writeSp (gpr size d) (fit size (insert v p.shift p.imm)) := by
  by_cases hlow : approach = .adrpBase ∧ p.shift = 0
  · obtain ⟨rfl, hpages⟩ := h.pages hlow.1
    have hpart := hpages p List.mem_cons_self hlow.2
    have hp := h.imms p List.mem_cons_self
    rw [hlow.2] at hp
    refine ⟨.addImm false false (gpr .b64 d) (gpr .b64 d) ((p.imm.setWidth 32 &&& 0xFFF).setWidth 12) false,
      ?_, trivial, ?_⟩
    · rw [uploadPart, if_pos hlow, if_pos (by rw [hp]; exact adrp_low_assert imm pc), encodeAddSubImm, if_pos]
      rw [BitVec.and_assoc]
      have hmask : (0xFFF : BitVec 32) &&& ~~~0xFFF = 0 := by decide
      rw [hmask]
      simp
    · intro pc' s
      have hlow' : part v 0 = p.imm &&& 0xF000 := by rw [hpart, hp]; rfl
      have hadd := add_low hlow'
      rw [← low_eq] at hadd
      simp only [Inst.exec, addSub_fst, encodeRegTo_gpr, readSp_gpr, writeSp_x, writeSp_writeSp, gpr_size,
        fit_b64, hlow.2,
        Bool.false_eq_true, if_false]
      rw [hadd]
      rfl
  · refine ⟨.movk (gpr size d) p.imm p.shift, ?_, trivial, ?_⟩
    · rw [uploadPart, if_neg hlow]
      exact encodeMOVWide_eq .movk _ _ _
    · intro pc' s
      simp only [Inst.exec, writeZr_gpr, readZr_gpr, writeSp_x, writeSp_writeSp, h.fits]
      exact writeSp_fit.symm

theorem uploadParts_spec (h : Uploads size imm approach v parts) (himm : fit size imm = imm) :
    ∃ code, uploadParts (gpr size d) imm pc approach parts = some code ∧ code.length = parts.length ∧
      (∀ inst ∈ code, inst.InRange) ∧
      ∀ (pc' : BitVec 64) (s : Cpu), run pc' code (s.writeSp (gpr size d) v) = s.writeSp (gpr size d) imm := by
  induction parts generalizing v with
  | nil =>
    have hv : v = imm := by
      refine part_inj fun i hi => ?_
      by_contra hne
      obtain ⟨p, hp, -⟩ := h.pending i hi hne
      cases hp
    refine ⟨[], rfl, rfl, ?_, fun pc' s => by rw [hv]; rfl⟩
    intro inst hinst
    cases hinst
  | cons p parts ih =>
    obtain ⟨code, hcode, hlength, hrange, hrun⟩ := ih (h.step himm)
    obtain ⟨inst, hemit, hinst, hexec⟩ := @uploadPart_spec _ d _ pc _ _ _ _ h
    refine ⟨inst :: code, ?_, ?_, ?_, ?_⟩
    · rw [uploadParts, hemit, hcode]
      rfl
    · rw [List.length_cons, List.length_cons, hlength]
    · intro i hi
      rcases List.mem_cons.mp hi with rfl | hi
      · exact hinst
      · exact hrange i hi
    · intro pc' s
      rw [run, hexec, hrun]

/-- The parts that the base does not have are still to be moved in. -/
theorem uploads_differing {base : BitVec 64} (hfit : fit size base = base) (himm : fit size imm = imm)
    (hpages : approach = .adrpBase → size = .b64 ∧ base = adrpBase imm pc) :
    Uploads size imm approach base (differing size imm base) := by
  refine ⟨hfit, ?_, fun p hp => (mem_differing.mp hp).2.1, differing_nodup size imm base, ?_⟩
  · intro i hi hne
    refine ⟨⟨part imm i, ⟨i, hi⟩⟩, mem_differing.mpr ⟨?_, rfl, hne.symm⟩, rfl⟩
    by_contra hge
    rw [← hfit, ← himm, part_fit size _ hi, part_fit size _ hi, if_neg hge, if_neg hge] at hne
    exact hne rfl
  · intro happroach
    obtain ⟨hsize, rfl⟩ := hpages happroach
    exact ⟨hsize, fun p _ _ => part_adrpBase_zero imm pc⟩

/-- The first part over a base whose parts are all equal is the part of the base. -/
theorem uploads_headD {base : BitVec 64} (himm : fit size imm = imm) (hfit : fit size base = base)
    (happroach : approach ≠ .adrpBase) :
    Uploads size imm approach
      (fit size (insert base ((differing size imm base).headD ⟨part base 0, 0⟩).shift
        ((differing size imm base).headD ⟨part base 0, 0⟩).imm)) (differing size imm base).tail := by
  have h := @uploads_differing size imm 0 approach base hfit himm fun h => absurd h happroach
  revert h
  cases differing size imm base with
  | nil =>
    intro h
    have hbase : fit size (insert base (0 : Fin 4).val (part base 0)) = base := by
      have hzero := insert_part base 0
      rw [Fin.val_zero, hzero, hfit]
    rw [List.headD_nil, hbase]
    exact h
  | cons p parts => exact fun h => h.step himm

theorem insert_zero (i : ℕ) (a : BitVec 16) : insert 0 i a = a.setWidth 64 <<< (16 * i) := by
  simp [insert]

theorem insert_ones (i : ℕ) (a : BitVec 16) :
    insert (~~~0) i a = ~~~((~~~a).setWidth 64 <<< (16 * i)) := by
  refine BitVec.eq_of_getLsbD_eq fun n hn => ?_
  rw [getLsbD_insert _ _ _ hn, BitVec.getLsbD_not, BitVec.getLsbD_not, BitVec.getLsbD_shiftLeft,
    BitVec.getLsbD_setWidth, BitVec.getLsbD_not, decide_eq_true hn]
  split_ifs with hpart
  · simp [show ¬n < 16 * i by omega, show n - 16 * i < 16 by omega, show n - 16 * i < 64 by omega]
  · by_cases hlow : n < 16 * i
    · simp [hlow, hn]
    · simp [hn, show ¬n - 16 * i < 16 by omega]

theorem fit_insert (w : BitVec 64) (i : ℕ) (a : BitVec 16) :
    fit size (insert (fit size w) i a) = fit size (insert w i a) := by
  refine part_inj fun j hj => ?_
  rw [part_fit size _ hj, part_fit size _ hj, part_insert _ _ _ hj, part_insert _ _ _ hj, part_fit size _ hj]
  split_ifs
  · rfl
  · rfl
  · rfl

/-- The value with which the register is overwritten. -/
theorem loadBase_spec {c : Candidate} (h : Sound size imm pc c) (himm : fit size imm = imm) :
    ∃ inst parts w, loadBase (gpr size d) imm pc c = some ([inst], parts) ∧ inst.InRange ∧
      parts.length + 1 ≤ maxParts size ∧ Uploads size imm c.approach w parts ∧
      ∀ s : Cpu, inst.exec pc s = s.writeSp (gpr size d) w := by
  obtain ⟨hparts, hbase, hrequired⟩ := h
  obtain ⟨parts, approach, base⟩ := c
  dsimp only at hparts hbase hrequired ⊢
  subst hparts
  have hone : 1 ≤ maxParts size := by
    cases size with
    | b32 => decide
    | b64 => decide
  cases approach with
  | movzBase =>
    obtain rfl : base = 0 := hbase
    have huploads := @uploads_headD size imm .movzBase 0 himm (fit_zero size) (by decide)
    refine ⟨.movz (gpr size d) ((differing size imm 0).headD ⟨0, 0⟩).imm ((differing size imm 0).headD ⟨0, 0⟩).shift,
      _, _, ?_, trivial, ?_, huploads, fun s => ?_⟩
    · rw [loadBase, MOVZ]
      simp only [encodeMOVWide_eq, Option.map_some]
    · have hlength : (differing size imm 0).length ≤ maxParts size := hrequired
      rw [List.length_tail]
      omega
    · rw [Inst.exec, writeZr_gpr, insert_zero]
      exact writeSp_fit.symm
  | movnBase =>
    obtain rfl : base = fit size (~~~0) := hbase
    have huploads := @uploads_headD size imm .movnBase (fit size (~~~0)) himm (fit_fit size (~~~0)) (by decide)
    have hpart : part (fit size (~~~0)) 0 = 0xFFFF := by
      cases size with
      | b32 => decide
      | b64 => decide
    rw [hpart] at huploads
    refine ⟨.movn (gpr size d) (~~~((differing size imm (fit size (~~~0))).headD ⟨0xFFFF, 0⟩).imm)
      ((differing size imm (fit size (~~~0))).headD ⟨0xFFFF, 0⟩).shift, _, _, ?_, trivial, ?_, huploads,
      fun s => ?_⟩
    · rw [loadBase, MOVN]
      simp only [encodeMOVWide_eq, Option.map_some]
    · have hlength : (differing size imm (fit size (~~~0))).length ≤ maxParts size := hrequired
      rw [List.length_tail]
      omega
    · rw [Inst.exec, writeZr_gpr, ← insert_ones, fit_insert]
      exact writeSp_fit.symm
  | adrBase =>
    obtain ⟨rfl, rfl⟩ := hbase
    refine ⟨.adr (gpr .b64 d) ((adrOffset imm pc).setWidth 32), _, adrBase imm pc, rfl, sext21_range _, hrequired,
      @uploads_differing _ imm pc .adrBase _ rfl rfl (fun h => absurd h (by decide)), fun s => ?_⟩
    rw [Inst.exec, writeZr_gpr, adrOffset, offset_sext21]
    rfl
  | adrpBase =>
    obtain ⟨rfl, rfl⟩ := hbase
    refine ⟨.adrp (gpr .b64 d) (((adrpOffset imm pc).sshiftRight 12).setWidth 32), _, adrpBase imm pc, rfl, ?_,
      hrequired, uploads_differing rfl rfl (fun _ => ⟨rfl, rfl⟩), fun s => ?_⟩
    · rw [Inst.InRange, adrpOffset_pages]
      exact sext21_range _
    · rw [Inst.exec, writeZr_gpr, adrpOffset_pages, offset_sext21]
      rfl
  | orrBase =>
    obtain ⟨hfit, hvalid⟩ := hbase
    obtain ⟨hemit, hvalue⟩ := @tryORRI2R_eq size d base hfit hvalid
    refine ⟨.orrImm (gpr size d) (zeroReg size) (LogicalImm.new base size), _, base, ?_, trivial, hrequired,
      @uploads_differing _ imm pc .orrBase _ hfit himm (fun h => absurd h (by decide)), fun s => ?_⟩
    · rw [loadBase]
      simp only [gpr_size]
      rw [hemit]
      rfl
    · rw [Inst.exec, readZr_zeroReg]
      simp only [zeroReg]
      rw [hvalue]
      simp

theorem movi2r_spec (size : GPRSize) (d : Fin 31) (imm pc : BitVec 64) :
    ∃ code, MOVI2R (gpr size d) imm pc = some code ∧ code.length ≤ maxParts size ∧
      (∀ inst ∈ code, inst.InRange) ∧
      ∀ s : Cpu, run pc code s = s.writeSp (gpr size d) (fit size imm) := by
  have himm := fit_fit size imm
  have hsound := @bestBase_sound size (fit size imm) pc himm
  obtain ⟨inst, parts, w, hload, hinst, hlength, huploads, hexec⟩ := @loadBase_spec size d _ _ _ hsound himm
  obtain ⟨code, hcode, hcount, hrange, hrun⟩ := @uploadParts_spec size d _ pc _ _ _ huploads himm
  refine ⟨inst :: code, ?_, ?_, ?_, fun s => ?_⟩
  · rw [MOVI2R, movi2rImpl]
    simp only [gpr_size]
    rw [hload]
    simp only [Option.bind_eq_bind, Option.bind_some]
    rw [hcode]
    rfl
  · rw [List.length_cons, hcount]
    exact hlength
  · intro i hi
    rcases List.mem_cons.mp hi with rfl | hi
    · exact hinst
    · exact hrange i hi
  · rw [run, hexec, hrun]

/-- **Constants are loaded**: whatever the registers held, the register holds the constant and the others
are as they were. -/
theorem movi2r_loads (size : GPRSize) (d : Fin 31) (imm pc : BitVec 64) :
    ∃ code, MOVI2R (gpr size d) imm pc = some code ∧ code.length ≤ maxParts size ∧
      (∀ inst ∈ code, inst.InRange) ∧
      ∀ s : Cpu, (run pc code s).x d.castSucc = fit size imm ∧
        (∀ n ≠ d.castSucc, (run pc code s).x n = s.x n) ∧ (run pc code s).flags = s.flags := by
  obtain ⟨code, hcode, hlength, hrange, hrun⟩ := movi2r_spec size d imm pc
  refine ⟨code, hcode, hlength, hrange, fun s => ?_⟩
  rw [hrun]
  exact ⟨by simp, fun n hn => writeSp_x_of_ne hn, rfl⟩

end Code

end Arm64Gen
