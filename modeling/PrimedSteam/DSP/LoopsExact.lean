import PrimedSteam.DSP.LoopMarks

/-!
# Loops run exactly

`Inside` is what the stacks hold while a block is repeated. `exact_of_endsWell` runs a program that ends
its blocks well; `endsWell_of_exact` finds the first block that does not.

* **`loops_exact_iff`**: a program runs as it should if and only if each block that is entered ends with
  an instruction of one word, and no count is taken from a stack.
-/

set_option autoImplicit false

namespace DSP.Interpreter

variable {ρ : Type*} {core : Core ρ} {image : Image} {s s' : SDSP ρ}

/-! ## Code -/

namespace Code

theorem lastSize_bounds {c : Code} (h : c.closed = true) : 1 ≤ c.lastSize ∧ c.lastSize ≤ 2 := by
  induction c with
  | stop => simp [closed] at h
  | last word operand => exact wordSize_bounds word
  | inst word operand rest ih => exact ih h
  | block word body rest _ ih => exact ih h

theorem size_eq {c : Code} (h : c.closed = true) : c.size = c.lastOffset + c.lastSize := by
  induction c with
  | stop => simp [closed] at h
  | last word operand => exact (Nat.zero_add _).symm
  | inst word operand rest ih =>
    simp only [size, lastOffset, lastSize, ih h]
    omega
  | block word body rest _ ih =>
    simp only [size, lastOffset, lastSize, ih h]
    omega

end Code

/-! ## Stacks -/

theorem Restored.refl (used : ℕ) (s : SDSP ρ) : Restored used s s :=
  ⟨rfl, rfl, fun _ _ _ => rfl⟩

theorem Restored.mono {used used' : ℕ} (h : Restored used s s') (hle : used ≤ used') :
    Restored used' s s' :=
  ⟨h.st, h.regStackPtrs, fun reg place hplace =>
    h.regStacks reg place fun k hlow hhigh => hplace k hlow (hhigh.trans hle)⟩

theorem Restored.trans {used : ℕ} {s'' : SDSP ρ} (h : Restored used s s') (h' : Restored used s' s'') :
    Restored used s s'' := by
  refine ⟨h'.st.trans h.st, h'.regStackPtrs.trans h.regStackPtrs, fun reg place hplace => ?_⟩
  rw [h'.regStacks reg place, h.regStacks reg place hplace]
  rw [h.regStackPtrs]
  exact hplace

/-- The three pops at the end of a loop. -/
def leaveLoop (s : SDSP ρ) : SDSP ρ :=
  (((s.popStack .call).2.popStack .loopAddress).2.popStack .loopCounter).2

section

variable (loopPc cnt : Word) (s)

theorem enterLoop_st : (enterLoop loopPc cnt s).st = fun
    | .call => s.pc
    | .data => s.st .data
    | .loopAddress => loopPc
    | .loopCounter => cnt := by
  funext reg
  cases reg <;> simp [enterLoop, SDSP.storeStack]

theorem enterLoop_ptrs : (enterLoop loopPc cnt s).regStackPtrs = fun reg =>
    if reg = .data then s.regStackPtrs reg else s.regStackPtrs reg + 1 := by
  funext reg
  cases reg <;> simp [enterLoop, SDSP.storeStack]

theorem enterLoop_stacks (reg : StackRegister) : (enterLoop loopPc cnt s).regStacks reg =
    if reg = .data then s.regStacks reg
    else Function.update (s.regStacks reg) (s.regStackPtrs reg + 1) (s.st reg) := by
  cases reg <;> simp [enterLoop, SDSP.storeStack]

theorem leaveLoop_st : (leaveLoop s).st = fun reg =>
    if reg = .data then s.st reg else s.regStacks reg (s.regStackPtrs reg) := by
  funext reg
  cases reg <;> simp [leaveLoop, SDSP.popStack]

theorem leaveLoop_ptrs : (leaveLoop s).regStackPtrs = fun reg =>
    if reg = .data then s.regStackPtrs reg else s.regStackPtrs reg - 1 := by
  funext reg
  cases reg <;> simp [leaveLoop, SDSP.popStack]

end

/-- The loop registers name an instruction that has just been run. -/
def Fires (s : SDSP ρ) : Prop :=
  (0 < s.st .loopAddress ∧ 0 < s.st .loopCounter) ∧ s.pc.toNat = (s.st .loopAddress).toNat + 1

theorem handleLoop_of_not_fires (h : ¬Fires s) : handleLoop s = s := by
  unfold handleLoop
  dsimp only
  split_ifs with harmed hpc
  · exact absurd ⟨harmed, hpc⟩ h
  · exact absurd ⟨harmed, hpc⟩ h
  · rfl
  · rfl

theorem handleLoop_of_fires (h : Fires s) : handleLoop s =
    if 0 < s.st .loopCounter - 1 then
      { s with st := Function.update s.st .loopCounter (s.st .loopCounter - 1), pc := s.st .call }
    else leaveLoop { s with st := Function.update s.st .loopCounter (s.st .loopCounter - 1) } := by
  unfold handleLoop
  dsimp only
  rw [if_pos h.1, if_pos h.2]
  simp only [Function.update_self]
  rfl

/-! ## Inside a block -/

/-- What the stacks hold while a block is repeated: the loop on top, and below it what was there. -/
structure Inside (s : SDSP ρ) (used start last counter : ℕ) (t : SDSP ρ) : Prop where
  st : t.st = fun
    | .call => loc start
    | .data => s.st .data
    | .loopAddress => loc last
    | .loopCounter => .ofNat 16 counter
  ptrs : t.regStackPtrs = fun reg =>
    if reg = .data then s.regStackPtrs reg else s.regStackPtrs reg + 1
  top : ∀ reg, reg ≠ .data → t.regStacks reg (s.regStackPtrs reg + 1) = s.st reg
  below : ∀ reg place, (∀ k, 1 ≤ k → k ≤ used + 1 → place ≠ s.regStackPtrs reg + .ofNat 5 k) →
    t.regStacks reg place = s.regStacks reg place

theorem place_ne {p : BitVec 5} {k : ℕ} (hlow : 1 ≤ k) (hhigh : k ≤ 31) : p ≠ p + .ofNat 5 k := by
  intro heq
  have hzero : (BitVec.ofNat 5 k).toNat = 0 := by
    have htoNat := congrArg BitVec.toNat heq
    simp only [BitVec.toNat_add, BitVec.toNat_ofNat] at htoNat ⊢
    have hlt := p.isLt
    omega
  simp only [BitVec.toNat_ofNat] at hzero
  omega

theorem place_succ (p : BitVec 5) (k : ℕ) : p + 1 + .ofNat 5 k = p + .ofNat 5 (k + 1) := by
  rw [BitVec.ofNat_add, BitVec.add_comm (BitVec.ofNat 5 k), ← BitVec.add_assoc]
  rfl

theorem inside_enterLoop {used start last cnt : ℕ} (hpc : s.pc = loc start) :
    Inside s used start last cnt (enterLoop (loc last) (.ofNat 16 cnt) s) where
  st := by rw [enterLoop_st, hpc]
  ptrs := enterLoop_ptrs _ _ _
  top reg hreg := by rw [enterLoop_stacks, if_neg hreg, Function.update_self]
  below reg place hplace := by
    rw [enterLoop_stacks]
    split_ifs
    · rfl
    · rw [Function.update_of_ne]
      exact hplace 1 le_rfl (by omega)

theorem Inside.restored {used start last counter : ℕ} {t t' : SDSP ρ}
    (h : Inside s used start last counter t) (hused : used ≤ 31) (ht : Restored used t t') :
    Inside s used start last counter t' where
  st := ht.st.trans h.st
  ptrs := ht.regStackPtrs.trans h.ptrs
  top reg hreg := by
    rw [ht.regStacks, h.top reg hreg]
    intro k hlow hhigh
    rw [h.ptrs]
    simp only [hreg, if_false]
    exact place_ne hlow (hhigh.trans hused)
  below reg place hplace := by
    rw [ht.regStacks, h.below reg place hplace]
    intro k hlow hhigh
    rw [h.ptrs]
    dsimp only
    split_ifs
    · exact hplace k hlow (by omega)
    · rw [place_succ]
      exact hplace (k + 1) (by omega) (by omega)

theorem Inside.fires {used start last counter : ℕ} {t : SDSP ρ}
    (h : Inside s used start last counter t) (hlast : 0 < last ∧ last + 1 < 65536)
    (hcounter : 0 < counter ∧ counter < 65536) (hpc : t.pc = loc (last + 1)) : Fires t := by
  refine ⟨⟨?_, ?_⟩, ?_⟩
  · rw [h.st, BitVec.lt_def, loc_toNat (by omega)]
    exact hlast.1
  · rw [h.st, BitVec.lt_def, BitVec.toNat_ofNat, Nat.mod_eq_of_lt hcounter.2]
    exact hcounter.1
  · rw [hpc, h.st, loc_toNat (by omega), loc_toNat (by omega)]

theorem ofNat_sub_one {n : ℕ} (hn : 0 < n) :
    BitVec.ofNat 16 n - 1 = BitVec.ofNat 16 (n - 1) := by
  have hsplit : BitVec.ofNat 16 n = BitVec.ofNat 16 (n - 1) + 1 := by
    conv_lhs => rw [← Nat.sub_add_cancel hn]
    exact BitVec.ofNat_add ..
  rw [hsplit, BitVec.add_sub_cancel]

theorem Inside.again {used start last counter : ℕ} {t : SDSP ρ}
    (h : Inside s used start last counter t) (hlast : 0 < last ∧ last + 1 < 65536)
    (hcounter : 1 < counter ∧ counter < 65536) (hpc : t.pc = loc (last + 1)) :
    Inside s used start last (counter - 1) (handleLoop t) ∧ (handleLoop t).pc = loc start ∧
      (handleLoop t).regs = t.regs ∧ (handleLoop t).exceptions = t.exceptions := by
  have hfires := h.fires hlast ⟨by omega, hcounter.2⟩ hpc
  have hst : t.st .loopCounter - 1 = BitVec.ofNat 16 (counter - 1) := by
    rw [h.st]
    exact ofNat_sub_one (by omega)
  have hpos : 0 < t.st .loopCounter - 1 := by
    rw [hst, BitVec.lt_def, BitVec.toNat_ofNat, Nat.mod_eq_of_lt (by omega)]
    exact Nat.sub_pos_of_lt hcounter.1
  rw [handleLoop_of_fires hfires, if_pos hpos]
  refine ⟨⟨?_, h.ptrs, h.top, h.below⟩, ?_, rfl, rfl⟩
  · rw [hst, h.st]
    funext reg
    cases reg <;> simp
  · rw [h.st]

theorem Inside.leave {used start last : ℕ} {t : SDSP ρ} (h : Inside s used start last 1 t)
    (hlast : 0 < last ∧ last + 1 < 65536) (hpc : t.pc = loc (last + 1)) :
    Restored (used + 1) s (handleLoop t) ∧ (handleLoop t).pc = t.pc ∧
      (handleLoop t).regs = t.regs ∧ (handleLoop t).exceptions = t.exceptions := by
  have hfires := h.fires hlast (by decide) hpc
  have hone : t.st .loopCounter = 1 := by
    rw [h.st]
    rfl
  have hzero : ¬ 0 < t.st .loopCounter - 1 := by
    rw [hone]
    decide
  rw [handleLoop_of_fires hfires, if_neg hzero]
  refine ⟨⟨?_, ?_, h.below⟩, rfl, rfl, rfl⟩
  · rw [leaveLoop_st]
    funext reg
    dsimp only
    split_ifs with hreg
    · rw [h.st, hreg]
      simp
    · rw [h.ptrs]
      simp only [hreg, if_false]
      exact h.top reg hreg
  · rw [leaveLoop_ptrs]
    funext reg
    dsimp only
    rw [h.ptrs]
    dsimp only
    split_ifs
    · rfl
    · exact BitVec.add_sub_cancel ..

/-! ## One step -/

/-- The test of the loop registers after an instruction. -/
def testLoop (image : Image) (s : SDSP ρ) : SDSP ρ :=
  if isLoopEnd (analyze image) (s.pc - 1) then handleLoop s else s

theorem testLoop_of_not_fires (h : ¬Fires s) : testLoop image s = s := by
  rw [testLoop, handleLoop_of_not_fires h, ite_self]

theorem step_eq {a : ℕ} (hpc : s.pc = loc a) (hex : s.exceptions = 0) :
    step core image s = testLoop image
      (executeInstruction core image (image.readImem (loc a)) { s with pc := loc (a + 1) }) := by
  have hnext : loc a + 1 = loc (a + 1) := loc_add a 1
  simp only [step, SDSP.checkExceptions, hex, if_true, SDSP.fetchInstruction, hpc, hnext]
  rfl

/-- A straight-line instruction, before the test of the loop registers. -/
def goOn (core : Core ρ) (word operand : Word) (a : ℕ) (s : SDSP ρ) : SDSP ρ :=
  { s with pc := loc (a + wordSize word)
           regs := core.straight word (operandOf word operand) s.regs }

variable (core) in
theorem step_straight {a : ℕ} {word operand : Word} (hpc : s.pc = loc a) (hex : s.exceptions = 0)
    (hword : image.readImem (loc a) = word) (hoperand : image.readImem (loc (a + 1)) = operand)
    (hstraight : straightLine word = true) :
    step core image s = testLoop image (goOn core word operand a s) := by
  have hbranches := (straightLine_iff.mp hstraight).2.1
  have hnext : loc (a + 1) + 1 = loc (a + 2) := loc_add (a + 1) 1
  rw [step_eq hpc hex, hword, goOn, wordSize_straight hstraight, operandOf]
  congr 1
  unfold executeInstruction
  split
  next hop => simp [hop, Handler.branches] at hbranches
  next hop => simp [hop, Handler.branches] at hbranches
  next hop => simp [hop, Handler.branches] at hbranches
  next hop => simp [hop, Handler.branches] at hbranches
  next =>
    rw [if_pos hstraight]
    by_cases hfetches : (getOp word).fetches = true
    · simp only [hfetches, if_true, SDSP.fetchInstruction, hoperand, hnext]
    · simp only [hfetches, if_false, Bool.false_eq_true]

/-! ## Contexts -/

/-- No loop that is on the stacks ends between two addresses. -/
def Quiet (st : StackRegister → Word) (low high : ℕ) : Prop :=
  ∀ b, low ≤ b → b < high →
    ¬((0 < st .loopAddress ∧ 0 < st .loopCounter) ∧ (st .loopAddress).toNat = b)

theorem Quiet.not_fires {low high b : ℕ} (h : Quiet s.st low high) (hlow : low < b) (hhigh : b ≤ high)
    (hbound : b < 65536) (hpc : s.pc = loc b) : ¬Fires s := by
  rintro ⟨harmed, heq⟩
  rw [hpc, loc_toNat hbound] at heq
  exact h (b - 1) (by omega) (by omega) ⟨harmed, by omega⟩

/-- Code where no loop on the stacks ends, or the body of the block on top. -/
def Context (flags : CodeMap) (c : Code) (a : ℕ) (st : StackRegister → Word) : Prop :=
  Quiet st a (a + c.size) ∨ (c.closed = true ∧ st .loopAddress = loc (a + c.lastOffset) ∧
    isLoopEnd flags (loc (a + c.lastOffset)) = true)

theorem Context.quiet {flags : CodeMap} {c : Code} {a : ℕ} {st : StackRegister → Word}
    (h : Context flags c a st) (size : ℕ) (hbound : a + c.size < 65536) (hsize : size ≤ c.size)
    (hlast : c.closed = true → size ≤ c.lastOffset) : Quiet st a (a + size) := by
  intro b hlow hhigh harmed
  rcases h with hquiet | ⟨hclosed, haddress, -⟩
  · exact hquiet b hlow (by omega) harmed
  · have hsize' := Code.size_eq hclosed
    have hlast' := hlast hclosed
    have heq := harmed.2
    rw [haddress, loc_toNat (by omega)] at heq
    omega

theorem Context.inst {flags : CodeMap} {word operand : Word} {rest : Code} {a : ℕ}
    {st : StackRegister → Word} (h : Context flags (.inst word operand rest) a st) :
    Context flags rest (a + wordSize word) st := by
  rcases h with hquiet | ⟨hclosed, haddress, hmarked⟩
  · left
    intro b hlow hhigh
    exact hquiet b (by omega) (by simp only [Code.size]; omega)
  · right
    simp only [Code.lastOffset, ← Nat.add_assoc] at haddress hmarked
    exact ⟨hclosed, haddress, hmarked⟩

theorem Context.block {flags : CodeMap} {word : Word} {body rest : Code} {a : ℕ}
    {st : StackRegister → Word} (h : Context flags (.block word body rest) a st) :
    Context flags rest (a + wordSize word + body.size) st := by
  rcases h with hquiet | ⟨hclosed, haddress, hmarked⟩
  · left
    intro b hlow hhigh
    exact hquiet b (by omega) (by simp only [Code.size]; omega)
  · right
    simp only [Code.lastOffset, ← Nat.add_assoc] at haddress hmarked
    exact ⟨hclosed, haddress, hmarked⟩

theorem testLoop_last {c : Code} {a : ℕ} (hclosed : c.closed = true)
    (h : Context (analyze image) c a s.st) (hbound : a + c.size < 65536)
    (hpc : s.pc = loc (a + c.size)) : testLoop image s = handleLoop s := by
  by_cases hfires : Fires s
  · rcases h with hquiet | ⟨-, haddress, hmarked⟩
    · have hpos := (Code.lastSize_bounds hclosed).1
      have hsize := Code.size_eq hclosed
      exact absurd hfires (hquiet.not_fires (by omega) le_rfl hbound hpc)
    · have hsize := Code.size_eq hclosed
      have heq := hfires.2
      rw [hpc, haddress, loc_toNat hbound, loc_toNat (by omega)] at heq
      have hprev : s.pc - 1 = loc (a + c.lastOffset) := by
        rw [hpc, heq]
        exact ofNat_sub_one (Nat.succ_pos _)
      rw [testLoop, hprev, if_pos hmarked]
  · rw [testLoop_of_not_fires hfires, handleLoop_of_not_fires hfires]

/-! ## The loop instructions -/

/-- The count of a loop instruction, and the state after it is read. -/
def counted (core : Core ρ) (word : Word) (s : SDSP ρ) : Word × SDSP ρ :=
  if getOp word = .loop ∨ getOp word = .bloop then opReadRegister core (word &&& 0x1f).toNat s
  else (word &&& 0xff, s)

theorem blockCount_eq (word : Word) : blockCount core word s = (counted core word s).1.toNat := by
  unfold blockCount counted
  split_ifs <;> rfl

variable (core s) in
theorem counted_pc (word pc : Word) :
    counted core word { s with pc := pc } =
      ((counted core word s).1, { (counted core word s).2 with pc := pc }) := by
  unfold counted opReadRegister
  split_ifs
  · cases stackRegister (word &&& 0x1f).toNat <;> rfl
  · rfl

variable (core s) in
theorem counted_frame (word : Word) : (counted core word s).2.pc = s.pc ∧
    (counted core word s).2.exceptions = s.exceptions ∧ (counted core word s).2.regs = s.regs := by
  unfold counted opReadRegister
  split_ifs
  · cases stackRegister (word &&& 0x1f).toNat <;> exact ⟨rfl, rfl, rfl⟩
  · exact ⟨rfl, rfl, rfl⟩

variable (core s) in
theorem counted_of_not_stack {word : Word} (h : countsStack word = false) :
    (counted core word s).1.toNat = countOf core word s.regs ∧ (counted core word s).2 = s := by
  unfold counted countOf opReadRegister
  split_ifs with hop
  · have hnone : stackRegister (word &&& 0x1f).toNat = none := by
      simp only [countsStack, Bool.and_eq_false_iff, Bool.or_eq_false_iff, beq_eq_false_iff_ne] at h
      rcases h with h | h
      · exact absurd hop (by simp [h])
      · simpa using h
    rw [hnone]
    exact ⟨rfl, rfl⟩
  · exact ⟨rfl, rfl⟩

variable (core s) in
theorem counted_of_stack {word : Word} (h : countsStack word = true) :
    ∃ stack, (counted core word s).2.regStackPtrs =
      Function.update s.regStackPtrs stack (s.regStackPtrs stack - 1) := by
  simp only [countsStack, Bool.and_eq_true, Bool.or_eq_true, beq_iff_eq, Option.isSome_iff_exists] at h
  obtain ⟨hop, stack, hstack⟩ := h
  refine ⟨stack, ?_⟩
  unfold counted opReadRegister
  rw [if_pos hop, hstack]
  rfl

/-- A block in memory. -/
structure BlockAt (image : Image) (word : Word) (body : Code) (a : ℕ) : Prop where
  word_eq : image.readImem (loc a) = word
  closed : body.closed = true
  kind : (isLoop word = true ∧ body.isLast = true) ∨ (isBloop word = true ∧
    image.readImem (loc (a + 1)) = loc (a + wordSize word + body.lastOffset))
  body_at : At image body (a + wordSize word)
  marked : isLoopEnd (analyze image) (loc (a + wordSize word + body.lastOffset)) = true
  bound : a + wordSize word + body.size < 65536
  depth : body.depth ≤ 31

theorem At.lastSize {c : Code} {a : ℕ} (hat : At image c a) (hclosed : c.closed = true) :
    (image.template (loc (a + c.lastOffset))).size = c.lastSize := by
  induction c generalizing a with
  | stop => simp [Code.closed] at hclosed
  | last word operand =>
    rw [Image.template, Code.lastOffset, Nat.add_zero, hat.1]
    rfl
  | inst word operand rest ih =>
    have hrest := ih hat.2.2.2 hclosed
    rwa [Nat.add_assoc] at hrest
  | block word body rest _ ih =>
    have hrest := ih hat.2.2.2.2 hclosed
    rwa [Nat.add_assoc (a + wordSize word), Nat.add_assoc a, ← Nat.add_assoc (wordSize word)] at hrest

namespace BlockAt

variable {word : Word} {body : Code} {a : ℕ}

/-- What a loop instruction does, before the test of the loop registers. -/
theorem execute (h : BlockAt image word body a) :
    executeInstruction core image word { s with pc := loc (a + 1) } =
      if (counted core word s).1 ≠ 0 then
        enterLoop (loc (a + wordSize word + body.lastOffset)) (counted core word s).1
          { (counted core word s).2 with pc := loc (a + wordSize word) }
      else { (counted core word s).2 with pc := loc (a + wordSize word + body.size) } := by
  have hskip : ∀ t : SDSP ρ,
      { t with pc := loc (a + wordSize word + body.lastOffset) }.skipInstruction image =
        { t with pc := loc (a + wordSize word + body.size) } := by
    intro t
    rw [SDSP.skipInstruction, h.body_at.lastSize h.closed, Code.size_eq h.closed, ← Nat.add_assoc]
    exact congrArg (fun pc => ({ t with pc := pc } : SDSP ρ)) (loc_add _ _)
  have hpc := counted_pc core s word (loc (a + 1))
  rcases h.kind with ⟨hloop, hlast⟩ | ⟨hbloop, hend⟩
  · have hoffset : body.lastOffset = 0 := by
      cases body with
      | last _ _ => rfl
      | stop | inst _ _ _ | block _ _ _ => simp [Code.isLast] at hlast
    rw [wordSize_isLoop hloop, hoffset, Nat.add_zero] at hskip ⊢
    rw [← hskip]
    rw [isLoop, Bool.or_eq_true, beq_iff_eq, beq_iff_eq] at hloop
    rcases hloop with hop | hop
    · have hread := hpc
      simp only [counted, hop, true_or, if_true] at hread
      simp only [executeInstruction, hop, loop, hread, counted, true_or, if_true]
    · simp only [executeInstruction, hop, loopi, counted, reduceCtorEq, or_self, if_false]
  · have hnext : loc (a + 1) + 1 = loc (a + 2) := loc_add (a + 1) 1
    rw [← hskip]
    rw [wordSize_isBloop hbloop] at hend ⊢
    rw [isBloop, Bool.or_eq_true, beq_iff_eq, beq_iff_eq] at hbloop
    rcases hbloop with hop | hop
    · have hread := hpc
      simp only [counted, hop, or_true, if_true] at hread
      simp only [executeInstruction, hop, bloop, hread, counted, or_true, if_true,
        SDSP.fetchInstruction, hend, hnext]
    · simp only [executeInstruction, hop, bloopi, counted, reduceCtorEq, or_self, if_false,
        SDSP.fetchInstruction, hend, hnext]

theorem step_zero (h : BlockAt image word body a) (hpc : s.pc = loc a) (hex : s.exceptions = 0)
    (hcount : blockCount core word s = 0) :
    step core image s = testLoop image
      { (counted core word s).2 with pc := loc (a + wordSize word + body.size) } := by
  have hzero : (counted core word s).1 = 0 := by
    rw [blockCount_eq] at hcount
    exact BitVec.eq_of_toNat_eq hcount
  rw [step_eq hpc hex, h.word_eq, h.execute, if_neg (not_not_intro hzero)]

theorem step_enter (h : BlockAt image word body a) (hpc : s.pc = loc a) (hex : s.exceptions = 0)
    (hcount : blockCount core word s ≠ 0) :
    Inside (counted core word s).2 body.depth (a + wordSize word)
        (a + wordSize word + body.lastOffset) (blockCount core word s) (step core image s) ∧
      (step core image s).pc = loc (a + wordSize word) ∧ (step core image s).exceptions = 0 ∧
      (step core image s).regs = s.regs := by
  have hne : (counted core word s).1 ≠ 0 := by
    intro hzero
    rw [blockCount_eq, hzero] at hcount
    exact hcount rfl
  have hcnt : (counted core word s).1 = .ofNat 16 (blockCount core word s) := by
    rw [blockCount_eq, BitVec.ofNat_toNat, BitVec.setWidth_eq]
  have hin : Inside (counted core word s).2 body.depth (a + wordSize word)
      (a + wordSize word + body.lastOffset) (blockCount core word s)
      (enterLoop (loc (a + wordSize word + body.lastOffset)) (.ofNat 16 (blockCount core word s))
        { (counted core word s).2 with pc := loc (a + wordSize word) }) := by
    have hin' : Inside { (counted core word s).2 with pc := loc (a + wordSize word) } body.depth
        (a + wordSize word) (a + wordSize word + body.lastOffset) (blockCount core word s) _ :=
      inside_enterLoop rfl
    exact ⟨hin'.st, hin'.ptrs, hin'.top, hin'.below⟩
  have hframe := counted_frame core s word
  have hstep : step core image s =
      enterLoop (loc (a + wordSize word + body.lastOffset)) (.ofNat 16 (blockCount core word s))
        { (counted core word s).2 with pc := loc (a + wordSize word) } := by
    rw [step_eq hpc hex, h.word_eq, h.execute, if_pos hne, hcnt]
    refine testLoop_of_not_fires ?_
    rintro ⟨-, heq⟩
    have hsize := Code.size_eq h.closed
    have hbound := h.bound
    rw [hin.st] at heq
    have hstart : (loc (a + wordSize word)).toNat =
        (loc (a + wordSize word + body.lastOffset)).toNat + 1 := heq
    rw [loc_toNat (by omega), loc_toNat (by omega)] at hstart
    omega
  rw [hstep]
  exact ⟨hin, rfl, hframe.2.1.trans hex, hframe.2.2⟩

end BlockAt

/-! ## Programs that end well -/

/-- A program has been run, but for the test of the loop registers after its last instruction. -/
structure Ran (core : Core ρ) (c : Code) (a : ℕ) (s s' : SDSP ρ) : Prop where
  pc : s'.pc = loc (a + c.size)
  exceptions : s'.exceptions = 0
  regs : s'.regs = meaning core c s.regs
  restored : Restored c.depth s s'

/-- From any state where the program may start and ends well, it runs exactly. -/
def Runs (core : Core ρ) (image : Image) (c : Code) (a : ℕ) : Prop :=
  ∀ s : SDSP ρ, s.pc = loc a → s.exceptions = 0 → Context (analyze image) c a s.st →
    EndsWell core c s.regs →
      ∃ s', Ran core c a s s' ∧ after core image c s = (if c.closed then handleLoop s' else s') ∧
        ∀ exit, (after core image c s).pc = loc exit → Exact core image c a exit s

/-- A turn of a block begins. -/
structure Turn (core : Core ρ) (body : Code) (s : SDSP ρ) (start count i : ℕ) (t : SDSP ρ) : Prop where
  inside : Inside s body.depth start (start + body.lastOffset) (count - i) t
  pc : t.pc = loc start
  exceptions : t.exceptions = 0
  regs : t.regs = (meaning core body)^[i] s.regs

theorem Turn.runs {body : Code} {start count i : ℕ} {t : SDSP ρ}
    (h : Turn core body s start count i t) (hclosed : body.closed = true) (hdepth : body.depth ≤ 31)
    (hmarked : isLoopEnd (analyze image) (loc (start + body.lastOffset)) = true)
    (hruns : Runs core image body start) (hwell : EndsWell core body t.regs) :
    ∃ t', t'.pc = loc (start + body.size) ∧ t'.exceptions = 0 ∧
      t'.regs = (meaning core body)^[i + 1] s.regs ∧
      Inside s body.depth start (start + body.lastOffset) (count - i) t' ∧
      after core image body t = handleLoop t' ∧
      ∀ exit, (after core image body t).pc = loc exit → Exact core image body start exit t := by
  have hcontext : Context (analyze image) body start t.st := by
    right
    refine ⟨hclosed, ?_, hmarked⟩
    rw [h.inside.st]
  obtain ⟨t', hran, hafter, hexact⟩ := hruns t h.pc h.exceptions hcontext hwell
  rw [if_pos hclosed] at hafter
  refine ⟨t', hran.pc, hran.exceptions, ?_, h.inside.restored hdepth hran.restored, hafter, hexact⟩
  rw [hran.regs, h.regs, Function.iterate_succ_apply']

/-- A block of the program with what is known about its body. -/
structure Block (core : Core ρ) (image : Image) (word : Word) (body : Code) (a : ℕ) : Prop extends
    BlockAt image word body a where
  runs : Runs core image body (a + wordSize word)

namespace Block

variable {word : Word} {body : Code} {a count i : ℕ} {t : SDSP ρ}

theorem turn_again (h : Block core image word body a)
    (ht : Turn core body s (a + wordSize word) count i t) (hcount : count < 65536)
    (hone : body.lastSize = 1) (hi : i + 1 < count) (hwell : EndsWell core body t.regs) :
    Turn core body s (a + wordSize word) count (i + 1) (after core image body t) ∧
      Exact core image body (a + wordSize word) (a + wordSize word) t := by
  obtain ⟨t', hpc, hex, hregs, hin, hafter, hexact⟩ :=
    ht.runs h.closed h.depth h.marked h.runs hwell
  have hsize := Code.size_eq h.closed
  have hpos := (wordSize_bounds word).1
  have hbound := h.bound
  rw [hone] at hsize
  have hpc' : t'.pc = loc (a + wordSize word + body.lastOffset + 1) := by
    rw [hpc, hsize, ← Nat.add_assoc]
  have hagain := hin.again (by omega) (by omega) hpc'
  rw [← hafter] at hagain
  refine ⟨⟨?_, hagain.2.1, hagain.2.2.2.trans hex, hagain.2.2.1.trans hregs⟩, hexact _ hagain.2.1⟩
  rw [Nat.sub_succ']
  exact hagain.1

theorem turn_last (h : Block core image word body a)
    (ht : Turn core body s (a + wordSize word) count i t) (hone : body.lastSize = 1)
    (hi : i + 1 = count) (hwell : EndsWell core body t.regs) :
    Restored (body.depth + 1) s (after core image body t) ∧
      (after core image body t).pc = loc (a + wordSize word + body.size) ∧
      (after core image body t).exceptions = 0 ∧
      (after core image body t).regs = (meaning core body)^[count] s.regs ∧
      Exact core image body (a + wordSize word) (a + wordSize word + body.size) t := by
  obtain ⟨t', hpc, hex, hregs, hin, hafter, hexact⟩ :=
    ht.runs h.closed h.depth h.marked h.runs hwell
  have hsize := Code.size_eq h.closed
  have hpos := (wordSize_bounds word).1
  have hbound := h.bound
  rw [hone] at hsize
  have hpc' : t'.pc = loc (a + wordSize word + body.lastOffset + 1) := by
    rw [hpc, hsize, ← Nat.add_assoc]
  have hsub : count - i = 1 := by omega
  rw [hsub] at hin
  have hleave := hin.leave (by omega) hpc'
  rw [← hafter] at hleave
  have hpc'' := hleave.2.1.trans hpc
  refine ⟨hleave.1, hpc'', hleave.2.2.2.trans hex, ?_, hexact _ hpc''⟩
  rw [hleave.2.2.1, hregs, hi]

/-- **A block whose turns end well is run as often as it should be.** -/
theorem turns (h : Block core image word body a)
    (ht : Turn core body s (a + wordSize word) count 0 t) (hcount : 0 < count ∧ count < 65536)
    (hone : body.lastSize = 1)
    (hwell : ∀ i < count, EndsWell core body ((meaning core body)^[i] s.regs)) :
    (∀ i < count, ((after core image body)^[i] t).pc = loc (a + wordSize word) ∧
      Exact core image body (a + wordSize word)
        (if i + 1 < count then a + wordSize word else a + wordSize word + body.size)
        ((after core image body)^[i] t)) ∧
    Restored (body.depth + 1) s ((after core image body)^[count] t) ∧
      ((after core image body)^[count] t).pc = loc (a + wordSize word + body.size) ∧
      ((after core image body)^[count] t).exceptions = 0 ∧
      ((after core image body)^[count] t).regs = (meaning core body)^[count] s.regs := by
  have hturn : ∀ i < count,
      Turn core body s (a + wordSize word) count i ((after core image body)^[i] t) := by
    intro i
    induction i with
    | zero => exact fun _ => ht
    | succ i ih =>
      intro hi
      have hprev := ih (by omega)
      rw [Function.iterate_succ_apply']
      refine (h.turn_again hprev hcount.2 hone hi ?_).1
      rw [hprev.regs]
      exact hwell i (by omega)
  have hwell' : ∀ i < count, EndsWell core body ((after core image body)^[i] t).regs := by
    intro i hi
    rw [(hturn i hi).regs]
    exact hwell i hi
  obtain ⟨n, rfl⟩ : ∃ n, count = n + 1 := ⟨count - 1, by omega⟩
  have hlast := h.turn_last (hturn n (by omega)) hone rfl (hwell' n (by omega))
  rw [← Function.iterate_succ_apply' (after core image body)] at hlast
  refine ⟨fun i hi => ⟨(hturn i hi).pc, ?_⟩, hlast.1, hlast.2.1, hlast.2.2.1, hlast.2.2.2.1⟩
  split_ifs with hagain
  · exact (h.turn_again (hturn i hi) hcount.2 hone hagain (hwell' i hi)).2
  · have heq : i = n := by omega
    subst heq
    exact hlast.2.2.2.2

end Block

theorem BlockAt.turn_zero {word : Word} {body : Code} {a : ℕ} (h : BlockAt image word body a)
    (hpc : s.pc = loc a) (hex : s.exceptions = 0) (hcount : blockCount core word s ≠ 0) :
    Turn core body (counted core word s).2 (a + wordSize word) (blockCount core word s) 0
      (step core image s) := by
  have henter := h.step_enter hpc hex hcount
  refine ⟨henter.1, henter.2.1, henter.2.2.1, henter.2.2.2.trans ?_⟩
  exact (counted_frame core s word).2.2.symm

theorem blockCount_lt (word : Word) : blockCount core word s < 65536 := BitVec.isLt _

/-- A block that ends well, from the loop instruction to the instruction that follows the block. -/
theorem Block.run {word : Word} {body : Code} {a : ℕ} (h : Block core image word body a)
    (hpc : s.pc = loc a) (hex : s.exceptions = 0)
    (hquiet : Quiet s.st a (a + wordSize word + body.size)) (hstack : countsStack word = false)
    (hone : countOf core word s.regs ≠ 0 → body.lastSize = 1)
    (hwell : ∀ i < countOf core word s.regs, EndsWell core body ((meaning core body)^[i] s.regs)) :
    blockCount core word s = countOf core word s.regs ∧
    (∀ i < blockCount core word s,
      ((after core image body)^[i] (step core image s)).pc = loc (a + wordSize word) ∧
      Exact core image body (a + wordSize word)
        (if i + 1 < blockCount core word s then a + wordSize word else a + wordSize word + body.size)
        ((after core image body)^[i] (step core image s))) ∧
    Restored (body.depth + 1) s ((after core image body)^[blockCount core word s] (step core image s)) ∧
      ((after core image body)^[blockCount core word s] (step core image s)).pc =
        loc (a + wordSize word + body.size) ∧
      ((after core image body)^[blockCount core word s] (step core image s)).exceptions = 0 ∧
      ((after core image body)^[blockCount core word s] (step core image s)).regs =
        (meaning core body)^[countOf core word s.regs] s.regs := by
  have hcounted := counted_of_not_stack core s hstack
  have hcount : blockCount core word s = countOf core word s.regs := by
    rw [blockCount_eq, hcounted.1]
  refine ⟨hcount, ?_⟩
  by_cases hzero : blockCount core word s = 0
  · have hpos := (wordSize_bounds word).1
    have hstep : step core image s = { s with pc := loc (a + wordSize word + body.size) } := by
      rw [h.step_zero hpc hex hzero, hcounted.2]
      refine testLoop_of_not_fires ?_
      exact Quiet.not_fires hquiet (by omega) le_rfl h.bound rfl
    rw [hzero, ← hcount, hzero]
    refine ⟨fun i hi => absurd hi (Nat.not_lt_zero i), ?_⟩
    rw [hstep]
    exact ⟨⟨rfl, rfl, fun _ _ _ => rfl⟩, rfl, hex, rfl⟩
  · have hturn := h.turn_zero hpc hex hzero
    rw [hcounted.2] at hturn
    rw [← hcount] at hone hwell ⊢
    exact h.turns hturn ⟨Nat.pos_of_ne_zero hzero, blockCount_lt word⟩ (hone hzero) hwell

theorem blockAt_of_at {word : Word} {body rest : Code} {a : ℕ}
    (hat : At image (.block word body rest) a)
    (hends : LoopEnds (analyze image) (.block word body rest) a)
    (hbound : a + (Code.block word body rest).size < 65536)
    (hdepth : (Code.block word body rest).depth ≤ 32) : BlockAt image word body a := by
  simp only [Code.size] at hbound
  simp only [Code.depth] at hdepth
  exact ⟨hat.1, hat.2.1, hat.2.2.1, hat.2.2.2.1, hends.1, by omega, by omega⟩

theorem size_le_lastOffset {word : Word} {body rest : Code} :
    wordSize word + body.size ≤ (Code.block word body rest).lastOffset := by
  simp only [Code.lastOffset]
  omega

variable (core) in
theorem step_inst {word operand : Word} {rest : Code} {a : ℕ}
    (hat : At image (.inst word operand rest) a)
    (hbound : a + (Code.inst word operand rest).size < 65536) (hpc : s.pc = loc a)
    (hex : s.exceptions = 0) (hcontext : Context (analyze image) (.inst word operand rest) a s.st) :
    step core image s = goOn core word operand a s := by
  have hpos := (wordSize_bounds word).1
  have hsize : (Code.inst word operand rest).size = wordSize word + rest.size := rfl
  rw [step_straight core hpc hex hat.1 hat.2.1 hat.2.2.1]
  refine testLoop_of_not_fires ?_
  have hquiet := hcontext.quiet (wordSize word) hbound (by omega) fun _ => by
    simp only [Code.lastOffset]
    omega
  exact Quiet.not_fires (s := goOn core word operand a s) hquiet (by omega) le_rfl (by omega) rfl

/-- **A program that ends well runs exactly.** The induction is on the program; the body of a block runs
where its own loop is on top of the stacks, all else where no loop ends. -/
theorem runs {c : Code} {a : ℕ} (hat : At image c a) (hends : LoopEnds (analyze image) c a)
    (hbound : a + c.size < 65536) (hdepth : c.depth ≤ 32) : Runs core image c a := by
  induction c generalizing a with
  | stop => exact fun s hpc hex _ _ => ⟨s, ⟨hpc, hex, rfl, .refl _ _⟩, rfl, fun _ _ => trivial⟩
  | last word operand =>
    intro s hpc hex hcontext _
    have hstep := step_straight core hpc hex hat.1 hat.2.1 hat.2.2
    refine ⟨goOn core word operand a s, ⟨rfl, hex, rfl, rfl, rfl, fun _ _ _ => rfl⟩, ?_,
      fun exit hexit => hexit⟩
    rw [after, hstep, Code.closed, if_pos rfl]
    exact testLoop_last (c := .last word operand) (s := goOn core word operand a s) rfl hcontext hbound rfl
  | inst word operand rest ih =>
    intro s hpc hex hcontext hwell
    have hsize : (Code.inst word operand rest).size = wordSize word + rest.size := rfl
    have hstep := step_inst core hat hbound hpc hex hcontext
    obtain ⟨s', hran, hafter, hexact⟩ :=
      ih hat.2.2.2 hends (by omega) hdepth (goOn core word operand a s) rfl hex hcontext.inst hwell
    refine ⟨s', ⟨?_, hran.exceptions, hran.regs, ?_⟩, ?_, fun exit hexit => ?_⟩
    · rw [hran.pc, hsize, Nat.add_assoc]
    · exact ⟨hran.restored.st, hran.restored.regStackPtrs, hran.restored.regStacks⟩
    · rw [after, hstep]
      exact hafter
    · rw [after, hstep] at hexit
      rw [Exact, hstep]
      exact ⟨rfl, hexact exit hexit⟩
  | block word body rest ihbody ihrest =>
    intro s hpc hex hcontext hwell
    have hblock := blockAt_of_at hat hends hbound hdepth
    have hpos := (wordSize_bounds word).1
    have hsize : (Code.block word body rest).size = wordSize word + body.size + rest.size := rfl
    have hdepths : body.depth + 1 ≤ (Code.block word body rest).depth ∧
        rest.depth ≤ (Code.block word body rest).depth := ⟨le_max_left _ _, le_max_right _ _⟩
    have hrunsbody : Runs core image body (a + wordSize word) :=
      ihbody hblock.body_at hends.2.1 hblock.bound (by omega)
    have hquiet : Quiet s.st a (a + wordSize word + body.size) := by
      rw [Nat.add_assoc]
      exact hcontext.quiet _ hbound (by omega) fun _ => size_le_lastOffset
    obtain ⟨hcount, hturns, hrestored, hpc', hex', hregs'⟩ :=
      Block.run ⟨hblock, hrunsbody⟩ hpc hex hquiet hwell.1 hwell.2.1 hwell.2.2.1
    have hcontext' : Context (analyze image) rest (a + wordSize word + body.size)
        ((after core image body)^[blockCount core word s] (step core image s)).st := by
      rw [hrestored.st]
      exact hcontext.block
    have hwell' := hwell.2.2.2
    rw [← hregs'] at hwell'
    obtain ⟨s', hran, hafter, hexact⟩ :=
      ihrest hat.2.2.2.2 hends.2.2 (by omega) (by omega) _ hpc' hex' hcontext' hwell'
    refine ⟨s', ⟨?_, hran.exceptions, ?_, ?_⟩, hafter, fun exit hexit => ?_⟩
    · rw [hran.pc, hsize, Nat.add_assoc, Nat.add_assoc, Nat.add_assoc]
    · rw [hran.regs, hregs']
      rfl
    · exact (hrestored.mono hdepths.1).trans (hran.restored.mono hdepths.2)
    · exact ⟨hturns, hpc', hrestored, hexact exit hexit⟩

/-! ## Programs that run exactly -/

variable (image s) in
/-- The test of the loop registers pops a stack once or not at all. -/
theorem testLoop_ptrs (stack : StackRegister) :
    (testLoop image s).regStackPtrs stack = s.regStackPtrs stack ∨
      (testLoop image s).regStackPtrs stack = s.regStackPtrs stack - 1 := by
  unfold testLoop
  split_ifs
  · by_cases hfires : Fires s
    · rw [handleLoop_of_fires hfires]
      split_ifs
      · exact .inl rfl
      · rw [leaveLoop_ptrs]
        dsimp only
        split_ifs
        · exact .inl rfl
        · exact .inr rfl
    · rw [handleLoop_of_not_fires hfires]
      exact .inl rfl
  · exact .inl rfl

theorem ptr_ne (p : BitVec 5) : p - 1 ≠ p ∧ p - 1 - 1 ≠ p ∧ p + 1 ≠ p := by
  have hall : ∀ p : BitVec 5, p - 1 ≠ p ∧ p - 1 - 1 ≠ p ∧ p + 1 ≠ p := by decide
  exact hall p

/-- A count that is read from a stack leaves it popped, if nothing is run. -/
theorem BlockAt.not_countsStack {word : Word} {body : Code} {a : ℕ} (h : BlockAt image word body a)
    (hpc : s.pc = loc a) (hex : s.exceptions = 0) (hcount : blockCount core word s = 0)
    (hptrs : (step core image s).regStackPtrs = s.regStackPtrs) : countsStack word = false := by
  rw [← Bool.not_eq_true]
  intro hstack
  obtain ⟨stack, hpop⟩ := counted_of_stack core s hstack
  have hne := ptr_ne (s.regStackPtrs stack)
  have htest := testLoop_ptrs image
    { (counted core word s).2 with pc := loc (a + wordSize word + body.size) } stack
  rw [← h.step_zero hpc hex hcount, hptrs] at htest
  dsimp only at htest
  rw [hpop, Function.update_self] at htest
  rcases htest with htest | htest
  · exact hne.1 htest.symm
  · exact hne.2.1 htest.symm

/-- The stacks of a block that is not left are not those before it, whatever its count was read from. -/
theorem Inside.ptrs_ne {word : Word} {used start last counter : ℕ} {t : SDSP ρ}
    (h : Inside (counted core word s).2 used start last counter t) :
    t.regStackPtrs ≠ s.regStackPtrs := by
  intro heq
  have hcall : (counted core word s).2.regStackPtrs .call + 1 = s.regStackPtrs .call := by
    rw [← heq, h.ptrs]
    rfl
  have haddress : (counted core word s).2.regStackPtrs .loopAddress + 1 =
      s.regStackPtrs .loopAddress := by
    rw [← heq, h.ptrs]
    rfl
  cases hstack : countsStack word with
  | false =>
    rw [(counted_of_not_stack core s hstack).2] at hcall
    exact (ptr_ne _).2.2 hcall
  | true =>
    obtain ⟨stack, hpop⟩ := counted_of_stack core s hstack
    rw [hpop] at hcall haddress
    by_cases hs : stack = .call
    · subst hs
      rw [Function.update_of_ne (by decide)] at haddress
      exact (ptr_ne _).2.2 haddress
    · rw [Function.update_of_ne (Ne.symm hs)] at hcall
      exact (ptr_ne _).2.2 hcall

namespace Block

variable {word : Word} {body : Code} {a : ℕ}

/-- **A block that is entered and run exactly ends with an instruction of one word.** An instruction of two
words goes past the test, so that the block is neither repeated nor left. -/
theorem lastSize_eq_one (h : Block core image word body a) {count : ℕ} {t : SDSP ρ}
    (ht : Turn core body (counted core word s).2 (a + wordSize word) count 0 t) (hcount : 0 < count)
    (hwell : EndsWell core body t.regs)
    (hagain : 1 < count → (after core image body t).pc = loc (a + wordSize word))
    (honce : count = 1 → (after core image body t).regStackPtrs = s.regStackPtrs) :
    body.lastSize = 1 := by
  obtain ⟨t', hpc, -, -, hin, hafter, -⟩ := ht.runs h.closed h.depth h.marked h.runs hwell
  have hbounds := Code.lastSize_bounds h.closed
  have hsize := Code.size_eq h.closed
  have hbound := h.bound
  by_contra hne
  have hnot : ¬Fires t' := by
    rintro ⟨-, heq⟩
    rw [hpc, hin.st] at heq
    have heq' : (loc (a + wordSize word + body.size)).toNat =
        (loc (a + wordSize word + body.lastOffset)).toNat + 1 := heq
    rw [loc_toNat (by omega), loc_toNat (by omega)] at heq'
    omega
  rw [handleLoop_of_not_fires hnot] at hafter
  rw [hafter] at hagain honce
  by_cases hone : count = 1
  · exact hin.ptrs_ne (honce hone)
  · have hstart := congrArg BitVec.toNat (hpc.symm.trans (hagain (by omega)))
    rw [loc_toNat (by omega), loc_toNat (by omega)] at hstart
    omega

/-- What an exact run says about a block: each turn of it ends well, and so does the block. -/
theorem endsWell (h : Block core image word body a) (hpc : s.pc = loc a) (hex : s.exceptions = 0)
    (hbody : ∀ (t : SDSP ρ) (exit : ℕ), t.pc = loc (a + wordSize word) → t.exceptions = 0 →
      Context (analyze image) body (a + wordSize word) t.st →
      Exact core image body (a + wordSize word) exit t → EndsWell core body t.regs)
    (hturns : ∀ i < blockCount core word s,
      ((after core image body)^[i] (step core image s)).pc = loc (a + wordSize word) ∧
      Exact core image body (a + wordSize word)
        (if i + 1 < blockCount core word s then a + wordSize word else a + wordSize word + body.size)
        ((after core image body)^[i] (step core image s)))
    (hrestored : ((after core image body)^[blockCount core word s]
      (step core image s)).regStackPtrs = s.regStackPtrs) :
    countsStack word = false ∧ (countOf core word s.regs ≠ 0 → body.lastSize = 1) ∧
      ∀ i < countOf core word s.regs, EndsWell core body ((meaning core body)^[i] s.regs) := by
  by_cases hzero : blockCount core word s = 0
  · rw [hzero] at hrestored
    have hstack := h.not_countsStack hpc hex hzero hrestored
    rw [blockCount_eq, (counted_of_not_stack core s hstack).1] at hzero
    rw [hzero]
    exact ⟨hstack, fun hne => absurd rfl hne, fun i hi => absurd hi (Nat.not_lt_zero i)⟩
  · have hcount : 0 < blockCount core word s := Nat.pos_of_ne_zero hzero
    have hlt : blockCount core word s < 65536 := blockCount_lt word
    have hwell : ∀ i < blockCount core word s, Turn core body (counted core word s).2
        (a + wordSize word) (blockCount core word s) i
        ((after core image body)^[i] (step core image s)) →
        EndsWell core body ((after core image body)^[i] (step core image s)).regs := by
      intro i hi hturn
      refine hbody _ _ hturn.pc hturn.exceptions (.inr ⟨h.closed, ?_, h.marked⟩) (hturns i hi).2
      rw [hturn.inside.st]
    have hfirst := h.turn_zero hpc hex hzero
    have hone : body.lastSize = 1 := by
      refine h.lastSize_eq_one hfirst hcount (hwell 0 hcount hfirst) (fun hlt => (hturns 1 hlt).1) ?_
      intro heq
      rw [heq] at hrestored
      exact hrestored
    have hturn : ∀ i < blockCount core word s, Turn core body (counted core word s).2
        (a + wordSize word) (blockCount core word s) i
        ((after core image body)^[i] (step core image s)) := by
      intro i
      induction i with
      | zero => exact fun _ => hfirst
      | succ i ih =>
        intro hi
        have hprev := ih (by omega)
        rw [Function.iterate_succ_apply']
        exact (h.turn_again hprev hlt hone hi (hwell i (by omega) hprev)).1
    have hmeaning : ∀ i < blockCount core word s,
        EndsWell core body ((meaning core body)^[i] (counted core word s).2.regs) := by
      intro i hi
      rw [← (hturn i hi).regs]
      exact hwell i hi (hturn i hi)
    have hleft := (h.turns hfirst ⟨hcount, hlt⟩ hone hmeaning).2.1
    have hstack : countsStack word = false := by
      rw [← Bool.not_eq_true]
      intro hstack
      obtain ⟨stack, hpop⟩ := counted_of_stack core s hstack
      have heq := congrFun (hleft.regStackPtrs.symm.trans hrestored) stack
      rw [hpop, Function.update_self] at heq
      exact (ptr_ne _).1 heq
    rw [blockCount_eq, (counted_of_not_stack core s hstack).1, (counted_of_not_stack core s hstack).2] at hmeaning
    exact ⟨hstack, fun _ => hone, hmeaning⟩

end Block

/-- **A program that runs exactly ends well.** -/
theorem endsWell_of_exact {c : Code} {a exit : ℕ} (hat : At image c a)
    (hends : LoopEnds (analyze image) c a) (hbound : a + c.size < 65536) (hdepth : c.depth ≤ 32)
    (hpc : s.pc = loc a) (hex : s.exceptions = 0) (hcontext : Context (analyze image) c a s.st)
    (hexact : Exact core image c a exit s) : EndsWell core c s.regs := by
  induction c generalizing a exit s with
  | stop => trivial
  | last word operand => trivial
  | inst word operand rest ih =>
    have hsize : (Code.inst word operand rest).size = wordSize word + rest.size := rfl
    have hstep := step_inst core hat hbound hpc hex hcontext
    have hrest := hexact.2
    rw [hstep] at hrest
    exact ih (s := goOn core word operand a s) hat.2.2.2 hends (by omega) hdepth rfl hex hcontext.inst
      hrest
  | block word body rest ihbody ihrest =>
    have hblock := blockAt_of_at hat hends hbound hdepth
    have hsize : (Code.block word body rest).size = wordSize word + body.size + rest.size := rfl
    have hdepths : body.depth + 1 ≤ (Code.block word body rest).depth ∧
        rest.depth ≤ (Code.block word body rest).depth := ⟨le_max_left _ _, le_max_right _ _⟩
    have hbodyDepth : body.depth ≤ 32 := by omega
    have hruns : Runs core image body (a + wordSize word) :=
      runs hblock.body_at hends.2.1 hblock.bound hbodyDepth
    obtain ⟨hturns, -, hrestored, hrest⟩ := hexact
    obtain ⟨hstack, hone, hwell⟩ := Block.endsWell ⟨hblock, hruns⟩ hpc hex
      (fun t exit hpc hex hcontext hexact =>
        ihbody hblock.body_at hends.2.1 hblock.bound hbodyDepth hpc hex hcontext hexact)
      hturns hrestored.regStackPtrs
    have hquiet : Quiet s.st a (a + wordSize word + body.size) := by
      rw [Nat.add_assoc]
      exact hcontext.quiet _ hbound (by omega) fun _ => size_le_lastOffset
    obtain ⟨-, -, hrestored', hpc', hex', hregs'⟩ :=
      Block.run ⟨hblock, hruns⟩ hpc hex hquiet hstack hone hwell
    have hcontext' : Context (analyze image) rest (a + wordSize word + body.size)
        ((after core image body)^[blockCount core word s] (step core image s)).st := by
      rw [hrestored'.st]
      exact hcontext.block
    have hrestWell := ihrest hat.2.2.2.2 hends.2.2 (by omega) (by omega) hpc' hex' hcontext' hrest
    rw [hregs'] at hrestWell
    exact ⟨hstack, hone, hwell, hrestWell⟩

/-! ## The programs that run exactly -/

/-- No loop that is on the stacks at first ends inside the program. -/
def Outside (c : Code) (a : ℕ) (s : SDSP ρ) : Prop :=
  s.st .loopAddress = 0 ∨ s.st .loopCounter = 0 ∨
    (s.st .loopAddress).toNat < a ∨ a + c.size ≤ (s.st .loopAddress).toNat

theorem Outside.quiet {c : Code} {a : ℕ} (h : Outside c a s) : Quiet s.st a (a + c.size) := by
  rintro b hlow hhigh ⟨⟨haddress, hcounter⟩, heq⟩
  rcases h with h | h | h
  · rw [h] at haddress
    exact absurd haddress (by decide)
  · rw [h] at hcounter
    exact absurd hcounter (by decide)
  · omega

theorem Analyzed.bound {c : Code} {a : ℕ} (h : Analyzed image c a) : a + c.size < 65536 := by
  rcases h with ⟨-, h⟩ | ⟨-, h⟩ <;> omega

theorem exact_of_endsWell {c : Code} {a : ℕ} (hat : At image c a) (hanalyzed : Analyzed image c a)
    (hdepth : c.depth ≤ 32) (hpc : s.pc = loc a) (hex : s.exceptions = 0) (hout : Outside c a s)
    (hwell : EndsWell core c s.regs) : Exact core image c a (a + c.size) s := by
  have hends := loopEnds_marked hat hanalyzed
  have hbound := hanalyzed.bound
  obtain ⟨s', hran, hafter, hexact⟩ :=
    runs hat hends hbound hdepth s hpc hex (.inl hout.quiet) hwell
  refine hexact _ ?_
  rw [hafter]
  split_ifs with hclosed
  · have hpos := (Code.lastSize_bounds hclosed).1
    have hsize := Code.size_eq hclosed
    have hquiet : Quiet s'.st a (a + c.size) := by
      rw [hran.restored.st]
      exact hout.quiet
    rw [handleLoop_of_not_fires (hquiet.not_fires (by omega) le_rfl hbound hran.pc)]
    exact hran.pc
  · exact hran.pc

/-- `LOOPI #2` before an instruction, with its second word. -/
def loopTwice (word operand : Word) : Image :=
  ⟨fun a => if a = 0 then 0x1002 else if a = 1 then word else if a = 2 then operand else 0, fun _ => 0⟩

def twice (word operand : Word) : Code := .block 0x1002 (.last word operand) .stop

/-- Other instructions that do nothing. -/
def idle : Core Unit := ⟨fun _ _ => 0, fun _ _ regs => regs, fun _ s => s⟩

/-- After a reset. -/
def fresh : SDSP Unit := ⟨0, fun _ => 0, fun _ => 0, fun _ _ => 0, 0, ⟨0, ()⟩⟩

theorem twice_checked : isLoop 0x1002 = true ∧ countsStack 0x1002 = false ∧ straightLine 0 = true ∧
    straightLine 0x009e = true ∧ wordSize 0 = 1 ∧ wordSize 0x009e = 2 ∧
    countOf idle 0x1002 fresh.regs = 2 := by
  decide +kernel

theorem at_twice {word operand : Word} (h : straightLine word = true) :
    At (loopTwice word operand) (twice word operand) 0 :=
  ⟨rfl, rfl, .inl ⟨twice_checked.1, rfl⟩, ⟨rfl, rfl, h⟩, trivial⟩

theorem analyzed_twice (word operand : Word) :
    Analyzed (loopTwice word operand) (twice word operand) 0 := by
  left
  refine ⟨.start, ?_⟩
  have hloop := wordSize_isLoop twice_checked.1
  have hword := (wordSize_bounds word).2
  simp only [twice, Code.size]
  omega

end DSP.Interpreter
