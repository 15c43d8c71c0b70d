import PrimedSteam.DSP.Loops
import PrimedSteam.DSP.Operands

/-!
# The ends of loops that the analysis marks

* `wordSize_eq`: an instruction of the tables has the words that its function fetches.
* `loopEnds_marked`: in code that the analysis decodes as it is, the last instruction of each block is
  marked.
-/

set_option autoImplicit false

namespace DSP.Interpreter

variable {image : Image}

/-! ## Addresses -/

theorem loc_add (a b : ℕ) : loc a + loc b = loc (a + b) := (BitVec.ofNat_add ..).symm

theorem loc_toNat {a : ℕ} (h : a < 65536) : (loc a).toNat = a := Nat.mod_eq_of_lt h

/-! ## Sizes -/

/-- The entries of a loop instruction. -/
def loopPatterns : List (Handler × BitPattern 16) :=
  [(.loop, ⟨0x0040, 0xffe0⟩), (.loopi, ⟨0x1000, 0xff00⟩), (.bloop, ⟨0x0060, 0xffe0⟩),
    (.bloopi, ⟨0x1100, 0xff00⟩)]

/-- The sizes in the table of templates, and the loop instructions in both tables. -/
theorem tables_checked :
    (∀ t ∈ opcodes, (1 ≤ t.size ∧ t.size ≤ 2) ∧ ((functionFor interpreterOpcodes t).any fun h =>
      t.size == if h.fetches then 2 else 1) = true) ∧
    ∀ p ∈ loopPatterns, (opcodes.any fun t => t.pattern.Covers p.2) = true ∧
      ∀ e ∈ interpreterOpcodes, e.function = p.1 → e.opcode = p.2.value ∧ e.opcodeMask = p.2.mask := by
  decide +kernel

theorem wordSize_eq {word : Word} (h : (findOpInfoByOpcode word).isSome = true) :
    wordSize word = if (getOp word).fetches then 2 else 1 := by
  obtain ⟨t, hfind⟩ := Option.isSome_iff_exists.mp h
  have hmatches : t.Matches word = true := by
    unfold findOpInfoByOpcode at hfind
    simpa using List.find?_some hfind
  have hchecked := (tables_checked.1 t (List.mem_of_find?_eq_some hfind)).2
  rw [Option.any_eq_true] at hchecked
  obtain ⟨handler, hfor, hsize⟩ := hchecked
  rw [beq_iff_eq] at hsize
  rw [wordSize, getOpTemplate, hfind, Option.getD_some, getOp, findFunction_of_functionFor hfor hmatches]
  exact hsize

theorem wordSize_bounds (word : Word) : 1 ≤ wordSize word ∧ wordSize word ≤ 2 := by
  rw [wordSize, getOpTemplate]
  cases hfind : findOpInfoByOpcode word with
  | none => exact ⟨by decide, by decide⟩
  | some t => exact (tables_checked.1 t (List.mem_of_find?_eq_some hfind)).1

theorem straightLine_iff {word : Word} : straightLine word = true ↔
    (findOpInfoByOpcode word).isSome = true ∧ (getOp word).branches = false ∧
      usesStack word = false := by
  simp [straightLine, and_assoc]

theorem wordSize_straight {word : Word} (h : straightLine word = true) :
    wordSize word = if (getOp word).fetches then 2 else 1 :=
  wordSize_eq (straightLine_iff.mp h).1

/-- A function comes from an entry of the table. -/
theorem exists_of_getOp {word : Word} {handler : Handler} (h : getOp word = handler)
    (hne : handler ≠ .nop) :
    ∃ e ∈ interpreterOpcodes, e.Matches word = true ∧ e.function = handler := by
  rw [getOp, findFunction] at h
  cases hfind : interpreterOpcodes.find? (·.Matches word) with
  | none =>
    rw [hfind] at h
    exact absurd h.symm hne
  | some e =>
    rw [hfind] at h
    exact ⟨e, List.mem_of_find?_eq_some hfind, by simpa using List.find?_some hfind, h⟩

/-- A loop instruction matches its entries in both tables. -/
theorem entry_of_getOp {word : Word} {handler : Handler} (h : getOp word = handler)
    (hne : handler ≠ .nop) (pattern : BitPattern 16) (hp : (handler, pattern) ∈ loopPatterns) :
    word &&& pattern.mask = pattern.value ∧ (findOpInfoByOpcode word).isSome = true := by
  obtain ⟨e, he, hmatches, hfun⟩ := exists_of_getOp h hne
  have hchecked := tables_checked.2 _ hp
  have heq := hchecked.2 e he hfun
  rw [InterpreterOpInfo.Matches, heq.1, heq.2, beq_iff_eq] at hmatches
  refine ⟨hmatches, ?_⟩
  obtain ⟨t, ht, hc⟩ := List.any_eq_true.mp hchecked.1
  refine List.find?_isSome.mpr ⟨t, ht, BitPattern.matches_of_covers hc (x := word) ?_⟩
  rw [BitPattern.Matches, beq_iff_eq]
  exact hmatches

theorem isLoop_mask {word : Word} (h : isLoop word = true) :
    (word &&& 0xffe0 = 0x0040 ∨ word &&& 0xff00 = 0x1000) ∧
      (findOpInfoByOpcode word).isSome = true := by
  rw [isLoop, Bool.or_eq_true, beq_iff_eq, beq_iff_eq] at h
  rcases h with h | h
  · have hentry := entry_of_getOp h (by decide) ⟨0x0040, 0xffe0⟩ (by simp [loopPatterns])
    exact ⟨.inl hentry.1, hentry.2⟩
  · have hentry := entry_of_getOp h (by decide) ⟨0x1000, 0xff00⟩ (by simp [loopPatterns])
    exact ⟨.inr hentry.1, hentry.2⟩

theorem isBloop_mask {word : Word} (h : isBloop word = true) :
    (word &&& 0xffe0 = 0x0060 ∨ word &&& 0xff00 = 0x1100) ∧
      (findOpInfoByOpcode word).isSome = true := by
  rw [isBloop, Bool.or_eq_true, beq_iff_eq, beq_iff_eq] at h
  rcases h with h | h
  · have hentry := entry_of_getOp h (by decide) ⟨0x0060, 0xffe0⟩ (by simp [loopPatterns])
    exact ⟨.inl hentry.1, hentry.2⟩
  · have hentry := entry_of_getOp h (by decide) ⟨0x1100, 0xff00⟩ (by simp [loopPatterns])
    exact ⟨.inr hentry.1, hentry.2⟩

/-- The masks of the analysis tell the loops apart. -/
theorem mask_high {word x y : Word} (h : word &&& 0xffe0 = x) (hy : x &&& 0xff00 = y) :
    word &&& 0xff00 = y := by
  rw [← hy, ← h, BitVec.and_assoc]
  rfl

theorem not_bloop_of_isLoop {word : Word} (h : isLoop word = true) :
    ¬(word &&& 0xffe0 = 0x0060 ∨ word &&& 0xff00 = 0x1100) := by
  have hmask := (isLoop_mask h).1
  rintro (h' | h')
  · rcases hmask with hm | hm
    · rw [h'] at hm
      exact absurd hm (by decide)
    · rw [mask_high h' rfl] at hm
      exact absurd hm (by decide)
  · rcases hmask with hm | hm
    · rw [mask_high hm rfl] at h'
      exact absurd h' (by decide)
    · rw [h'] at hm
      exact absurd hm (by decide)

theorem wordSize_isLoop {word : Word} (h : isLoop word = true) : wordSize word = 1 := by
  rw [wordSize_eq (isLoop_mask h).2]
  rw [isLoop, Bool.or_eq_true, beq_iff_eq, beq_iff_eq] at h
  rcases h with h | h <;> rw [h] <;> rfl

theorem wordSize_isBloop {word : Word} (h : isBloop word = true) : wordSize word = 2 := by
  rw [wordSize_eq (isBloop_mask h).2]
  rw [isBloop, Bool.or_eq_true, beq_iff_eq, beq_iff_eq] at h
  rcases h with h | h <;> rw [h] <;> rfl

/-! ## Marks stay -/

theorem isLoopEnd_iff {flags : CodeMap} {address : Word} :
    isLoopEnd flags address = true ↔ (flags address).getLsbD 3 = true := by
  have hall : ∀ x : CodeFlags, (x &&& codeLoopEnd ≠ 0) ↔ x.getLsbD 3 = true := by decide
  rw [isLoopEnd, decide_eq_true_iff]
  exact hall _

/-- Each end of a loop stays marked. -/
def KeepsEnds (flags flags' : CodeMap) : Prop :=
  ∀ address, isLoopEnd flags address = true → isLoopEnd flags' address = true

theorem KeepsEnds.trans {f g h : CodeMap} (h₁ : KeepsEnds f g) (h₂ : KeepsEnds g h) : KeepsEnds f h :=
  fun address ha => h₂ address (h₁ address ha)

theorem keepsEnds_mark (address : Word) (flag : CodeFlags) (flags : CodeMap) :
    KeepsEnds flags (mark address flag flags) := by
  intro a ha
  rw [isLoopEnd_iff] at ha ⊢
  by_cases heq : a = address
  · subst heq
    simp [mark, ha]
  · simp [mark, heq, ha]

theorem isLoopEnd_mark (address : Word) (flags : CodeMap) :
    isLoopEnd (mark address codeLoopEnd flags) address = true := by
  rw [isLoopEnd_iff]
  simp [mark, codeLoopEnd]

theorem keepsEnds_markLoops (address inst : Word) (flags : CodeMap) :
    KeepsEnds flags (markLoops image address inst flags) := by
  unfold markLoops
  split_ifs
  · exact (keepsEnds_mark _ _ _).trans (keepsEnds_mark _ _ _)
  · exact (keepsEnds_mark _ _ _).trans (keepsEnds_mark _ _ _)
  · exact fun _ ha => ha

theorem markInst_eq (address : Word) (s : CodeMap × Word) :
    (markInst image address s).1 =
      if raisesExceptions (image.template address) then
        mark (address + .ofNat 16 (image.template address).size) codeCheckExc
          (markLoops image address (image.readImem address) (mark address codeStartOfInst s.1))
      else markLoops image address (image.readImem address) (mark address codeStartOfInst s.1) := by
  simp only [markInst, disableUpdateSrAnalysis, if_true, Image.template]
  rfl

theorem keepsEnds_markLoops_markInst (address : Word) (s : CodeMap × Word) :
    KeepsEnds (markLoops image address (image.readImem address) (mark address codeStartOfInst s.1))
      (markInst image address s).1 := by
  rw [markInst_eq]
  split_ifs
  · exact keepsEnds_mark _ _ _
  · exact fun _ ha => ha

theorem keepsEnds_markInst (address : Word) (s : CodeMap × Word) :
    KeepsEnds s.1 (markInst image address s).1 :=
  (keepsEnds_mark address codeStartOfInst s.1).trans
    ((keepsEnds_markLoops address (image.readImem address) _).trans
      (keepsEnds_markLoops_markInst address s))

theorem keepsEnds_sweep (endAddr : Word) (fuel : ℕ) (address : Word) (s : CodeMap × Word) :
    KeepsEnds s.1 (sweep image endAddr fuel address s).1 := by
  induction fuel generalizing address s with
  | zero => exact fun _ ha => ha
  | succ fuel ih =>
    unfold sweep
    split_ifs
    · exact (keepsEnds_markInst address s).trans (ih _ _)
    · exact fun _ ha => ha

theorem keepsEnds_findIdleSkips (startAddr endAddr : Word) (flags : CodeMap) :
    KeepsEnds flags (findIdleSkips image startAddr endAddr flags) := by
  intro a ha
  rw [isLoopEnd_iff] at ha ⊢
  unfold findIdleSkips
  split_ifs
  · simp [ha]
  · exact ha

theorem keepsEnds_analyzeRange (startAddr endAddr : Word) (flags : CodeMap) :
    KeepsEnds flags (analyzeRange image startAddr endAddr flags) :=
  (keepsEnds_sweep endAddr _ startAddr (flags, 0)).trans (keepsEnds_findIdleSkips _ _ _)

/-- A loop marks the last instruction of its block. -/
theorem isLoopEnd_markInst {word : Word} {body : Code} {a : ℕ} (s : CodeMap × Word)
    (hword : image.readImem (loc a) = word)
    (hblock : (isLoop word = true ∧ body.isLast = true) ∨ (isBloop word = true ∧
      image.readImem (loc (a + 1)) = loc (a + wordSize word + body.lastOffset))) :
    isLoopEnd (markInst image (loc a) s).1 (loc (a + wordSize word + body.lastOffset)) = true := by
  refine keepsEnds_markLoops_markInst (loc a) s _ ?_
  rw [hword]
  have hnext : loc a + 1 = loc (a + 1) := loc_add a 1
  unfold markLoops
  rcases hblock with ⟨hloop, hlast⟩ | ⟨hbloop, hend⟩
  · rw [if_neg (not_bloop_of_isLoop hloop), if_pos (isLoop_mask hloop).1, hnext, wordSize_isLoop hloop]
    have hoffset : body.lastOffset = 0 := by
      cases body with
      | last _ _ => rfl
      | stop | inst _ _ _ | block _ _ _ => simp [Code.isLast] at hlast
    rw [hoffset]
    exact isLoopEnd_mark _ _
  · rw [if_pos (isBloop_mask hbloop).1, hnext, hend]
    exact isLoopEnd_mark _ _

/-! ## The analysis of a program -/

/-- The ends of all blocks are marked. -/
def LoopEnds (flags : CodeMap) : Code → ℕ → Prop
  | .stop, _ | .last _ _, _ => True
  | .inst word _ rest, a => LoopEnds flags rest (a + wordSize word)
  | .block word body rest, a =>
    isLoopEnd flags (loc (a + wordSize word + body.lastOffset)) = true ∧
      LoopEnds flags body (a + wordSize word) ∧ LoopEnds flags rest (a + wordSize word + body.size)

theorem LoopEnds.mono {f g : CodeMap} (hkeep : KeepsEnds f g) {c : Code} {a : ℕ}
    (h : LoopEnds f c a) : LoopEnds g c a := by
  induction c generalizing a with
  | stop | last => trivial
  | inst word operand rest ih => exact ih h
  | block word body rest ihbody ihrest => exact ⟨hkeep _ h.1, ihbody h.2.1, ihrest h.2.2⟩

/-- The sweep has come to an address, with the flags so far. -/
structure SweepAt (image : Image) (endAddr : Word) (result : CodeMap × Word) (a : ℕ)
    (flags : CodeMap) : Prop where
  run : ∃ fuel s, endAddr.toNat ≤ fuel + a ∧ s.1 = flags ∧
    result = sweep image endAddr fuel (loc a) s

theorem SweepAt.step {endAddr : Word} {result : CodeMap × Word} {a : ℕ} {flags : CodeMap}
    (h : SweepAt image endAddr result a flags) (ha : a < endAddr.toNat) :
    ∃ s : CodeMap × Word, s.1 = flags ∧ SweepAt image endAddr result
      (a + wordSize (image.readImem (loc a))) (markInst image (loc a) s).1 := by
  obtain ⟨fuel, s, hfuel, hs, hresult⟩ := h.run
  refine ⟨s, hs, ?_⟩
  cases fuel with
  | zero => omega
  | succ fuel =>
    have hlt : loc a < endAddr := by
      rw [BitVec.lt_def, loc_toNat (ha.trans endAddr.isLt)]
      exact ha
    have hpos := (wordSize_bounds (image.readImem (loc a))).1
    refine ⟨fuel, markInst image (loc a) s, by omega, rfl, ?_⟩
    rw [hresult, sweep, if_pos hlt, ← loc_add]
    rfl

/-- **A program that is swept has the ends of its blocks marked.** -/
theorem SweepAt.code {endAddr : Word} {result : CodeMap × Word} {c : Code} {a : ℕ} {flags : CodeMap}
    (h : SweepAt image endAddr result a flags) (hat : At image c a)
    (hend : a + c.size ≤ endAddr.toNat) :
    ∃ flags', SweepAt image endAddr result (a + c.size) flags' ∧ KeepsEnds flags flags' ∧
      LoopEnds flags' c a := by
  induction c generalizing a flags with
  | stop => exact ⟨flags, h, fun _ ha => ha, trivial⟩
  | last word operand =>
    have hpos := (wordSize_bounds word).1
    simp only [Code.size] at hend ⊢
    obtain ⟨s, rfl, hstep⟩ := h.step (by omega)
    rw [hat.1] at hstep
    exact ⟨_, hstep, keepsEnds_markInst _ _, trivial⟩
  | inst word operand rest ih =>
    have hpos := (wordSize_bounds word).1
    simp only [Code.size] at hend ⊢
    obtain ⟨s, rfl, hstep⟩ := h.step (by omega)
    rw [hat.1] at hstep
    obtain ⟨flags', hrest, hkeep, hends⟩ := ih hstep hat.2.2.2 (by omega)
    refine ⟨flags', ?_, (keepsEnds_markInst _ _).trans hkeep, hends⟩
    rwa [← Nat.add_assoc]
  | block word body rest ihbody ihrest =>
    have hpos := (wordSize_bounds word).1
    simp only [Code.size] at hend ⊢
    obtain ⟨hword, -, hblock, hatbody, hatrest⟩ := hat
    obtain ⟨s, rfl, hstep⟩ := h.step (by omega)
    rw [hword] at hstep
    obtain ⟨flags₁, hbody, hkeep₁, hends₁⟩ := ihbody hstep hatbody (by omega)
    obtain ⟨flags₂, hrest, hkeep₂, hends₂⟩ := ihrest hbody hatrest (by omega)
    refine ⟨flags₂, ?_, (keepsEnds_markInst _ _).trans (hkeep₁.trans hkeep₂), ?_, hends₁.mono hkeep₂,
      hends₂⟩
    · rwa [← Nat.add_assoc, ← Nat.add_assoc]
    · exact hkeep₂ _ (hkeep₁ _ (isLoopEnd_markInst s hword hblock))

theorem SweepAt.keeps {endAddr : Word} {result : CodeMap × Word} {a : ℕ} {flags : CodeMap}
    (h : SweepAt image endAddr result a flags) : KeepsEnds flags result.1 := by
  obtain ⟨fuel, s, -, rfl, rfl⟩ := h.run
  exact keepsEnds_sweep _ _ _ _

theorem sweepAt_of_swept {startAddr endAddr : ℕ} {a : ℕ} (hend : endAddr < 65536)
    (hstart : startAddr ≤ endAddr) (h : Swept image startAddr endAddr a) (flags : CodeMap) :
    ∃ flags', SweepAt image (loc endAddr)
      (sweep image (loc endAddr) (endAddr - startAddr) (loc startAddr) (flags, 0)) a flags' := by
  have hendAddr := loc_toNat hend
  induction h with
  | start => exact ⟨flags, ⟨⟨endAddr - startAddr, (flags, 0), by omega, rfl, rfl⟩⟩⟩
  | next _ hlt ih =>
    obtain ⟨flags', hat⟩ := ih
    obtain ⟨s, -, hstep⟩ := hat.step (by omega)
    exact ⟨_, hstep⟩

theorem loopEnds_analyzeRange {startAddr endAddr : ℕ} {c : Code} {a : ℕ} (hend : endAddr < 65536)
    (hstart : startAddr ≤ endAddr) (hswept : Swept image startAddr endAddr a)
    (hsize : a + c.size ≤ endAddr) (hat : At image c a) (flags : CodeMap) :
    LoopEnds (analyzeRange image (loc startAddr) (loc endAddr) flags) c a := by
  obtain ⟨flags', hsweep⟩ := sweepAt_of_swept hend hstart hswept flags
  obtain ⟨flags'', hcode, -, hends⟩ := hsweep.code hat (by rw [loc_toNat hend]; exact hsize)
  refine hends.mono (hcode.keeps.trans ?_)
  unfold analyzeRange findInstructionStarts
  rw [loc_toNat hend, loc_toNat (hstart.trans_lt hend)]
  exact keepsEnds_findIdleSkips _ _ _

/-- **The analysis marks the ends of all blocks.** -/
theorem loopEnds_marked {c : Code} {a : ℕ} (hat : At image c a) (h : Analyzed image c a) :
    LoopEnds (analyze image) c a := by
  rcases h with ⟨hswept, hsize⟩ | ⟨hswept, hsize⟩
  · exact (loopEnds_analyzeRange (by decide) (by decide) hswept hsize hat _).mono
      (keepsEnds_analyzeRange _ _ _)
  · exact loopEnds_analyzeRange (by decide) (by decide) hswept hsize hat _

end DSP.Interpreter
