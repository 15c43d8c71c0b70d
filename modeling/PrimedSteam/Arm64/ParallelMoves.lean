import PrimedSteam.Lib.While
import PrimedSteam.Arm64.ConstantMoves

/-!
# Moves of function arguments

`ABI_CallFunction` moves the arguments of a call into the registers 0 to 7. A register that is still to be read is
not overwritten: its move waits, and `ParallelMoves` does the moves that wait, through a temporary register
where they
form a cycle.

* `movePass`, `parallelMoves`: the moves that wait.
* `Outstanding`: the invariant, with `Outstanding.emit` for a move and `Outstanding.rename` for a cycle.
* `callArguments_correct`: the registers at the end.
-/

set_option autoImplicit false

namespace Arm64Gen

/-! ## Moves -/

structure RegisterMove where
  dst : ARM64Reg
  src : ARM64Reg
deriving DecidableEq

/-- A move that was written, with the moves whose sources are read after it. -/
structure EmittedMove where
  move : RegisterMove
  pending : List RegisterMove

/-- `source_gpr_uses`, the moves that wait and what was written. -/
structure MoveState where
  uses : Fin 32 → ℕ
  pending : List RegisterMove
  emitted : List EmittedMove

def movesCode (emitted : List EmittedMove) : List Inst := emitted.flatMap fun e => MOV e.move.dst e.move.src

/-- One use of a source less. -/
def release (uses : Fin 32 → ℕ) (src : ARM64Reg) : Fin 32 → ℕ := Function.update uses src.num (uses src.num - 1)

/-- The inner loop of `ParallelMoves`, from the last move to the first one, behind the moves `before`. The result
says if a move was removed. -/
def movePass (before : List RegisterMove) : List RegisterMove → MoveState → MoveState × Bool
  | [], st => ({ st with pending := [] }, false)
  | move :: moves, st =>
    let (st, removed) := movePass (before ++ [move]) moves st
    if st.uses move.dst.num = 0 then
      ({ st with
        uses := release st.uses move.src
        emitted := st.emitted ++ [⟨move, before ++ st.pending⟩] }, true)
    else ({ st with pending := move :: st.pending }, removed)

/-- The temporary register. `none` is the assertion that there is one. -/
def tempReg (uses : Fin 32 → ℕ) : Option (Fin 32) :=
  [8, 9, 10, 11, 12, 13, 14, 15, 16, 17].find? fun n => decide (uses n = 0)

/-- A cycle is broken: the source of the first move goes to the temporary register. -/
def breakCycle (st : MoveState) (temp : Fin 32) : MoveState :=
  match st.pending with
  | [] => st
  | first :: moves =>
    let src := first.src
    let dst : ARM64Reg := ⟨src.size, temp⟩
    { uses := Function.update (Function.update st.uses temp (st.uses src.num)) src.num 0
      pending := (first :: moves).map fun move => if move.src = src then { move with src := dst } else move
      emitted := st.emitted ++ [⟨⟨dst, src⟩, first :: moves⟩] }

/-- The body of the loop of `ParallelMoves`. -/
def moveBody (st : MoveState) : Except Unit MoveState :=
  let (st, removed) := movePass [] st.pending st
  if removed then .ok st
  else
    match tempReg st.uses with
    | some temp => .ok (breakCycle st temp)
    | none => .error ()

/-- `ParallelMoves` -/
def parallelMoves (fuel : ℕ) (st : MoveState) : Option (Except Unit MoveState) :=
  While.whileLoop (fun st => !st.pending.isEmpty) moveBody fuel st

/-! ## Arguments -/

/-- A register from `X0` to `X30` or `W0` to `W30`, or an immediate of 8 bytes or fewer. -/
inductive Argument where
  | reg (size : GPRSize) (n : Fin 31)
  | imm (size : GPRSize) (value : BitVec 64)
deriving DecidableEq

/-- The register of the argument at a position. -/
def argReg (size : GPRSize) (i : ℕ) : ARM64Reg := ⟨size, Fin.ofNat 32 i⟩

/-- The moves of the register arguments from a position on. -/
def argMoves : ℕ → List Argument → List RegisterMove
  | _, [] => []
  | i, .reg size n :: args => ⟨argReg size i, gpr size n⟩ :: argMoves (i + 1) args
  | i, .imm _ _ :: args => argMoves (i + 1) args

/-- `check_argument` for all arguments. -/
def sourceUses : List Argument → Fin 32 → ℕ
  | [] => fun _ => 0
  | .reg _ n :: args => Function.update (sourceUses args) n.castSucc (sourceUses args n.castSucc + 1)
  | .imm _ _ :: args => sourceUses args

/-- `handle_register_argument` for the arguments from a position on. -/
def handleRegisterArguments : ℕ → List Argument → MoveState → MoveState
  | _, [], st => st
  | i, .imm _ _ :: args, st => handleRegisterArguments (i + 1) args st
  | i, .reg size n :: args, st =>
    let dstReg := argReg size i
    let arg := gpr size n
    if dstReg = arg then handleRegisterArguments (i + 1) args { st with uses := release st.uses arg }
    else if st.uses (Fin.ofNat 32 i) = 0 then
      handleRegisterArguments (i + 1) args
        { st with
          uses := release st.uses arg
          emitted := st.emitted ++ [⟨⟨dstReg, arg⟩, st.pending ++ argMoves (i + 1) args⟩] }
    else handleRegisterArguments (i + 1) args { st with pending := st.pending ++ [⟨dstReg, arg⟩] }

/-- `handle_immediate_argument` for the arguments from a position on, at an address. -/
def handleImmediateArguments : ℕ → List Argument → BitVec 64 → Option (List Inst)
  | _, [], _ => some []
  | i, .reg _ _ :: args, pc => handleImmediateArguments (i + 1) args pc
  | i, .imm size value :: args, pc => do
    let code ← MOVI2R (argReg size i) value pc
    let rest ← handleImmediateArguments (i + 1) args (pc + 4 * BitVec.ofNat 64 code.length)
    some (code ++ rest)

/-- The moves of `ABI_CallFunction`. -/
def callMoves (fuel : ℕ) (args : List Argument) : Option (Except Unit (List EmittedMove)) :=
  let st := handleRegisterArguments 0 args ⟨sourceUses args, [], []⟩
  if st.pending.isEmpty then some (.ok st.emitted)
  else (parallelMoves fuel st).map fun r => r.map MoveState.emitted

/-- The code for the arguments, at an address. An error is a failed assertion. -/
def callArguments (fuel : ℕ) (args : List Argument) (pc : BitVec 64) :
    Option (Except Unit (List EmittedMove × List Inst)) :=
  match callMoves fuel args with
  | none => none
  | some (.error e) => some (.error e)
  | some (.ok emitted) =>
    let moves := movesCode emitted
    match handleImmediateArguments 0 args (pc + 4 * BitVec.ofNat 64 moves.length) with
    | some code => some (.ok (emitted, moves ++ code))
    | none => some (.error ())

/-! ## The invariant -/

def execMove (s : Cpu) (m : RegisterMove) : Cpu := s.writeSp m.dst (s.readSp m.src)

def runMoves (emitted : List EmittedMove) (s : Cpu) : Cpu := emitted.foldl (fun s e => execMove s e.move) s

/-- What a move gives to its destination. A register that is already in its place stays as it is. -/
def moved (m : RegisterMove) (s : Cpu) : BitVec 64 :=
  if m.dst = m.src then s.x m.src.num else s.readSp m.src

/-- A move that was written overwrites nothing that is still read. -/
structure EmittedMove.Safe (e : EmittedMove) : Prop where
  size : e.move.dst.size = e.move.src.size
  dst : e.move.dst.num ≠ 31
  src : e.move.src.num ≠ 31
  pending : ∀ m ∈ e.pending, m.src.num ≠ e.move.dst.num

/-- The moves that are left, and the numbers of their uses. -/
structure Pending (moves : List RegisterMove) (uses : Fin 32 → ℕ) : Prop where
  nodup : (moves.map fun m => m.dst.num).Nodup
  size : ∀ m ∈ moves, m.dst.size = m.src.size
  dst : ∀ m ∈ moves, m.dst.num < 8
  src : ∀ m ∈ moves, m.src.num ≠ 31
  uses : ∀ n, uses n = (moves.map fun m => m.src.num).count n

/-- With `moves` left of `all`, the registers hold what they are to give, and the others have got it. -/
structure Outstanding (all moves : List RegisterMove) (s₀ s : Cpu) : Prop where
  values : ∀ m ∈ moves, ∃ t ∈ all, t.dst.num = m.dst.num ∧ moved m s = moved t s₀
  done : ∀ t ∈ all, t.dst.num ∉ moves.map (fun m => m.dst.num) → s.x t.dst.num = moved t s₀

section Invariant

variable {all moves moves' : List RegisterMove} {uses : Fin 32 → ℕ} {s₀ s : Cpu} {m : RegisterMove}

theorem Pending.perm (h : Pending moves uses) (hperm : moves.Perm moves') : Pending moves' uses where
  nodup := (hperm.map _).nodup_iff.mp h.nodup
  size m hm := h.size m (hperm.mem_iff.mpr hm)
  dst m hm := h.dst m (hperm.mem_iff.mpr hm)
  src m hm := h.src m (hperm.mem_iff.mpr hm)
  uses n := by rw [h.uses, (hperm.map _).count_eq]

theorem Outstanding.perm (h : Outstanding all moves s₀ s) (hperm : moves.Perm moves') :
    Outstanding all moves' s₀ s where
  values m hm := h.values m (hperm.mem_iff.mpr hm)
  done t ht hnot := h.done t ht fun hmem => hnot ((hperm.map _).mem_iff.mp hmem)

theorem Pending.release (h : Pending (m :: moves) uses) : Pending moves (release uses m.src) where
  nodup := (List.nodup_cons.mp h.nodup).2
  size m' hm := h.size m' (List.mem_cons_of_mem _ hm)
  dst m' hm := h.dst m' (List.mem_cons_of_mem _ hm)
  src m' hm := h.src m' (List.mem_cons_of_mem _ hm)
  uses n := by
    have huses := h.uses n
    rw [List.map_cons, List.count_cons] at huses
    rw [Arm64Gen.release, Function.update_apply]
    by_cases hn : n = m.src.num
    · rw [if_pos hn, ← hn, huses, hn]
      simp
    · rw [if_neg hn, huses, if_neg (by simpa using fun h => hn h.symm), Nat.add_zero]

theorem Pending.src_ne (h : Pending moves uses) {n : Fin 32} (hzero : uses n = 0) :
    ∀ m ∈ moves, m.src.num ≠ n := by
  intro m hm hn
  rw [h.uses, List.count_eq_zero] at hzero
  exact hzero (List.mem_map.mpr ⟨m, hm, hn⟩)

theorem moved_of_ne (h : m.dst ≠ m.src) (s : Cpu) : moved m s = s.readSp m.src := if_neg h

theorem moved_congr {s s' : Cpu} (h : s.x m.src.num = s'.x m.src.num) : moved m s = moved m s' := by
  rw [moved, moved, Cpu.readSp, Cpu.readSp, h]

theorem ne_of_num_ne {r r' : ARM64Reg} (h : r.num ≠ r'.num) : r ≠ r' := fun heq => h (heq ▸ rfl)

theorem execMove_x_of_ne {n : Fin 32} (h : n ≠ m.dst.num) : (execMove s m).x n = s.x n := writeSp_x_of_ne h

theorem execMove_x (hsize : m.dst.size = m.src.size) : (execMove s m).x m.dst.num = s.readSp m.src := by
  simp [execMove, Cpu.writeSp, Cpu.readSp, hsize]

theorem eq_of_dst_eq (hnodup : (all.map fun m => m.dst.num).Nodup) {t t' : RegisterMove} (ht : t ∈ all)
    (ht' : t' ∈ all)
    (h : t.dst.num = t'.dst.num) : t = t' := List.inj_on_of_nodup_map hnodup ht ht' h

theorem Outstanding.emit (hnodup : (all.map fun m => m.dst.num).Nodup) (hp : Pending (m :: moves) uses)
    (hzero : uses m.dst.num = 0) (h : Outstanding all (m :: moves) s₀ s) :
    Outstanding all moves s₀ (execMove s m) := by
  have hne := hp.src_ne hzero
  have hself : m.dst ≠ m.src := (ne_of_num_ne (hne m List.mem_cons_self)).symm
  refine ⟨fun m' hm' => ?_, fun t ht hnot => ?_⟩
  · obtain ⟨t, ht, hdst, hvalue⟩ := h.values m' (List.mem_cons_of_mem _ hm')
    refine ⟨t, ht, hdst, ?_⟩
    rw [← hvalue]
    exact moved_congr (execMove_x_of_ne (hne m' (List.mem_cons_of_mem _ hm')))
  · by_cases hdst : t.dst.num = m.dst.num
    · obtain ⟨t', ht', hdst', hvalue⟩ := h.values m List.mem_cons_self
      obtain rfl := eq_of_dst_eq hnodup ht ht' (hdst.trans hdst'.symm)
      rw [hdst, execMove_x (hp.size m List.mem_cons_self), ← hvalue, moved_of_ne hself]
    · rw [execMove_x_of_ne hdst]
      refine h.done t ht ?_
      rw [List.map_cons, List.mem_cons, not_or]
      exact ⟨hdst, hnot⟩

theorem Outstanding.skip (hnodup : (all.map fun m => m.dst.num).Nodup) (hself : m.dst = m.src)
    (h : Outstanding all (m :: moves) s₀ s) : Outstanding all moves s₀ s := by
  refine ⟨fun m' hm' => h.values m' (List.mem_cons_of_mem _ hm'), fun t ht hnot => ?_⟩
  by_cases hdst : t.dst.num = m.dst.num
  · obtain ⟨t', ht', hdst', hvalue⟩ := h.values m List.mem_cons_self
    obtain rfl := eq_of_dst_eq hnodup ht ht' (hdst.trans hdst'.symm)
    rw [← hvalue, moved, if_pos hself, hdst, hself]
  · refine h.done t ht ?_
    rw [List.map_cons, List.mem_cons, not_or]
    exact ⟨hdst, hnot⟩

/-! ## Cycles -/

/-- Where every destination is used, the sources are the destinations in another order. -/
theorem Pending.stuck (h : Pending moves uses) (hstuck : ∀ m ∈ moves, uses m.dst.num ≠ 0) :
    (moves.map fun m => m.dst.num).Perm (moves.map fun m => m.src.num) := by
  have hsubset : (moves.map fun m => m.dst.num) ⊆ moves.map fun m => m.src.num := by
    intro n hn
    obtain ⟨m, hm, rfl⟩ := List.mem_map.mp hn
    have huses := hstuck m hm
    rw [h.uses, Ne, List.count_eq_zero, not_not] at huses
    exact huses
  exact (List.subperm_of_subset h.nodup hsubset).perm_of_length_le (by simp)

theorem tempReg_of_stuck (h : Pending moves uses) (hstuck : ∀ m ∈ moves, uses m.dst.num ≠ 0) :
    tempReg uses = some 8 := by
  have hfree : uses 8 = 0 := by
    rw [h.uses, List.count_eq_zero, ← (h.stuck hstuck).mem_iff]
    intro hmem
    obtain ⟨m, hm, hnum⟩ := List.mem_map.mp hmem
    have hlt := h.dst m hm
    rw [hnum] at hlt
    exact absurd hlt (by decide)
  rw [tempReg, List.find?_cons_of_pos (by simpa using hfree)]

/-- The first move reads the temporary register. -/
def RegisterMove.from (m : RegisterMove) (temp : Fin 32) : RegisterMove := ⟨m.dst, ⟨m.src.size, temp⟩⟩

theorem Pending.src_lt (h : Pending moves uses) (hstuck : ∀ m ∈ moves, uses m.dst.num ≠ 0) :
    ∀ m ∈ moves, m.src.num < 8 := by
  intro m hm
  obtain ⟨m', hm', hnum⟩ := List.mem_map.mp ((h.stuck hstuck).mem_iff.mpr (List.mem_map.mpr ⟨m, hm, rfl⟩))
  rw [← hnum]
  exact h.dst m' hm'

theorem Pending.src_nodup (h : Pending moves uses) (hstuck : ∀ m ∈ moves, uses m.dst.num ≠ 0) :
    (moves.map fun m => m.src.num).Nodup := (h.stuck hstuck).nodup_iff.mp h.nodup

/-- Only the first move has its source, so it alone is renamed. -/
theorem rename_eq (h : Pending (m :: moves) uses) (hstuck : ∀ m' ∈ m :: moves, uses m'.dst.num ≠ 0) (temp : Fin 32) :
    (m :: moves).map (fun m' => if m'.src = m.src then { m' with src := ⟨m.src.size, temp⟩ } else m')
      = m.from temp :: moves := by
  have hnodup := List.nodup_cons.mp (h.src_nodup hstuck)
  rw [List.map_cons, if_pos rfl]
  congr 1
  refine (List.map_congr_left fun m' hm' => if_neg fun heq => ?_).trans (List.map_id moves)
  exact hnodup.1 (List.mem_map.mpr ⟨m', hm', by rw [heq]⟩)

theorem Pending.rename (h : Pending (m :: moves) uses) (hstuck : ∀ m' ∈ m :: moves, uses m'.dst.num ≠ 0) :
    Pending (m.from 8 :: moves) (Function.update (Function.update uses 8 (uses m.src.num)) m.src.num 0) where
  nodup := h.nodup
  size m' hm := by
    rcases List.mem_cons.mp hm with rfl | hm
    · exact h.size m List.mem_cons_self
    · exact h.size m' (List.mem_cons_of_mem _ hm)
  dst m' hm := by
    rcases List.mem_cons.mp hm with rfl | hm
    · exact h.dst m List.mem_cons_self
    · exact h.dst m' (List.mem_cons_of_mem _ hm)
  src m' hm := by
    rcases List.mem_cons.mp hm with rfl | hm
    · exact (by decide : (8 : Fin 32) ≠ 31)
    · exact h.src m' (List.mem_cons_of_mem _ hm)
  uses n := by
    have hnodup := List.nodup_cons.mp (h.src_nodup hstuck)
    have hlt := h.src_lt hstuck
    have h8 : (moves.map fun m => m.src.num).count 8 = 0 := by
      rw [List.count_eq_zero]
      intro hmem
      obtain ⟨m', hm', hnum⟩ := List.mem_map.mp hmem
      have hm := hlt m' (List.mem_cons_of_mem _ hm')
      rw [hnum] at hm
      exact absurd hm (by decide)
    have hsrc : (moves.map fun m => m.src.num).count m.src.num = 0 := List.count_eq_zero.mpr hnodup.1
    have hne : m.src.num ≠ 8 := fun h => absurd (h ▸ hlt m List.mem_cons_self) (by decide)
    rw [List.map_cons, List.count_cons, Function.update_apply, Function.update_apply]
    by_cases hn : n = m.src.num
    · rw [if_pos hn, hn, hsrc, if_neg]
      simpa [RegisterMove.from] using hne.symm
    · rw [if_neg hn]
      by_cases h8' : n = 8
      · rw [if_pos h8', h8', h8, h.uses, List.map_cons, List.count_cons, hsrc]
        simp [RegisterMove.from]
      · rw [if_neg h8', h.uses, List.map_cons, List.count_cons, if_neg, if_neg]
        · simpa [RegisterMove.from] using fun h => h8' h.symm
        · simpa using fun h => hn h.symm

theorem Outstanding.rename (hall : ∀ t ∈ all, t.dst.num < 8) (hp : Pending (m :: moves) uses)
    (hstuck : ∀ m' ∈ m :: moves, uses m'.dst.num ≠ 0) (hself : m.dst ≠ m.src)
    (h : Outstanding all (m :: moves) s₀ s) :
    Outstanding all (m.from 8 :: moves) s₀ (execMove s ⟨⟨m.src.size, 8⟩, m.src⟩) := by
  have hlt := hp.src_lt hstuck
  have hne : ∀ n : Fin 32, n < 8 → n ≠ 8 := fun n hn heq => absurd (heq ▸ hn) (by decide)
  refine ⟨fun m' hm' => ?_, fun t ht hnot => ?_⟩
  · rcases List.mem_cons.mp hm' with rfl | hm'
    · obtain ⟨t, ht, hdst, hvalue⟩ := h.values m List.mem_cons_self
      refine ⟨t, ht, hdst, ?_⟩
      have hself' : (m.from 8).dst ≠ (m.from 8).src :=
        ne_of_num_ne (hne _ (hp.dst m List.mem_cons_self))
      rw [← hvalue, moved_of_ne hself, moved_of_ne hself']
      simp [RegisterMove.from, execMove, Cpu.readSp, Cpu.writeSp]
    · obtain ⟨t, ht, hdst, hvalue⟩ := h.values m' (List.mem_cons_of_mem _ hm')
      refine ⟨t, ht, hdst, ?_⟩
      rw [← hvalue]
      exact moved_congr (execMove_x_of_ne (hne _ (hlt m' (List.mem_cons_of_mem _ hm'))))
  · rw [execMove_x_of_ne (hne _ (hall t ht))]
    exact h.done t ht hnot

end Invariant

/-! ## The passes -/

/-- The invariant of the states, with the moves that are left. -/
structure Keeps (all moves : List RegisterMove) (st : MoveState) : Prop where
  pending : Pending moves st.uses
  safe : ∀ e ∈ st.emitted, e.Safe
  values : ∀ s₀, Outstanding all moves s₀ (runMoves st.emitted s₀)

section Passes

variable {all before moves : List RegisterMove} {st : MoveState} {m : RegisterMove}

theorem Keeps.perm {moves' : List RegisterMove} (h : Keeps all moves st) (hperm : moves.Perm moves') :
    Keeps all moves' st := ⟨h.pending.perm hperm, h.safe, fun s₀ => (h.values s₀).perm hperm⟩

theorem Keeps.emit (hnodup : (all.map fun m => m.dst.num).Nodup) (h : Keeps all (m :: moves) st)
    (hzero : st.uses m.dst.num = 0) (pending : List RegisterMove) :
    Keeps all moves ⟨release st.uses m.src, pending, st.emitted ++ [⟨m, moves⟩]⟩ := by
  refine ⟨h.pending.release, fun e he => ?_, fun s₀ => ?_⟩
  · rcases List.mem_append.mp he with he | he
    · exact h.safe e he
    · rw [List.mem_singleton] at he
      subst he
      refine ⟨h.pending.size m List.mem_cons_self, fun h31 => ?_, h.pending.src m List.mem_cons_self,
        fun m' hm' => h.pending.src_ne hzero m' (List.mem_cons_of_mem _ hm')⟩
      have hlt := h.pending.dst m List.mem_cons_self
      rw [h31] at hlt
      exact absurd hlt (by decide)
  · rw [runMoves, List.foldl_append]
    exact (h.values s₀).emit hnodup h.pending hzero

theorem movePass_spec (hnodup : (all.map fun m => m.dst.num).Nodup) (moves before : List RegisterMove)
    (st : MoveState) (h : Keeps all (before ++ moves) st) :
    Keeps all (before ++ (movePass before moves st).1.pending) (movePass before moves st).1 ∧
      (movePass before moves st).1.pending.Sublist moves ∧
      ((movePass before moves st).2 = true → (movePass before moves st).1.pending.length < moves.length) ∧
      ((movePass before moves st).2 = false →
        (movePass before moves st).1 = { st with pending := moves } ∧ ∀ m ∈ moves, st.uses m.dst.num ≠ 0) := by
  induction moves generalizing before with
  | nil =>
    refine ⟨⟨h.pending, h.safe, h.values⟩, List.Sublist.refl _, fun h => ?_, fun _ => ⟨rfl, ?_⟩⟩
    · cases h
    · intro m hm
      cases hm
  | cons m moves ih =>
    obtain ⟨hkeeps, hsub, htrue, hfalse⟩ := ih (before ++ [m]) (by rwa [List.append_assoc])
    rw [List.append_assoc] at hkeeps
    rw [movePass]
    dsimp only
    generalize movePass (before ++ [m]) moves st = r at hkeeps hsub htrue hfalse
    split_ifs with hzero
    · refine ⟨?_, hsub.cons m, fun _ => Nat.lt_succ_of_le hsub.length_le, fun h => by cases h⟩
      exact (hkeeps.perm List.perm_middle).emit hnodup hzero _
    · refine ⟨⟨hkeeps.pending, hkeeps.safe, hkeeps.values⟩, hsub.cons_cons m, fun h => ?_, fun h => ?_⟩
      · exact Nat.succ_lt_succ (htrue h)
      · obtain ⟨hst, hall⟩ := hfalse h
        rw [hst] at hzero ⊢
        refine ⟨rfl, fun m' hm' => ?_⟩
        rcases List.mem_cons.mp hm' with rfl | hm'
        · exact hzero
        · exact hall m' hm'

/-! ## The loop -/

/-- The states of the loop: no move goes to its own source. -/
structure LoopState (all : List RegisterMove) (st : MoveState) : Prop where
  keeps : Keeps all st.pending st
  ne : ∀ m ∈ st.pending, m.dst ≠ m.src

/-- Some destination is not used. -/
def HasFree (st : MoveState) : Prop := ∃ m ∈ st.pending, st.uses m.dst.num = 0

instance (st : MoveState) : Decidable (HasFree st) := by
  unfold HasFree
  infer_instance

/-- Each iteration removes a move, or makes a destination free. -/
def loopMeasure (st : MoveState) : ℕ := 2 * st.pending.length + if HasFree st then 0 else 1

theorem breakCycle_spec (hall : ∀ t ∈ all, t.dst.num < 8) (h : LoopState all st) (hne : st.pending ≠ [])
    (hstuck : ∀ m ∈ st.pending, st.uses m.dst.num ≠ 0) :
    LoopState all (breakCycle st 8) ∧ HasFree (breakCycle st 8) ∧
      (breakCycle st 8).pending.length = st.pending.length := by
  obtain ⟨uses, pending, emitted⟩ := st
  obtain ⟨hkeeps, hself⟩ := h
  dsimp only at hkeeps hself hne hstuck ⊢
  cases pending with
  | nil => exact absurd rfl hne
  | cons m moves =>
    have hlt := hkeeps.pending.src_lt hstuck
    have hbreak : breakCycle ⟨uses, m :: moves, emitted⟩ 8
        = ⟨Function.update (Function.update uses 8 (uses m.src.num)) m.src.num 0, m.from 8 :: moves,
          emitted ++ [⟨⟨⟨m.src.size, 8⟩, m.src⟩, m :: moves⟩]⟩ := by
      have hrename := rename_eq hkeeps.pending hstuck 8
      rw [breakCycle]
      dsimp only
      rw [hrename]
    rw [hbreak]
    refine ⟨⟨⟨hkeeps.pending.rename hstuck, fun e he => ?_, fun s₀ => ?_⟩, fun m' hm' => ?_⟩, ?_, rfl⟩
    · rcases List.mem_append.mp he with he | he
      · exact hkeeps.safe e he
      · rw [List.mem_singleton] at he
        subst he
        refine ⟨rfl, (by decide : (8 : Fin 32) ≠ 31), hkeeps.pending.src m List.mem_cons_self, fun m' hm' heq => ?_⟩
        have hm := hlt m' hm'
        rw [heq] at hm
        exact absurd hm (by decide : ¬(8 : Fin 32) < 8)
    · rw [runMoves, List.foldl_append]
      exact (hkeeps.values s₀).rename hall hkeeps.pending hstuck (hself m List.mem_cons_self)
    · rcases List.mem_cons.mp hm' with rfl | hm'
      · refine ne_of_num_ne fun heq => ?_
        have hm := hkeeps.pending.dst m List.mem_cons_self
        have heq' : m.dst.num = 8 := heq
        rw [heq'] at hm
        exact absurd hm (by decide)
      · exact hself m' (List.mem_cons_of_mem _ hm')
    · -- the move to the old source is free
      obtain ⟨m', hm', hnum⟩ :=
        List.mem_map.mp ((hkeeps.pending.stuck hstuck).mem_iff.mpr (List.mem_map.mpr ⟨m, List.mem_cons_self, rfl⟩))
      have hzero : Function.update (Function.update uses 8 (uses m.src.num)) m.src.num 0 m'.dst.num = 0 := by
        rw [hnum, Function.update_self]
      rcases List.mem_cons.mp hm' with rfl | hm'
      · exact ⟨m'.from 8, List.mem_cons_self, hzero⟩
      · exact ⟨m', List.mem_cons_of_mem _ hm', hzero⟩

theorem moveBody_spec (hall : ∀ t ∈ all, t.dst.num < 8) (hnodup : (all.map fun m => m.dst.num).Nodup)
    (h : LoopState all st) (hne : st.pending ≠ []) :
    ∃ st', moveBody st = .ok st' ∧ LoopState all st' ∧ loopMeasure st' < loopMeasure st := by
  obtain ⟨hkeeps, hsub, htrue, hfalse⟩ := movePass_spec hnodup st.pending [] st h.keeps
  rw [moveBody]
  generalize movePass [] st.pending st = r at hkeeps hsub htrue hfalse
  dsimp only
  by_cases hr : r.2 = true
  · rw [if_pos hr]
    refine ⟨r.1, rfl, ⟨hkeeps, fun m hm => h.ne m (hsub.subset hm)⟩, ?_⟩
    have hlt := htrue hr
    rw [loopMeasure, loopMeasure]
    split_ifs
    · omega
    · omega
    · omega
    · omega
  · obtain ⟨hst, hstuck⟩ := hfalse (Bool.eq_false_iff.mpr hr)
    have hst' : r.1 = st := hst
    rw [if_neg hr, hst', tempReg_of_stuck h.keeps.pending hstuck]
    obtain ⟨hloop, hfree, hlength⟩ := breakCycle_spec hall h hne hstuck
    refine ⟨_, rfl, hloop, ?_⟩
    have hnot : ¬HasFree st := fun ⟨m, hm, hzero⟩ => hstuck m hm hzero
    rw [loopMeasure, loopMeasure, hlength, if_pos hfree, if_neg hnot]
    omega

/-- The loop ends, without a failed assertion, and all moves are done. -/
theorem parallelMoves_spec (hall : ∀ t ∈ all, t.dst.num < 8) (hnodup : (all.map fun m => m.dst.num).Nodup)
    (h : LoopState all st) :
    ∃ fuel st', parallelMoves fuel st = some (.ok st') ∧ Keeps all [] st' := by
  have hbody : ∀ st : MoveState, LoopState all st → (!st.pending.isEmpty) = true →
      ∃ st', moveBody st = .ok st' ∧ LoopState all st' ∧ loopMeasure st' < loopMeasure st := by
    intro st hst hcond
    exact moveBody_spec hall hnodup hst (by simpa using hcond)
  obtain ⟨st', hrun⟩ := While.whileLoop_terminates loopMeasure hbody h (Nat.lt_succ_self _)
  have hend := While.whileLoop_invariant (fun s s' hs hc hb => by
    obtain ⟨s'', hs'', hkeep, -⟩ := hbody s hs hc
    rw [hs''] at hb
    cases hb
    exact hkeep) h hrun
  have hempty : st'.pending = [] := by simpa using hend.2
  exact ⟨_, st', hrun, hempty ▸ hend.1.keeps⟩

end Passes

/-! ## The arguments -/

/-- The value of an argument with zeros above 32 bits. -/
def zeroExtended (s : Cpu) (_ : ℕ) : Argument → BitVec 64
  | .reg size n => fit size (s.x n.castSucc)
  | .imm size value => fit size value

/-- The same, but a register that is at its position already keeps all its bits. -/
def argumentValue (s : Cpu) (i : ℕ) : Argument → BitVec 64
  | .reg size n => if argReg size i = gpr size n then s.x n.castSucc else fit size (s.x n.castSucc)
  | .imm size value => fit size value

/-- The code exists, no move overwrites a register that is still to be read, and the registers of the arguments get
their values. -/
def Passes (value : Cpu → ℕ → Argument → BitVec 64) (args : List Argument) (pc : BitVec 64) : Prop :=
  ∃ fuel emitted code, callArguments fuel args pc = some (.ok (emitted, code)) ∧
    (∀ e ∈ emitted, ∀ m ∈ e.pending, m.src.num ≠ e.move.dst.num) ∧
    ∀ s i arg, args[i]? = some arg → (run pc code s).x (Fin.ofNat 32 i) = value s i arg

section Arguments

variable {all : List RegisterMove} {st : MoveState}

theorem ofNat_val {i : ℕ} (h : i < 8) : (Fin.ofNat 32 i).val = i := Nat.mod_eq_of_lt (by omega)

theorem argReg_eq {size : GPRSize} {i : ℕ} (h : i < 8) : argReg size i = gpr size ⟨i, by omega⟩ := by
  rw [argReg, gpr]
  congr 1
  exact Fin.ext (ofNat_val h)

theorem argMoves_dst {i : ℕ} {args : List Argument} (h : i + args.length ≤ 8) :
    ∀ m ∈ argMoves i args, i ≤ m.dst.num.val ∧ m.dst.num.val < i + args.length := by
  induction args generalizing i with
  | nil => exact fun m hm => by cases hm
  | cons arg args ih =>
    rw [List.length_cons] at h ⊢
    have hrest : ∀ m ∈ argMoves (i + 1) args, i ≤ m.dst.num.val ∧ m.dst.num.val < i + (args.length + 1) := by
      intro m hm
      have hm' := ih (by omega) m hm
      omega
    cases arg with
    | imm size value => exact hrest
    | reg size n =>
      intro m hm
      rcases List.mem_cons.mp hm with rfl | hm
      · have hi : (argReg size i).num.val = i := ofNat_val (by omega)
        rw [hi]
        omega
      · exact hrest m hm

theorem pending_argMoves {i : ℕ} {args : List Argument} (h : i + args.length ≤ 8) :
    Pending (argMoves i args) (sourceUses args) := by
  have hdst : ∀ m ∈ argMoves i args, m.dst.num < 8 := fun m hm => by
    have hlt := (argMoves_dst h m hm).2
    exact Fin.lt_def.mpr (show m.dst.num.val < 8 by omega)
  induction args generalizing i with
  | nil =>
    exact ⟨List.nodup_nil, fun m hm => absurd hm List.not_mem_nil, hdst, fun m hm => absurd hm List.not_mem_nil,
      fun n => rfl⟩
  | cons arg args ih =>
    rw [List.length_cons] at h
    cases arg with
    | imm size value => exact ih (by omega) hdst
    | reg size n =>
      have hrest := ih (show i + 1 + args.length ≤ 8 by omega) fun m hm => hdst m (List.mem_cons_of_mem _ hm)
      refine ⟨List.nodup_cons.mpr ⟨?_, hrest.nodup⟩, ?_, hdst, ?_, fun k => ?_⟩
      · intro hmem
        obtain ⟨m, hm, hnum⟩ := List.mem_map.mp hmem
        have hm' := (argMoves_dst (show i + 1 + args.length ≤ 8 by omega) m hm).1
        have hi : (argReg size i).num.val = i := ofNat_val (by omega)
        have hval := congrArg Fin.val hnum
        dsimp only at hval
        omega
      · intro m hm
        rcases List.mem_cons.mp hm with rfl | hm
        · rfl
        · exact hrest.size m hm
      · intro m hm
        rcases List.mem_cons.mp hm with rfl | hm
        · exact gpr_num_ne size n
        · exact hrest.src m hm
      · rw [sourceUses, Function.update_apply, argMoves, List.map_cons, List.count_cons, hrest.uses, hrest.uses]
        by_cases hk : k = n.castSucc
        · rw [if_pos hk, hk, if_pos (by simp [gpr])]
        · rw [if_neg hk, if_neg (by simpa [gpr] using fun h => hk h.symm)]
          rfl

theorem handleRegisterArguments_spec (hnodup : (all.map fun m => m.dst.num).Nodup) {i : ℕ} {args : List Argument}
    (h : Keeps all (st.pending ++ argMoves i args) st) (hne : ∀ m ∈ st.pending, m.dst ≠ m.src) :
    LoopState all (handleRegisterArguments i args st) := by
  induction args generalizing i st with
  | nil =>
    rw [argMoves, List.append_nil] at h
    exact ⟨h, hne⟩
  | cons arg args ih =>
    cases arg with
    | imm size value => exact ih h hne
    | reg size n =>
      rw [argMoves] at h
      have hfirst := h.perm List.perm_middle
      rw [handleRegisterArguments]
      split_ifs with hself hzero
      · exact ih ⟨hfirst.pending.release, h.safe, fun s₀ => (hfirst.values s₀).skip hnodup hself⟩ hne
      · exact ih (hfirst.emit hnodup hzero st.pending) hne
      · refine ih ⟨?_, h.safe, fun s₀ => ?_⟩ fun m hm => ?_
        · rw [List.append_assoc]
          exact h.pending
        · rw [List.append_assoc]
          exact h.values s₀
        · rcases List.mem_append.mp hm with hm | hm
          · exact hne m hm
          · rw [List.mem_singleton] at hm
            subst hm
            exact hself

/-- All moves are written, and each destination gets what its move gives. -/
theorem callMoves_spec {args : List Argument} (hlength : args.length ≤ 8) :
    ∃ fuel emitted, callMoves fuel args = some (.ok emitted) ∧ (∀ e ∈ emitted, e.Safe) ∧
      ∀ s₀, ∀ t ∈ argMoves 0 args, (runMoves emitted s₀).x t.dst.num = moved t s₀ := by
  have hpending := @pending_argMoves 0 args (by omega)
  have hstart : Keeps (argMoves 0 args) ([] ++ argMoves 0 args) ⟨sourceUses args, [], []⟩ := by
    refine ⟨hpending, fun e he => absurd he List.not_mem_nil,
      fun s₀ => ⟨fun m hm => ⟨m, hm, rfl, rfl⟩, fun t ht hnot => ?_⟩⟩
    exact absurd (List.mem_map.mpr ⟨t, ht, rfl⟩) hnot
  have hne : ∀ m ∈ (⟨sourceUses args, [], []⟩ : MoveState).pending, m.dst ≠ m.src :=
    fun m hm => absurd hm List.not_mem_nil
  have hloop := handleRegisterArguments_spec hpending.nodup hstart hne
  have hdone : ∀ {st : MoveState}, Keeps (argMoves 0 args) [] st →
      ∀ s₀, ∀ t ∈ argMoves 0 args, (runMoves st.emitted s₀).x t.dst.num = moved t s₀ :=
    fun h s₀ t ht => (h.values s₀).done t ht List.not_mem_nil
  by_cases hempty : (handleRegisterArguments 0 args ⟨sourceUses args, [], []⟩).pending.isEmpty = true
  · have hkeeps := hloop.keeps
    rw [List.isEmpty_iff.mp hempty] at hkeeps
    refine ⟨0, _, ?_, hkeeps.safe, hdone hkeeps⟩
    rw [callMoves, if_pos hempty]
  · obtain ⟨fuel, st', hrun, hkeeps⟩ := parallelMoves_spec hpending.dst hpending.nodup hloop
    refine ⟨fuel, st'.emitted, ?_, hkeeps.safe, hdone hkeeps⟩
    rw [callMoves, if_neg hempty, hrun]
    rfl

theorem run_movesCode {emitted : List EmittedMove} (h : ∀ e ∈ emitted, e.Safe) (pc : BitVec 64) (s : Cpu) :
    run pc (movesCode emitted) s = runMoves emitted s := by
  induction emitted generalizing pc s with
  | nil => rfl
  | cons e emitted ih =>
    have he := h e List.mem_cons_self
    have hexec : Inst.exec pc s (.orr e.move.dst (zeroReg e.move.dst.size) e.move.src) = execMove s e.move := by
      have hsrc : encodeRegTo e.move.dst.size e.move.src = e.move.src := by rw [he.size]; rfl
      rw [Inst.exec, Cpu.writeZr, if_neg he.dst, encodeRegTo_zeroReg, readZr_zeroReg, hsrc, Cpu.readZr,
        if_neg he.src, execMove]
      simp
    rw [movesCode, List.flatMap_cons, MOV, List.singleton_append, run, hexec]
    exact ih (fun e' he' => h e' (List.mem_cons_of_mem _ he')) _ _

/-- The immediates go to their registers, and the other registers stay. -/
theorem handleImmediateArguments_spec {i : ℕ} {args : List Argument} (h : i + args.length ≤ 8) (pc : BitVec 64) :
    ∃ code, handleImmediateArguments i args pc = some code ∧ ∀ s,
      (∀ j size value, args[j]? = some (.imm size value) →
        (run pc code s).x (Fin.ofNat 32 (i + j)) = fit size value) ∧
      ∀ n : Fin 32, (∀ j size value, args[j]? = some (.imm size value) → n.val ≠ i + j) →
        (run pc code s).x n = s.x n := by
  induction args generalizing i pc with
  | nil =>
    refine ⟨[], rfl, fun s => ⟨fun j size value hj => ?_, fun n _ => rfl⟩⟩
    cases hj
  | cons arg args ih =>
    rw [List.length_cons] at h
    cases arg with
    | reg size n =>
      obtain ⟨code, hcode, hrun⟩ := ih (show i + 1 + args.length ≤ 8 by omega) pc
      refine ⟨code, hcode, fun s => ⟨fun j size' value hj => ?_, fun k hk => ?_⟩⟩
      · cases j with
        | zero => cases hj
        | succ j =>
          rw [← (hrun s).1 j size' value hj, Nat.add_right_comm, Nat.add_assoc]
      · refine (hrun s).2 k fun j size' value hj => ?_
        have hkj := hk (j + 1) size' value hj
        omega
    | imm size value =>
      have hi : i < 8 := by omega
      obtain ⟨first, hfirst, -, -, hrunfirst⟩ := movi2r_spec size ⟨i, by omega⟩ value pc
      rw [← argReg_eq hi] at hfirst hrunfirst
      obtain ⟨code, hcode, hrun⟩ := ih (show i + 1 + args.length ≤ 8 by omega)
        (pc + 4 * BitVec.ofNat 64 first.length)
      refine ⟨first ++ code, ?_, fun s => ?_⟩
      · rw [handleImmediateArguments, hfirst]
        simp only [Option.bind_eq_bind, Option.bind_some, hcode]
      rw [run_append, hrunfirst]
      refine ⟨fun j size' value' hj => ?_, fun k hk => ?_⟩
      · cases j with
        | zero =>
          cases hj
          rw [(hrun _).2 (Fin.ofNat 32 (i + 0)) (fun j size' value' hj => ?_)]
          · simp [Cpu.writeSp, argReg]
          · rw [ofNat_val (by omega)]
            omega
        | succ j =>
          rw [← (hrun _).1 j size' value' hj, Nat.add_right_comm, Nat.add_assoc]
      · rw [(hrun _).2 k fun j size' value' hj => ?_]
        · refine writeSp_x_of_ne fun heq => hk 0 size value rfl ?_
          rw [heq, Nat.add_zero]
          exact ofNat_val hi
        · have hkj := hk (j + 1) size' value' hj
          omega

theorem mem_argMoves {i j : ℕ} {args : List Argument} {size : GPRSize} {n : Fin 31}
    (h : args[j]? = some (.reg size n)) : ⟨argReg size (i + j), gpr size n⟩ ∈ argMoves i args := by
  induction args generalizing i j with
  | nil => cases h
  | cons arg args ih =>
    cases j with
    | zero =>
      cases h
      exact List.mem_cons_self
    | succ j =>
      have hmem := @ih (i + 1) j h
      rw [Nat.add_right_comm, Nat.add_assoc] at hmem
      cases arg with
      | reg size' n' => exact List.mem_cons_of_mem _ hmem
      | imm size' value => exact hmem

/-- **The arguments of a call are passed**: the code is written, without a failed assertion, no move overwrites a
register that is still to be read, and each register gets the value of its argument. -/
theorem callArguments_correct (args : List Argument) (hlength : args.length ≤ 8) (pc : BitVec 64) :
    Passes argumentValue args pc := by
  obtain ⟨fuel, emitted, hmoves, hsafe, hdone⟩ := callMoves_spec hlength
  obtain ⟨code, hcode, hrun⟩ := @handleImmediateArguments_spec 0 args (by omega)
    (pc + 4 * BitVec.ofNat 64 (movesCode emitted).length)
  refine ⟨fuel, emitted, movesCode emitted ++ code, ?_, fun e he => (hsafe e he).pending, fun s i arg hi => ?_⟩
  · rw [callArguments, hmoves]
    dsimp only
    rw [hcode]
  have hlt : i < 8 := by
    have hi' := (List.getElem?_eq_some_iff.mp hi).1
    omega
  rw [run_append, run_movesCode hsafe]
  cases arg with
  | imm size value =>
    have himm := (hrun (runMoves emitted s)).1 i size value hi
    rwa [Nat.zero_add] at himm
  | reg size n =>
    have hmem := @mem_argMoves 0 i args size n hi
    rw [Nat.zero_add] at hmem
    rw [(hrun (runMoves emitted s)).2 (Fin.ofNat 32 i) fun j size' value hj heq => ?_]
    · exact hdone s _ hmem
    · rw [ofNat_val hlt, Nat.zero_add] at heq
      rw [← heq, hi] at hj
      cases hj

/-- Two registers are exchanged. -/
theorem callArguments_sample : Passes argumentValue [.reg .b64 1, .reg .b64 0, .imm .b32 7] 0x1000 :=
  callArguments_correct [.reg .b64 1, .reg .b64 0, .imm .b32 7] (by decide) 0x1000

/-- The first argument is `W0`: nothing is written, and the upper half of the register stays. -/
theorem not_zeroExtended_in_place : ¬Passes zeroExtended [.reg .b32 0] 0 := by
  rintro ⟨fuel, emitted, code, hrun, -, h⟩
  have hcode : callArguments fuel [.reg .b32 0] 0 = some (.ok ([], [])) := rfl
  rw [hcode, Option.some_inj, Except.ok.injEq, Prod.mk.injEq] at hrun
  obtain ⟨-, rfl⟩ := hrun
  have hvalue := h ⟨fun _ => 0x100000000, ⟨false, false, false, false⟩⟩ 0 (.reg .b32 0) rfl
  exact absurd hvalue (by decide)

end Arguments

end Arm64Gen
