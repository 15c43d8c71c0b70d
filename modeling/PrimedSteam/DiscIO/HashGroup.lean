import PrimedSteam.DiscIO.HashTasks

/-!
# The concurrent computation of the hashes

The asynchronous tasks of `hashGroup` give the hash blocks that are computed level by level.

* `sequentialHashes`: all H0 arrays, then all H1 arrays, then all H2 arrays.
* `HashOp.post`: what holds once an assignment of a task is over; no other assignment breaks it.
* `hashGroup_spec`: every schedule that runs to the end gives the sequential hash blocks.
* `hashGroup_completes`: every schedule can be continued to the end.
-/

set_option autoImplicit false

namespace VolumeWii

open Tasks Transition Program

/-! ## Level by level -/

section Sequential

variable (sha1 : List Byte → Digest)

/-- All H0 arrays. -/
def hashH0 (m : Arrays) : ℕ → HashBlock := fun i =>
  { m.out i with
    h0 := fun j => sha1 (slice (m.data i) (j * 0x400) 0x400)
    padding_0 := fun _ => 0 }

/-- All H1 arrays. The padding is written in the first block of a subgroup only. -/
def hashH1 (out : ℕ → HashBlock) : ℕ → HashBlock := fun i =>
  { out i with
    h1 := fun k => sha1 (digestBytes (out (i / 8 * 8 + k)).h0)
    padding_1 := if i % 8 = 0 then fun _ => 0 else (out i).padding_1 }

/-- All H2 arrays. The padding is written in the first block only. -/
def hashH2 (out : ℕ → HashBlock) : ℕ → HashBlock := fun i =>
  { out i with
    h2 := fun b => sha1 (digestBytes (out (8 * b)).h1)
    padding_2 := if i = 0 then fun _ => 0 else (out i).padding_2 }

/-- The hash blocks of a group whose data is in `m`. -/
def sequentialHashes (m : Arrays) : ℕ → HashBlock := hashH2 sha1 (hashH1 sha1 (hashH0 sha1 m))

end Sequential

/-! ## What the assignments establish -/

section Post

variable (sha1 : List Byte → Digest) (data : ℕ → Buffer)

def h0Of (i : ℕ) : Fin 31 → Digest := fun j => sha1 (slice (data i) (j * 0x400) 0x400)

def h1Of (i : ℕ) : Digest := sha1 (digestBytes (h0Of sha1 data i))

def h2Of (b : ℕ) : Digest := sha1 (digestBytes fun k : Fin 8 => h1Of sha1 data (8 * b + k))

/-- What holds once an assignment is over, for a group with the blocks `data`. -/
def HashOp.post : HashOp → Arrays → Prop
  | .read i, m => m.data i = data i
  | .h0 i j, m => (m.out i).h0 j = h0Of sha1 data i j
  | .padding0 i, m => (m.out i).padding_0 = fun _ => 0
  | .h1 i, m => (m.out (i / 8 * 8)).h1 (h1Index i) = h1Of sha1 data i
  | .padding1 b, m => (m.out (8 * b)).padding_1 = fun _ => 0
  | .copyH1 b j, m => (m.out (8 * b + (j + 1))).h1 = fun k : Fin 8 => h1Of sha1 data (8 * b + k)
  | .h2 b, m => (m.out 0).h2 b = h2Of sha1 data b
  | .padding2, m => (m.out 0).padding_2 = fun _ => 0
  | .copyH2 j, m => (m.out (j + 1)).h2 = fun b : Fin 8 => h2Of sha1 data b

end Post

variable {sha1 : List Byte → Digest} {readFunction : Option (ℕ → Option Buffer)}

theorem modify_out (m : Arrays) (i k : ℕ) (f : HashBlock → HashBlock) :
    (m.modify i f).out k = if k = i then f (m.out k) else m.out k := by
  show Function.update m.out i (f (m.out i)) k = _
  rw [Function.update_apply]
  split
  · rename_i h
    rw [h]
  · rfl

theorem modify_of_ne {m : Arrays} {i k : ℕ} {f : HashBlock → HashBlock} (h : k ≠ i) :
    (m.modify i f).out k = m.out k := by
  rw [modify_out, if_neg h]

theorem exec_read_out (i : ℕ) (m : Arrays) :
    ((HashOp.read i).exec sha1 readFunction m).out = m.out := by
  simp only [HashOp.exec]
  split_ifs
  · split <;> rfl
  · rfl

theorem exec_read_data {i k : ℕ} (h : k ≠ i) (m : Arrays) :
    ((HashOp.read i).exec sha1 readFunction m).data k = m.data k := by
  simp only [HashOp.exec]
  split_ifs
  · split
    · exact Function.update_of_ne h _ _
    · rfl
  · rfl

/-- **No other assignment breaks a postcondition.** -/
theorem post_keeps {data : ℕ → Buffer} {op op' : HashOp} {m : Arrays} (hne : op ≠ op')
    (h : op.post sha1 data m) : op.post sha1 data (op'.exec sha1 readFunction m) := by
  cases op' with
  | read i =>
    cases op with
    | read k =>
      have hk : k ≠ i := fun heq => hne (congrArg _ heq)
      exact (exec_read_data hk m).trans h
    | _ =>
      simp only [HashOp.post, exec_read_out] at h ⊢
      exact h
  | h0 i j =>
    cases op with
    | read k => exact h
    | h0 k l =>
      simp only [HashOp.post, HashOp.exec, modify_out] at h ⊢
      split
      · rename_i hk
        have hl : l ≠ j := fun heq => hne (by rw [hk, heq])
        exact (Function.update_of_ne hl _ _).trans h
      · exact h
    | _ =>
      simp only [HashOp.post, HashOp.exec, modify_out] at h ⊢
      split <;> exact h
  | padding0 i =>
    cases op with
    | read k => exact h
    | padding0 k =>
      simp only [HashOp.post, HashOp.exec, modify_out] at h ⊢
      split
      · rfl
      · exact h
    | _ =>
      simp only [HashOp.post, HashOp.exec, modify_out] at h ⊢
      split <;> exact h
  | h1 i =>
    cases op with
    | read k => exact h
    | h1 k =>
      simp only [HashOp.post, HashOp.exec, modify_out] at h ⊢
      split
      · rename_i hk
        have hindex : h1Index k ≠ h1Index i := by
          intro heq
          have hmod : k % 8 = i % 8 := congrArg Fin.val heq
          exact hne (congrArg _ (by omega))
        exact (Function.update_of_ne hindex _ _).trans h
      · exact h
    | copyH1 b j =>
      have hj := j.isLt
      simp only [HashOp.post, HashOp.exec] at h ⊢
      rw [modify_of_ne (by omega)]
      exact h
    | _ =>
      simp only [HashOp.post, HashOp.exec, modify_out] at h ⊢
      split <;> exact h
  | padding1 b =>
    cases op with
    | read k => exact h
    | padding1 c =>
      simp only [HashOp.post, HashOp.exec, modify_out] at h ⊢
      split
      · rfl
      · exact h
    | _ =>
      simp only [HashOp.post, HashOp.exec, modify_out] at h ⊢
      split <;> exact h
  | copyH1 b j =>
    have hj := j.isLt
    cases op with
    | read k => exact h
    | h1 k =>
      simp only [HashOp.post, HashOp.exec] at h ⊢
      rw [modify_of_ne (by omega)]
      exact h
    | copyH1 c l =>
      have hl := l.isLt
      simp only [HashOp.post, HashOp.exec] at h ⊢
      rw [modify_of_ne]
      · exact h
      · intro heq
        have hb : c = b := by omega
        have hjl : l = j := by
          ext
          omega
        exact hne (by rw [hb, hjl])
    | _ =>
      simp only [HashOp.post, HashOp.exec, modify_out] at h ⊢
      split <;> exact h
  | h2 b =>
    cases op with
    | read k => exact h
    | h2 c =>
      have hc : c ≠ b := fun heq => hne (congrArg _ heq)
      simp only [HashOp.post, HashOp.exec, modify_out, if_true] at h ⊢
      exact (Function.update_of_ne hc _ _).trans h
    | copyH2 j =>
      simp only [HashOp.post, HashOp.exec] at h ⊢
      rw [modify_of_ne (Nat.succ_ne_zero j)]
      exact h
    | _ =>
      simp only [HashOp.post, HashOp.exec, modify_out] at h ⊢
      split <;> exact h
  | padding2 =>
    cases op with
    | read k => exact h
    | padding2 => exact absurd rfl hne
    | _ =>
      simp only [HashOp.post, HashOp.exec, modify_out] at h ⊢
      split <;> exact h
  | copyH2 j =>
    cases op with
    | read k => exact h
    | h2 c =>
      simp only [HashOp.post, HashOp.exec] at h ⊢
      rw [modify_of_ne (Nat.succ_ne_zero j).symm]
      exact h
    | copyH2 k =>
      have hk : k ≠ j := fun heq => hne (congrArg _ heq)
      simp only [HashOp.post, HashOp.exec] at h ⊢
      rw [modify_of_ne (fun heq => hk (Nat.succ_injective heq))]
      exact h
    | _ =>
      simp only [HashOp.post, HashOp.exec, modify_out] at h ⊢
      split <;> exact h

/-- What no assignment changes. -/
structure Kept (readFunction : Option (ℕ → Option Buffer)) (m₀ m : Arrays) : Prop where
  data : readFunction = none → m.data = m₀.data
  padding_1 : ∀ i, i % 8 ≠ 0 → (m.out i).padding_1 = (m₀.out i).padding_1
  padding_2 : ∀ i, i ≠ 0 → (m.out i).padding_2 = (m₀.out i).padding_2

theorem Kept.exec {m₀ m : Arrays} (h : Kept readFunction m₀ m) (op : HashOp) :
    Kept readFunction m₀ (op.exec sha1 readFunction m) := by
  cases op with
  | read i =>
    refine ⟨fun hnone => ?_, fun k hk => ?_, fun k hk => ?_⟩
    · subst hnone
      rw [← h.data rfl]
      simp only [HashOp.exec]
      split <;> rfl
    · rw [exec_read_out]
      exact h.padding_1 k hk
    · rw [exec_read_out]
      exact h.padding_2 k hk
  | padding1 b =>
    refine ⟨h.data, fun k hk => ?_, fun k hk => ?_⟩
    · simp only [HashOp.exec]
      rw [modify_of_ne (by omega)]
      exact h.padding_1 k hk
    · simp only [HashOp.exec, modify_out]
      split <;> exact h.padding_2 k hk
  | padding2 =>
    refine ⟨h.data, fun k hk => ?_, fun k hk => ?_⟩
    · simp only [HashOp.exec, modify_out]
      split <;> exact h.padding_1 k hk
    · simp only [HashOp.exec]
      rw [modify_of_ne hk]
      exact h.padding_2 k hk
  | _ =>
    refine ⟨h.data, fun k hk => ?_, fun k hk => ?_⟩
    · simp only [HashOp.exec, modify_out]
      split <;> exact h.padding_1 k hk
    · simp only [HashOp.exec, modify_out]
      split <;> exact h.padding_2 k hk

/-! ## Every interleaving -/

/-- The data of the group when all blocks have been read. -/
def groupData (readFunction : Option (ℕ → Option Buffer)) (m₀ : Arrays) : ℕ → Buffer := fun i =>
  (readFunction.bind fun read => read i).getD (m₀.data i)

section Interleaving

variable {m₀ : Arrays} {s : State Task Arrays}

/-- What the tasks have behind them. -/
abbrev HashPast (sha1 : List Byte → Digest) (readFunction : Option (ℕ → Option Buffer))
    (m₀ : Arrays) (s : State Task Arrays) : Prop :=
  (hashProgram sha1 readFunction).Past (Kept readFunction m₀)
    (HashOp.post sha1 (groupData readFunction m₀)) s

variable (hall : success readFunction blocksPerGroup = true)

include hall

theorem HashPast.post (h : HashPast sha1 readFunction m₀ s) {op : HashOp} (hop : op.InRange)
    (hlt : op.place.2 < s.pc op.place.1) :
    op.post sha1 (groupData readFunction m₀) s.memory :=
  h.done hlt (code_of_place sha1 hall hop)

theorem HashPast.h1 (h : HashPast sha1 readFunction m₀ s) {b : ℕ} (hb : b < 8)
    (hpc : 41 ≤ s.pc (.hash (8 * b + 7))) (k : Fin 8) :
    (s.memory.out (8 * b)).h1 k = h1Of sha1 (groupData readFunction m₀) (8 * b + k) := by
  have hk := k.isLt
  have hpost : (HashOp.h1 (8 * b + k)).post sha1 (groupData readFunction m₀) s.memory := by
    refine h.post hall (show 8 * b + (k : ℕ) < 64 by omega) ?_
    show 33 < s.pc (.hash (8 * b + k))
    by_cases hlast : (k : ℕ) = 7
    · rw [hlast]
      omega
    · have hjoin := code_join sha1 hall hb (show (k : ℕ) < 7 by omega)
      have hover := h.joined (show (k : ℕ) + 34 < _ by omega) hjoin
      have hplace := (List.getElem?_eq_some_iff.mp
        (code_of_place sha1 hall (show (HashOp.h1 (8 * b + k)).InRange by
          show 8 * b + (k : ℕ) < 64
          omega))).1
      exact Nat.lt_of_lt_of_le hplace hover
  have hindex : h1Index (8 * b + k) = k := by
    ext
    simp only [h1Index]
    omega
  have hbase : (8 * b + (k : ℕ)) / 8 * 8 = 8 * b := by omega
  rwa [HashOp.post, hindex, hbase] at hpost

theorem HashPast.h2 (h : HashPast sha1 readFunction m₀ s) (hpc : 57 ≤ s.pc (.hash 63)) (b : Fin 8) :
    (s.memory.out 0).h2 b = h2Of sha1 (groupData readFunction m₀) b := by
  have hb := b.isLt
  refine h.post hall (show (HashOp.h2 b).InRange from trivial) ?_
  show 49 < s.pc (.hash (8 * b + 7))
  by_cases hlast : (b : ℕ) = 7
  · rw [hlast]
    exact hpc.trans' (by decide)
  · have hjoin := code_join_last sha1 hall (show (b : ℕ) < 7 by omega)
    have hover := h.joined (show (b : ℕ) + 50 < _ by omega) hjoin
    have hplace := (List.getElem?_eq_some_iff.mp
      (code_of_place sha1 hall (show (HashOp.h2 b).InRange from trivial))).1
    exact Nat.lt_of_lt_of_le hplace hover

/-- **Each assignment establishes its postcondition.** -/
theorem HashPast.establishes (h : HashPast sha1 readFunction m₀ s) {t : Task} {op : HashOp}
    (hop : ((hashProgram sha1 readFunction).code t)[s.pc t]? = some (.run op)) :
    op.post sha1 (groupData readFunction m₀) (op.exec sha1 readFunction s.memory) := by
  obtain ⟨hrange, hplace⟩ := place_of_code hall hop
  have ht : op.place.1 = t := by rw [hplace]
  have hk : op.place.2 = s.pc op.place.1 := by rw [hplace]
  cases op with
  | read i =>
    have hi : i < 64 := hrange
    have hsuccess := success_of_le hall (Nat.succ_le_of_lt hi)
    simp only [HashOp.post, HashOp.exec, success_of_le hall (Nat.le_of_lt hi), if_true, groupData]
    cases hread : readFunction with
    | none =>
      subst hread
      exact congrFun (h.memory.data rfl) i
    | some read =>
      subst hread
      simp only [success, Bool.and_eq_true] at hsuccess
      obtain ⟨data, hdata⟩ := Option.isSome_iff_exists.mp hsuccess.2
      simp only [Option.bind_some, hdata, Option.getD_some]
      exact Function.update_self _ _ _
  | h0 i j =>
    have hi : i < 64 := hrange
    have hawait := h.awaited (show 0 < s.pc (.hash i) by
      rw [← show (HashOp.h0 i j).place.1 = .hash i from rfl, ← hk]
      exact Nat.succ_pos _) (code_await hall hi)
    have hread : s.memory.data i = groupData readFunction m₀ i :=
      h.post hall (show (HashOp.read i).InRange from hi) hawait
    simp only [HashOp.post, HashOp.exec, modify_out, if_true]
    rw [hread]
    exact Function.update_self _ _ _
  | padding0 i =>
    simp only [HashOp.post, HashOp.exec, modify_out, if_true]
  | h1 i =>
    have hi : i < 64 := hrange
    have hpc : s.pc (.hash i) = 33 := hk.symm
    have hh0 : (s.memory.out i).h0 = h0Of sha1 (groupData readFunction m₀) i := by
      funext j
      have hj := j.isLt
      exact h.post hall (show (HashOp.h0 i j).InRange from hi)
        (show (j : ℕ) + 1 < s.pc (.hash i) by omega)
    simp only [HashOp.post, HashOp.exec, modify_out, if_true]
    rw [Function.update_self, hh0, h1Of]
  | padding1 b =>
    simp only [HashOp.post, HashOp.exec, modify_out, if_true]
  | copyH1 b j =>
    have hb : b < 8 := hrange
    have hpc : s.pc (.hash (8 * b + 7)) = j + 42 := hk.symm
    simp only [HashOp.post, HashOp.exec, modify_out, if_true]
    funext k
    exact h.h1 hall hb (by omega) k
  | h2 b =>
    have hb := b.isLt
    have hpc : s.pc (.hash (8 * b + 7)) = 49 := hk.symm
    have hcopy : (s.memory.out (8 * b + (6 + 1))).h1 =
        fun k : Fin 8 => h1Of sha1 (groupData readFunction m₀) (8 * b + k) :=
      h.post hall (show (HashOp.copyH1 b 6).InRange from hb)
        (show 6 + 42 < s.pc (.hash (8 * b + 7)) by omega)
    simp only [HashOp.post, HashOp.exec, modify_out, if_true]
    rw [Function.update_self, hcopy, h2Of]
  | padding2 =>
    simp only [HashOp.post, HashOp.exec, modify_out, if_true]
  | copyH2 j =>
    have hpc : s.pc (.hash 63) = j + 58 := hk.symm
    simp only [HashOp.post, HashOp.exec, modify_out, if_true]
    funext b
    exact h.h2 hall (by omega) b

theorem hashProgram_sound : (hashProgram sha1 readFunction).Sound (Kept readFunction m₀)
    (HashOp.post sha1 (groupData readFunction m₀)) where
  invariant h := h.exec _
  establishes h hop := HashPast.establishes hall h hop
  keeps hne h := post_keeps hne h

theorem HashPast.task_over (h : HashPast sha1 readFunction m₀ s) (hmain : 64 < s.pc .main) {i : ℕ}
    (hi : i < 64) : ((hashProgram sha1 readFunction).code (.hash i)).length ≤ s.pc (.hash i) := by
  have hlast : ((hashProgram sha1 readFunction).code (.hash 63)).length ≤ s.pc (.hash 63) := by
    refine h.joined hmain ?_
    show mainCode[64]? = _
    rw [mainCode_getElem?, if_neg (by decide), if_pos rfl]
  have hsubgroup : ∀ b < 8, ((hashProgram sha1 readFunction).code (.hash (8 * b + 7))).length ≤
      s.pc (.hash (8 * b + 7)) := by
    intro b hb
    by_cases hb7 : b = 7
    · rw [hb7]
      exact hlast
    · have hjoin := code_join_last sha1 hall (show b < 7 by omega)
      exact h.joined ((List.getElem?_eq_some_iff.mp hjoin).1.trans_le hlast) hjoin
  by_cases h7 : i % 8 = 7
  · have heq : 8 * (i / 8) + 7 = i := by omega
    rw [← heq]
    exact hsubgroup _ (by omega)
  · have heq : 8 * (i / 8) + i % 8 = i := by omega
    have hjoin := code_join sha1 hall (show i / 8 < 8 by omega)
      (show i % 8 < 7 by omega)
    have hover := h.joined
      ((List.getElem?_eq_some_iff.mp hjoin).1.trans_le (hsubgroup _ (by omega))) hjoin
    rwa [heq] at hover

theorem HashPast.over (h : HashPast sha1 readFunction m₀ s) (hmain : 64 < s.pc .main) {op : HashOp}
    (hop : op.InRange) : op.post sha1 (groupData readFunction m₀) s.memory := by
  refine h.post hall hop ?_
  have hplace := (List.getElem?_eq_some_iff.mp (code_of_place sha1 hall hop)).1
  cases op with
  | read i => exact (show i < 64 from hop).trans hmain
  | h0 i _ => exact hplace.trans_le (h.task_over hall hmain hop)
  | padding0 i => exact hplace.trans_le (h.task_over hall hmain hop)
  | h1 i => exact hplace.trans_le (h.task_over hall hmain hop)
  | padding1 b =>
    have hb : b < 8 := hop
    exact hplace.trans_le (h.task_over hall hmain (by omega))
  | copyH1 b _ =>
    have hb : b < 8 := hop
    exact hplace.trans_le (h.task_over hall hmain (by omega))
  | h2 b => exact hplace.trans_le (h.task_over hall hmain (by omega))
  | padding2 => exact hplace.trans_le (h.task_over hall hmain (by decide))
  | copyH2 j => exact hplace.trans_le (h.task_over hall hmain (by decide))

/-- **The hash blocks are those of the sequential computation.** -/
theorem HashPast.out_eq (h : HashPast sha1 readFunction m₀ s) (hmain : 64 < s.pc .main) {i : ℕ}
    (hi : i < 64) :
    s.memory.out i = sequentialHashes sha1 ⟨groupData readFunction m₀, m₀.out⟩ i := by
  have hbase : 8 * (i / 8) = i / 8 * 8 := Nat.mul_comm _ _
  have hh1 : ∀ b < 8, ∀ k : Fin 8, (s.memory.out (8 * b)).h1 k =
      h1Of sha1 (groupData readFunction m₀) (8 * b + k) := fun b hb k =>
    h.h1 hall hb (Nat.le_of_lt ((List.getElem?_eq_some_iff.mp (code_of_place sha1 hall
      (show (HashOp.padding1 b).InRange from hb))).1.trans_le
        (h.task_over hall hmain (by omega)))) k
  have hh2 : ∀ b : Fin 8, (s.memory.out 0).h2 b = h2Of sha1 (groupData readFunction m₀) b :=
    fun b => h.over hall hmain (show (HashOp.h2 b).InRange from trivial)
  ext1
  · funext j
    exact h.over hall hmain (show (HashOp.h0 i j).InRange from hi)
  · exact h.over hall hmain (show (HashOp.padding0 i).InRange from hi)
  · show (s.memory.out i).h1 = fun k : Fin 8 => h1Of sha1 (groupData readFunction m₀) (i / 8 * 8 + k)
    by_cases h0 : i % 8 = 0
    · funext k
      have heq : 8 * (i / 8) = i := by omega
      rw [← hbase, ← hh1 (i / 8) (by omega) k, heq]
    · have hcopy := h.over hall hmain
        (show (HashOp.copyH1 (i / 8) ⟨i % 8 - 1, by omega⟩).InRange from
          show i / 8 < 8 by omega)
      have heq : 8 * (i / 8) + (i % 8 - 1 + 1) = i := by omega
      simp only [HashOp.post] at hcopy
      rwa [heq, hbase] at hcopy
  · show (s.memory.out i).padding_1 = if i % 8 = 0 then fun _ => 0 else (m₀.out i).padding_1
    split
    · have hpadding := h.over hall hmain
        (show (HashOp.padding1 (i / 8)).InRange from show i / 8 < 8 by omega)
      have heq : 8 * (i / 8) = i := by omega
      rwa [HashOp.post, heq] at hpadding
    · rename_i h0
      exact h.memory.padding_1 i h0
  · have hseq : ∀ b : Fin 8,
        (sequentialHashes sha1 ⟨groupData readFunction m₀, m₀.out⟩ i).h2 b =
          h2Of sha1 (groupData readFunction m₀) b := by
      intro b
      have hdiv : 8 * (b : ℕ) / 8 * 8 = 8 * b := by omega
      show sha1 (digestBytes fun k : Fin 8 =>
        h1Of sha1 (groupData readFunction m₀) (8 * (b : ℕ) / 8 * 8 + k)) = _
      rw [hdiv, h2Of]
    funext b
    rw [hseq]
    cases i with
    | zero => exact hh2 b
    | succ j =>
      have hcopy := h.over hall hmain (show (HashOp.copyH2 j).InRange from
        show j < 63 by omega)
      exact congrFun hcopy b
  · show (s.memory.out i).padding_2 = if i = 0 then fun _ => 0 else (m₀.out i).padding_2
    split
    · rename_i h0
      subst h0
      exact h.over hall hmain (show HashOp.padding2.InRange from trivial)
    · rename_i h0
      exact h.memory.padding_2 i h0

theorem hashProgram_ranked : (hashProgram sha1 readFunction).Ranked fun t k => match t with
    | .main => if k < 64 then k else 1000000
    | .hash i => 1000 * (i + 1) + k := by
  have hlength : ∀ i < 64, ((hashProgram sha1 readFunction).code (.hash i)).length ≤ 121 := by
    intro i hi
    refine List.getElem?_eq_none_iff.mp ?_
    rw [code_getElem? hall hi]
    unfold instrAt frontAt middleAt lastAt
    split_ifs <;> first | rfl | omega
  have hcode : ∀ i, ¬i < 64 → (hashProgram sha1 readFunction).code (.hash i) = [] := fun i hi =>
    if_neg hi
  refine ⟨fun {t k u n} h => ?_, fun {t k u} h m hm => ?_⟩
  · cases t with
    | main =>
      rw [show (hashProgram sha1 readFunction).code .main = mainCode from rfl,
        mainCode_getElem?] at h
      split_ifs at h <;> cases h
    | hash i =>
      by_cases hi : i < 64
      · rw [code_getElem? hall hi] at h
        unfold instrAt frontAt middleAt lastAt at h
        split_ifs at h <;> cases h
        refine ⟨show i + 1 ≤ 65 by omega, fun m hm => ?_⟩
        show (if m < 64 then m else 1000000) < 1000 * (i + 1) + k
        rw [if_pos (by omega)]
        omega
      · rw [hcode i hi] at h
        cases h
  · cases t with
    | main =>
      rw [show (hashProgram sha1 readFunction).code .main = mainCode from rfl,
        mainCode_getElem?] at h
      split_ifs at h with hk hk'
      · cases h
      · cases h
        have hle := hlength 63 (by decide)
        show 1000 * (63 + 1) + m < if k < 64 then k else 1000000
        rw [if_neg hk]
        omega
    | hash i =>
      by_cases hi : i < 64
      · rw [code_getElem? hall hi] at h
        unfold instrAt frontAt middleAt lastAt at h
        split_ifs at h <;> cases h
        · have hle := hlength (i / 8 * 8 + (k - 34)) (by omega)
          show 1000 * (i / 8 * 8 + (k - 34) + 1) + m < 1000 * (i + 1) + k
          omega
        · have hle := hlength ((k - 50) * 8 + 7) (by omega)
          show 1000 * ((k - 50) * 8 + 7 + 1) + m < 1000 * (i + 1) + k
          omega
      · rw [hcode i hi] at h
        cases h

omit hall in
theorem kept_refl (m₀ : Arrays) : Kept readFunction m₀ m₀ :=
  ⟨fun _ => rfl, fun _ _ => rfl, fun _ _ => rfl⟩

/-- **Every schedule that runs to the end gives the hash blocks of the sequential computation.** -/
theorem hashGroup_spec {schedule : List Task} {result : Bool} {m : Arrays}
    (h : hashGroup sha1 readFunction schedule m₀ = some (result, m)) :
    result = true ∧ ∀ i < 64, m.data i = groupData readFunction m₀ i ∧
      m.out i = sequentialHashes sha1 ⟨groupData readFunction m₀, m₀.out⟩ i := by
  obtain ⟨s, hrun, hs⟩ := Option.bind_eq_some_iff.mp h
  split at hs
  · rename_i hmain
    cases hs
    have hpast : HashPast sha1 readFunction m₀ s :=
      past_of_run (hashProgram_sound hall) (kept_refl m₀) hrun
    have hlt : 64 < s.pc .main := hmain ▸ (by decide : 64 < mainCode.length)
    exact ⟨hall, fun i hi => ⟨hpast.over hall hlt (show (HashOp.read i).InRange from hi),
      hpast.out_eq hall hlt hi⟩⟩
  · cases hs

/-- **Every schedule can be continued to the end.** -/
theorem hashGroup_completes {schedule : List Task}
    (h : run (hashProgram sha1 readFunction).step anyStep (start m₀) schedule = some s) :
    ∃ schedule' m, hashGroup sha1 readFunction (schedule ++ schedule') m₀ = some (true, m) := by
  have hpast : HashPast sha1 readFunction m₀ s :=
    past_of_run (hashProgram_sound hall) (kept_refl m₀) h
  have htasks : ∀ t ∉ insert .main ((Finset.range 64).image Task.hash),
      (hashProgram sha1 readFunction).code t = [] := by
    intro t ht
    cases t with
    | main => exact absurd (Finset.mem_insert_self _ _) ht
    | hash i =>
      refine if_neg fun hi => ht (Finset.mem_insert_of_mem ?_)
      exact Finset.mem_image_of_mem _ (Finset.mem_range.mpr hi)
  obtain ⟨schedule', s', hrun, hfinished⟩ :=
    exists_completion (hashProgram_ranked hall) htasks hpast.bounded
  refine ⟨schedule', s'.memory, ?_⟩
  rw [hashGroup, run_append, h, Option.bind_some, hrun, Option.bind_some,
    if_pos (show s'.pc .main = mainCode.length from hfinished .main), hall]

end Interleaving

end VolumeWii
