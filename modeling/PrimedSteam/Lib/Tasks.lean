import Mathlib.Algebra.Order.BigOperators.Group.Finset
import Mathlib.Algebra.Order.Group.Multiset
import Mathlib.Tactic.Abel
import PrimedSteam.Lib.Transition

/-!
# Tasks that wait for each other

Tasks run straight-line code on one memory. An instruction is an operation on the memory, a wait
until another task has come so far, or a wait for the end of another task. A label of a run is the
task that moves next, so the runs of `Program.step` are all interleavings.

* `Program.Sound`: each operation establishes its postcondition, and no other operation breaks it.
* `past_of_run`: then in every interleaving the operations that are over have their postconditions,
  and the waits that are over are met.
* `exists_completion`: if the waits go down in a rank, every interleaving can be completed.
-/

set_option autoImplicit false

namespace Tasks

open Transition

variable {τ ω μ : Type*}

/-- An instruction of a task. -/
inductive Instr (τ ω : Type*) where
  | run (op : ω)
  | await (task : τ) (count : ℕ)
  | join (task : τ)

/-- How far each task has come, and the memory. -/
structure State (τ μ : Type*) where
  pc : τ → ℕ
  memory : μ

/-- The state before the tasks run. -/
def start (memory : μ) : State τ μ := ⟨fun _ => 0, memory⟩

/-- The code of the tasks and the meaning of the operations. -/
structure Program (τ ω μ : Type*) where
  code : τ → List (Instr τ ω)
  exec : ω → μ → μ

namespace Program

variable (p : Program τ ω μ)

/-- The instruction does not have to wait. -/
def Ready (s : State τ μ) : Instr τ ω → Prop
  | .run _ => True
  | .await u n => n ≤ s.pc u
  | .join u => (p.code u).length ≤ s.pc u

instance (s : State τ μ) : (i : Instr τ ω) → Decidable (p.Ready s i)
  | .run _ => inferInstanceAs (Decidable True)
  | .await u n => inferInstanceAs (Decidable (n ≤ s.pc u))
  | .join u => inferInstanceAs (Decidable ((p.code u).length ≤ s.pc u))

/-- What an instruction does to the memory. -/
def effect : Instr τ ω → μ → μ
  | .run op => p.exec op
  | .await _ _ => id
  | .join _ => id

/-- The task `t` makes its next step. -/
def step [DecidableEq τ] (s : State τ μ) (t : τ) : Option (State τ μ) :=
  match (p.code t)[s.pc t]? with
  | none => none
  | some i =>
    if p.Ready s i then
      some ⟨Function.update s.pc t (s.pc t + 1), p.effect i s.memory⟩
    else none

/-- All tasks are over. -/
def Finished (s : State τ μ) : Prop := ∀ t, s.pc t = (p.code t).length

/-- What the tasks have behind them: operations with their postconditions, and waits. The memory
has the invariant `inv`. -/
structure Past (inv : μ → Prop) (post : ω → μ → Prop) (s : State τ μ) : Prop where
  memory : inv s.memory
  done : ∀ {t k op}, k < s.pc t → (p.code t)[k]? = some (.run op) → post op s.memory
  awaited : ∀ {t k u n}, k < s.pc t → (p.code t)[k]? = some (.await u n) → n ≤ s.pc u
  joined : ∀ {t k u}, k < s.pc t → (p.code t)[k]? = some (.join u) →
    (p.code u).length ≤ s.pc u
  bounded : ∀ t, s.pc t ≤ (p.code t).length

/-- The operations keep the invariant, establish their postconditions and keep each other's. -/
structure Sound (inv : μ → Prop) (post : ω → μ → Prop) : Prop where
  invariant : ∀ {op m}, inv m → inv (p.exec op m)
  establishes : ∀ {s t op}, p.Past inv post s → (p.code t)[s.pc t]? = some (.run op) →
    post op (p.exec op s.memory)
  keeps : ∀ {op op' m}, op ≠ op' → post op m → post op (p.exec op' m)

/-- Every wait is for positions of a smaller rank. -/
structure Ranked (rank : τ → ℕ → ℕ) : Prop where
  await_lt : ∀ {t k u n}, (p.code t)[k]? = some (.await u n) →
    n ≤ (p.code u).length ∧ ∀ m < n, rank u m < rank t k
  join_lt : ∀ {t k u}, (p.code t)[k]? = some (.join u) →
    ∀ m < (p.code u).length, rank u m < rank t k

variable {p} {inv : μ → Prop} {post : ω → μ → Prop} {s s' : State τ μ} {t : τ}

theorem past_start {m : μ} (h : inv m) : p.Past inv post (start m) where
  memory := h
  done h := absurd h (Nat.not_lt_zero _)
  awaited h := absurd h (Nat.not_lt_zero _)
  joined h := absurd h (Nat.not_lt_zero _)
  bounded _ := Nat.zero_le _

variable [DecidableEq τ]

theorem step_eq_some (h : p.step s t = some s') :
    ∃ i, (p.code t)[s.pc t]? = some i ∧ p.Ready s i ∧
      s' = ⟨Function.update s.pc t (s.pc t + 1), p.effect i s.memory⟩ := by
  unfold step at h
  split at h
  · cases h
  · rename_i i hi
    split at h
    · rename_i hready
      exact ⟨i, hi, hready, (Option.some_injective _ h).symm⟩
    · cases h

theorem le_update (s : State τ μ) (t u : τ) :
    s.pc u ≤ Function.update s.pc t (s.pc t + 1) u := by
  rw [Function.update_apply]
  split
  · rename_i h
    rw [h]
    exact Nat.le_succ _
  · exact le_rfl

theorem lt_update {u : τ} {k : ℕ} (h : k < Function.update s.pc t (s.pc t + 1) u) :
    k < s.pc u ∨ u = t ∧ k = s.pc t := by
  rw [Function.update_apply] at h
  split at h
  · rename_i hu
    subst hu
    rcases Nat.lt_succ_iff_lt_or_eq.mp h with hlt | heq
    · exact .inl hlt
    · exact .inr ⟨rfl, heq⟩
  · exact .inl h

/-- **A step keeps what is behind the tasks.** -/
theorem Past.step (hp : p.Sound inv post) (h : p.Past inv post s) (hs : p.step s t = some s') :
    p.Past inv post s' := by
  obtain ⟨i, hi, hready, rfl⟩ := step_eq_some hs
  refine ⟨?_, fun {u k op} hk hop => ?_, fun {u k v n} hk hop => ?_, fun {u k v} hk hop => ?_,
    fun u => ?_⟩
  · cases i with
    | run op => exact hp.invariant h.memory
    | await _ _ => exact h.memory
    | join _ => exact h.memory
  · show post op (p.effect i s.memory)
    rcases lt_update hk with hlt | ⟨rfl, rfl⟩
    · have hpost : post op s.memory := h.done hlt hop
      cases i with
      | run op' =>
        by_cases heq : op = op'
        · subst heq
          exact hp.establishes h hi
        · exact hp.keeps heq hpost
      | await _ _ => exact hpost
      | join _ => exact hpost
    · rw [hi] at hop
      cases hop
      exact hp.establishes h hi
  · refine le_trans ?_ (le_update s t v)
    rcases lt_update hk with hlt | ⟨rfl, rfl⟩
    · exact h.awaited hlt hop
    · rw [hi] at hop
      cases hop
      exact hready
  · refine le_trans ?_ (le_update s t v)
    rcases lt_update hk with hlt | ⟨rfl, rfl⟩
    · exact h.joined hlt hop
    · rw [hi] at hop
      cases hop
      exact hready
  · show Function.update s.pc t (s.pc t + 1) u ≤ (p.code u).length
    rw [Function.update_apply]
    split
    · rename_i hu
      subst hu
      exact (List.getElem?_eq_some_iff.mp hi).1
    · exact h.bounded u

/-- **In every interleaving** the operations that are over have their postconditions. -/
theorem past_of_run (hp : p.Sound inv post) {m : μ} {schedule : List τ} (hm : inv m)
    (h : run p.step anyStep (start m) schedule = some s) : p.Past inv post s :=
  @run_invariant _ _ p.step anyStep _ (p.Past inv post) (fun _ => True)
    (fun _ _ _ hpast _ _ hs => hpast.step hp hs) schedule (start m) s (past_start hm)
    (fun _ _ => trivial) h

theorem exists_step {rank : τ → ℕ → ℕ} (hr : p.Ranked rank) (s : State τ μ) {n : ℕ}
    (hn : rank t (s.pc t) = n) (ht : s.pc t < (p.code t).length) :
    ∃ u s', p.step s u = some s' := by
  induction n using Nat.strong_induction_on generalizing t with
  | _ n ih =>
    have hi : (p.code t)[s.pc t]? = some ((p.code t)[s.pc t]) := List.getElem?_eq_getElem ht
    by_cases hready : p.Ready s ((p.code t)[s.pc t])
    · exact ⟨t, _, by rw [step, hi]; exact if_pos hready⟩
    · cases hinstr : (p.code t)[s.pc t] with
      | run op =>
        rw [hinstr] at hready
        exact absurd trivial hready
      | await u m =>
        rw [hinstr] at hready hi
        have hlt : s.pc u < m := Nat.lt_of_not_le hready
        have hrank := hr.await_lt hi
        exact ih _ (hn ▸ hrank.2 _ hlt) rfl (hlt.trans_le hrank.1)
      | join u =>
        rw [hinstr] at hready hi
        have hlt : s.pc u < (p.code u).length := Nat.lt_of_not_le hready
        exact ih _ (hn ▸ hr.join_lt hi _ hlt) rfl hlt

/-- The steps that the tasks still have to make. -/
def remaining (p : Program τ ω μ) (tasks : Finset τ) (s : State τ μ) : ℕ :=
  ∑ t ∈ tasks, ((p.code t).length - s.pc t)

/-- **No interleaving is stuck**: it can be completed. -/
theorem exists_completion {rank : τ → ℕ → ℕ} (hr : p.Ranked rank) {tasks : Finset τ}
    (htasks : ∀ t ∉ tasks, p.code t = []) (hs : ∀ t, s.pc t ≤ (p.code t).length) :
    ∃ schedule s', run p.step anyStep s schedule = some s' ∧ p.Finished s' := by
  obtain ⟨n, hn⟩ : ∃ n, p.remaining tasks s = n := ⟨_, rfl⟩
  induction n using Nat.strong_induction_on generalizing s with
  | _ n ih =>
    by_cases hfinished : p.Finished s
    · exact ⟨[], s, rfl, hfinished⟩
    · obtain ⟨t, ht⟩ := not_forall.mp hfinished
      obtain ⟨u, s₁, hstep⟩ := exists_step hr s rfl (lt_of_le_of_ne (hs t) ht)
      obtain ⟨i, hi, -, hs₁⟩ := step_eq_some hstep
      have hlt : s.pc u < (p.code u).length := (List.getElem?_eq_some_iff.mp hi).1
      have hbounded : ∀ v, s₁.pc v ≤ (p.code v).length := by
        intro v
        rw [hs₁]
        show Function.update s.pc u (s.pc u + 1) v ≤ _
        rw [Function.update_apply]
        split
        · rename_i hv
          rw [hv]
          exact hlt
        · exact hs v
      have hmem : u ∈ tasks := by
        by_contra hnot
        rw [htasks u hnot] at hlt
        exact Nat.not_lt_zero _ hlt
      have hless : p.remaining tasks s₁ < n := by
        rw [← hn]
        refine Finset.sum_lt_sum (fun v _ => ?_) ⟨u, hmem, ?_⟩
        · have hle := le_update s u v
          rw [hs₁]
          show (p.code v).length - Function.update s.pc u (s.pc u + 1) v ≤ _
          omega
        · rw [hs₁]
          show (p.code u).length - Function.update s.pc u (s.pc u + 1) u < _
          rw [Function.update_self]
          omega
      obtain ⟨schedule, s', hrun, hfin⟩ := ih _ hless hbounded rfl
      exact ⟨u :: schedule, s', run_cons_eq_some.mpr ⟨trivial, s₁, hstep, hrun⟩, hfin⟩

end Program

end Tasks
