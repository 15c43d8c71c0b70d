import Mathlib.Logic.Relation

/-!
# Partial deterministic transition systems

A system is given by a step function `step : σ → ι → Option σ` over labels `ι`; `none` means that
the label is not possible in the state.

* `Reach step ok s₀ s`: a run from `s₀` ends in `s` and each of its steps meets the condition `ok`.
* `Reach.invariant`: what one step preserves, every run preserves.
* `run`: the run on a list of labels, with its invariants (`run_invariant`) and the simulation of one
  system by another (`run_rel`).
* `foldlM_invariant`, `foldlM_total`: the same for a fold of partial steps.
-/

set_option autoImplicit false

namespace Transition

variable {σ τ ι : Type*}

/-- `s` is reached from `s₀` by steps that all meet the condition `ok`. -/
inductive Reach (step : σ → ι → Option σ) (ok : σ → ι → Prop) (s₀ : σ) : σ → Prop where
  | refl : Reach step ok s₀ s₀
  | tail {s s' : σ} (a : ι) : Reach step ok s₀ s → ok s a → step s a = some s' →
      Reach step ok s₀ s'

/-- No condition on the steps. -/
abbrev anyStep : σ → ι → Prop := fun _ _ => True

/-- **An invariant of every step is an invariant of every run.** -/
theorem Reach.invariant {step : σ → ι → Option σ} {ok : σ → ι → Prop} {s₀ s : σ} {P : σ → Prop}
    (h : Reach step ok s₀ s) (h₀ : P s₀)
    (hstep : ∀ s a s', P s → ok s a → step s a = some s' → P s') : P s := by
  induction h with
  | refl => exact h₀
  | tail a _ hok hs ih => exact hstep _ a _ ih hok hs

theorem Reach.trans {step : σ → ι → Option σ} {ok : σ → ι → Prop} {s₀ s s' : σ} (h : Reach step ok s₀ s)
    (h' : Reach step ok s s') : Reach step ok s₀ s' := by
  induction h' with
  | refl => exact h
  | tail a _ hok hs ih => exact ih.tail a hok hs

section Run

variable {step : σ → ι → Option σ} {ok : σ → ι → Prop} [∀ s a, Decidable (ok s a)]

/-- The run on a list of labels, each of whose steps has to meet the condition `ok`. -/
def run (step : σ → ι → Option σ) (ok : σ → ι → Prop) [∀ s a, Decidable (ok s a)] :
    σ → List ι → Option σ
  | s, [] => some s
  | s, a :: as => if ok s a then (step s a).bind fun s' => run step ok s' as else none

theorem run_cons_eq_some {s s' : σ} {a : ι} {as : List ι} :
    run step ok s (a :: as) = some s' ↔
      ok s a ∧ ∃ s₁, step s a = some s₁ ∧ run step ok s₁ as = some s' := by
  rw [run, Option.ite_none_right_eq_some, Option.bind_eq_some_iff]

theorem run_append (s : σ) (as bs : List ι) :
    run step ok s (as ++ bs) = (run step ok s as).bind fun s' => run step ok s' bs := by
  induction as generalizing s with
  | nil => rfl
  | cons a as ih =>
    rw [List.cons_append, run, run]
    split
    · cases step s a with
      | none => rfl
      | some s' => exact ih s'
    · rfl

/-- **An invariant of every step is an invariant along every run on labels.** -/
theorem run_invariant {P : σ → Prop} {Q : ι → Prop}
    (hstep : ∀ s a s', P s → Q a → ok s a → step s a = some s' → P s') {as : List ι} {s s' : σ}
    (h₀ : P s) (hQ : ∀ a ∈ as, Q a) (h : run step ok s as = some s') : P s' := by
  induction as generalizing s with
  | nil => cases h; exact h₀
  | cons a as ih =>
    obtain ⟨hok, s₁, hs, hr⟩ := run_cons_eq_some.mp h
    have h₁ : P s₁ := hstep s a s₁ h₀ (hQ a List.mem_cons_self) hok hs
    exact ih h₁ (fun b hb => hQ b (List.mem_cons_of_mem a hb)) hr

theorem run_reach {s₀ s s' : σ} {as : List ι} (h₀ : Reach step ok s₀ s)
    (h : run step ok s as = some s') : Reach step ok s₀ s' := by
  induction as generalizing s with
  | nil => cases h; exact h₀
  | cons a as ih =>
    obtain ⟨hok, s₁, hs, hr⟩ := run_cons_eq_some.mp h
    exact ih (h₀.tail a hok hs) hr

/-- **Simulation.** A relation kept by matching steps is kept by runs on the same labels. -/
theorem run_rel {step' : τ → ι → Option τ} {ok' : τ → ι → Prop} [∀ t a, Decidable (ok' t a)]
    {R : σ → τ → Prop}
    (hstep : ∀ s t a s', R s t → ok s a → step s a = some s' →
      ok' t a ∧ ∃ t', step' t a = some t' ∧ R s' t')
    {as : List ι} {s s' : σ} {t : τ} (hR : R s t) (h : run step ok s as = some s') :
    ∃ t', run step' ok' t as = some t' ∧ R s' t' := by
  induction as generalizing s t with
  | nil => cases h; exact ⟨t, rfl, hR⟩
  | cons a as ih =>
    obtain ⟨hok, s₁, hs, hr⟩ := run_cons_eq_some.mp h
    obtain ⟨hok', t₁, ht, hR₁⟩ := hstep s t a s₁ hR hok hs
    obtain ⟨t', hr', hR'⟩ := ih hR₁ hr
    exact ⟨t', run_cons_eq_some.mpr ⟨hok', t₁, ht, hr'⟩, hR'⟩

end Run

theorem foldlM_total {f : σ → ι → Option σ} {P : σ → Prop} {as : List ι} {s : σ}
    (hstep : ∀ s, ∀ a ∈ as, P s → ∃ s', f s a = some s' ∧ P s') (h₀ : P s) :
    ∃ s', as.foldlM f s = some s' ∧ P s' := by
  induction as generalizing s with
  | nil => exact ⟨s, rfl, h₀⟩
  | cons a as ih =>
    obtain ⟨s₁, hs, h₁⟩ := hstep s a List.mem_cons_self h₀
    obtain ⟨s', hr, h'⟩ := ih (fun s b hb => hstep s b (List.mem_cons_of_mem a hb)) h₁
    exact ⟨s', Option.bind_eq_some_iff.mpr ⟨s₁, hs, hr⟩, h'⟩

theorem foldlM_invariant {f : σ → ι → Option σ} {P : σ → Prop} {as : List ι} {s s' : σ}
    (hstep : ∀ s, ∀ a ∈ as, ∀ s', P s → f s a = some s' → P s') (h₀ : P s)
    (h : as.foldlM f s = some s') : P s' := by
  induction as generalizing s with
  | nil => cases h; exact h₀
  | cons a as ih =>
    obtain ⟨s₁, hs, hr⟩ := Option.bind_eq_some_iff.mp h
    have h₁ : P s₁ := hstep s a List.mem_cons_self s₁ h₀ hs
    exact ih (fun s b hb => hstep s b (List.mem_cons_of_mem a hb)) h₁ hr

end Transition
