import Mathlib.Algebra.Order.Group.Multiset

/-!
# Loops that can fail

`whileLoop cond body fuel s` runs `body` while `cond` holds. `none` means that the fuel is used up;
a body that fails ends the loop with its error.

* `whileLoop_invariant`: an invariant of the body holds at the end, and the condition does not.
* `whileLoop_terminates`: with a measure that the body decreases, enough fuel gives a result.
* `whileLoop_total`: the two together, for a body that may also end the loop.
-/

set_option autoImplicit false

namespace While

variable {σ ε : Type*}

def whileLoop (cond : σ → Bool) (body : σ → Except ε σ) : ℕ → σ → Option (Except ε σ)
  | 0, _ => none
  | fuel + 1, s =>
    if cond s then
      match body s with
      | .ok s' => whileLoop cond body fuel s'
      | .error e => some (.error e)
    else some (.ok s)

variable {cond : σ → Bool} {body : σ → Except ε σ}

theorem whileLoop_invariant {I : σ → Prop}
    (hbody : ∀ s s', I s → cond s = true → body s = .ok s' → I s') {fuel : ℕ} {s s' : σ}
    (h₀ : I s) (h : whileLoop cond body fuel s = some (.ok s')) : I s' ∧ cond s' = false := by
  induction fuel generalizing s with
  | zero => cases h
  | succ fuel ih =>
    unfold whileLoop at h
    by_cases hc : cond s = true
    · rw [if_pos hc] at h
      split at h
      · next s₁ hs₁ => exact ih (hbody s s₁ h₀ hc hs₁) h
      · cases h
    · rw [if_neg hc] at h
      cases h
      exact ⟨h₀, by simpa using hc⟩

theorem whileLoop_terminates {I : σ → Prop} (μ : σ → ℕ)
    (hbody : ∀ s, I s → cond s = true → ∃ s', body s = .ok s' ∧ I s' ∧ μ s' < μ s) {fuel : ℕ}
    {s : σ} (h₀ : I s) (hfuel : μ s < fuel) :
    ∃ s', whileLoop cond body fuel s = some (.ok s') := by
  induction fuel generalizing s with
  | zero => exact absurd hfuel (Nat.not_lt_zero _)
  | succ fuel ih =>
    unfold whileLoop
    by_cases hc : cond s = true
    · obtain ⟨s₁, hs₁, hI, hμ⟩ := hbody s h₀ hc
      rw [if_pos hc, hs₁]
      exact ih hI (by omega)
    · rw [if_neg hc]
      exact ⟨s, rfl⟩

/-- **The rule of total correctness**: each iteration goes on with a smaller measure and passes back
what the rest of the loop gives, or it ends the loop. -/
theorem whileLoop_total {I : σ → Prop} {R : σ → Except ε σ → Prop} (μ : σ → ℕ)
    (hexit : ∀ s, I s → cond s = false → R s (.ok s))
    (hbody : ∀ s, I s → cond s = true →
      (∃ s', body s = .ok s' ∧ I s' ∧ μ s' < μ s ∧ ∀ r, R s' r → R s r) ∨
        ∃ e, body s = .error e ∧ R s (.error e)) {fuel : ℕ} {s : σ} (h₀ : I s)
    (hfuel : μ s < fuel) : ∃ r, whileLoop cond body fuel s = some r ∧ R s r := by
  induction fuel generalizing s with
  | zero => exact absurd hfuel (Nat.not_lt_zero _)
  | succ fuel ih =>
    unfold whileLoop
    by_cases hc : cond s = true
    · rw [if_pos hc]
      rcases hbody s h₀ hc with ⟨s₁, hs₁, hI, hμ, hback⟩ | ⟨e, he, hR⟩
      · obtain ⟨r, hr, hR⟩ := ih hI (by omega)
        rw [hs₁]
        exact ⟨r, hr, hback r hR⟩
      · rw [he]
        exact ⟨_, rfl, hR⟩
    · rw [if_neg hc]
      exact ⟨_, rfl, hexit s h₀ (by simpa using hc)⟩

end While
