import Mathlib.Algebra.Order.Group.Multiset
import Mathlib.Data.List.Nodup
import Mathlib.Logic.Function.Basic
import Mathlib.Tactic.Abel

/-!
# Lists linked by a map of successors

`next : ι → ι` gives the successor of each cell.

* `Linked next a l z`: the cells of `l` are visited one after the other from `a`, and `z` comes next.
* `Linked.getElem?_eq`: the cells are the iterates of `next`.
* `linked_range'`: numbers that follow each other are linked.
* `walk`: the cells visited before the first one that is a stop (`walk_of_linked`).
-/

set_option autoImplicit false

namespace Successors

variable {ι : Type*}

/-- From `a` the cells of `l` are visited, and then `z`. -/
def Linked (next : ι → ι) (a : ι) : List ι → ι → Prop
  | [], z => a = z
  | b :: l, z => a = b ∧ Linked next (next a) l z

/-- The cells visited from `a` before a stop, and the stop; `none` if there is none in `n` steps. -/
def walk (next : ι → ι) (stop : ι → Prop) [DecidablePred stop] : ℕ → ι → Option (List ι × ι)
  | 0, a => if stop a then some ([], a) else none
  | n + 1, a =>
    if stop a then some ([], a)
    else (walk next stop n (next a)).map fun (l, z) => (a :: l, z)

variable {next next' : ι → ι} {a b z : ι} {l : List ι}

/-- Only the successors of the visited cells count. -/
theorem Linked.congr (h : Linked next a l z) (heq : ∀ b ∈ l, next' b = next b) :
    Linked next' a l z := by
  induction l generalizing a with
  | nil => exact h
  | cons b l ih =>
    obtain ⟨rfl, h⟩ := h
    refine ⟨rfl, ?_⟩
    rw [heq a List.mem_cons_self]
    exact ih h fun c hc => heq c (List.mem_cons_of_mem a hc)

/-- The cells that come from a visited one are visited too. -/
theorem Linked.suffix (h : Linked next a l z) (hb : b ∈ l) :
    ∃ l', l' <:+ l ∧ l' ≠ [] ∧ Linked next b l' z := by
  induction l generalizing a with
  | nil => cases hb
  | cons c l ih =>
    rcases List.mem_cons.mp hb with rfl | hb
    · exact ⟨b :: l, List.suffix_rfl, List.cons_ne_nil b l, ⟨rfl, h.1 ▸ h.2⟩⟩
    · obtain ⟨l', hsuffix, hne, hl'⟩ := ih h.2 hb
      exact ⟨l', hsuffix.trans (List.suffix_cons c l), hne, hl'⟩

theorem Linked.getElem?_eq (h : Linked next a l z) {k : ℕ} (hk : k < l.length) :
    l[k]? = some (next^[k] a) := by
  induction l generalizing a k with
  | nil => exact absurd hk (Nat.not_lt_zero k)
  | cons b l ih =>
    obtain ⟨rfl, h⟩ := h
    cases k with
    | zero => rfl
    | succ k => exact ih h (Nat.lt_of_succ_lt_succ hk)

theorem linked_range' {next : ℕ → ℕ} {start n z : ℕ} (hn : 0 < n)
    (hnext : ∀ i, start ≤ i → i + 1 < start + n → next i = i + 1) (hlast : next (start + n - 1) = z) :
    Linked next start (List.range' start n) z := by
  induction n generalizing start with
  | zero => exact absurd hn (lt_irrefl 0)
  | succ n ih =>
    rw [List.range'_succ]
    refine ⟨rfl, ?_⟩
    cases n with
    | zero => exact hlast
    | succ n =>
      rw [hnext start le_rfl (by omega)]
      refine ih (Nat.succ_pos n) (fun i hlow hhigh => hnext i (by omega) (by omega)) ?_
      rw [← hlast]
      congr 1
      omega

section Walk

variable {stop : ι → Prop} [DecidablePred stop] {n : ℕ}

theorem walk_stop (h : stop a) : walk next stop n a = some ([], a) := by
  cases n <;> simp [walk, h]

theorem walk_step (h : ¬stop a) :
    walk next stop (n + 1) a = (walk next stop n (next a)).map fun (l, z) => (a :: l, z) := by
  simp [walk, h]

theorem walk_of_linked (h : Linked next a l z) (hz : stop z) (hl : ∀ b ∈ l, ¬stop b)
    (hn : l.length ≤ n) : walk next stop n a = some (l, z) := by
  induction l generalizing a n with
  | nil =>
    cases h
    exact walk_stop hz
  | cons b l ih =>
    obtain ⟨rfl, h⟩ := h
    obtain ⟨n, rfl⟩ := Nat.exists_eq_add_of_le' (Nat.one_le_of_lt hn)
    rw [walk_step (hl a List.mem_cons_self),
      ih h (fun c hc => hl c (List.mem_cons_of_mem a hc)) (Nat.le_of_succ_le_succ hn)]
    rfl

end Walk

end Successors
