import Mathlib.Algebra.Order.Group.Multiset
import Mathlib.Logic.Function.Basic
import Mathlib.Tactic.Abel

/-!
# Windows of a lagged recurrence

A sequence with `x (n + k) = op (x n) (x (n + (k - j)))` is kept as a buffer of `k` entries, which is
moved in place.

* `Window x n m b`: the buffer holds the entries from `n` on, of which the first `m` have moved on.
* `forward_window`, `backward_window`: the loops that move the whole buffer, and back.
-/

set_option autoImplicit false

namespace Lagged

variable {α : Type*} (op : α → α → α) (j k : ℕ)

/-- `b[i] = op b[i] b[source]` -/
def combine (b : ℕ → α) (i source : ℕ) : ℕ → α := Function.update b i (op (b i) (b source))

/-- The entry that is combined with the one at `i`. -/
def source (i : ℕ) : ℕ := if i < j then i + (k - j) else i - j

/-- All entries move on, in ascending order. -/
def forward (b : ℕ → α) : ℕ → α :=
  (List.range' j (k - j)).foldl (fun b i => combine op b i (i - j))
    ((List.range' 0 j).foldl (fun b i => combine op b i (i + (k - j))) b)

/-- The entries from `first` up to `last` move back, in descending order. -/
def backward (first last : ℕ) (b : ℕ → α) : ℕ → α :=
  ((List.range' first (min last j - first)).reverse).foldl
    (fun b i => combine op b i (i + (k - j)))
    (((List.range' (max j first) (min last k - max j first)).reverse).foldl
      (fun b i => combine op b i (i - j)) b)

/-- The lagged recurrence. -/
def Recurrence (x : ℕ → α) : Prop := ∀ n, x (n + k) = op (x n) (x (n + (k - j)))

/-- The entries from `n` on; those before `m` have moved on. -/
def Window (x : ℕ → α) (n m : ℕ) (b : ℕ → α) : Prop :=
  ∀ i < k, b i = if i < m then x (n + k + i) else x (n + i)

variable {op j k} {x : ℕ → α} {n m : ℕ} {b : ℕ → α}

theorem Window.moved (h : Window k x n k b) : Window k x (n + k) 0 b := by
  intro i hi
  rw [h i hi, if_pos hi, if_neg (Nat.not_lt_zero i)]

theorem Window.source_eq (h : Window k x n m b) (hj : 0 < j) (hjk : j < k) {i : ℕ} (hi : i < k)
    (hm : m = i ∨ m = i + 1) : b (source j k i) = x (n + i + (k - j)) := by
  unfold source
  split
  · rename_i hij
    rw [h _ (by omega), if_neg (by omega)]
    congr 1
    omega
  · rename_i hij
    rw [h _ (by omega), if_pos (by omega)]
    congr 1
    omega

theorem Window.step (hx : Recurrence op j k x) (h : Window k x n m b) (hj : 0 < j) (hjk : j < k)
    (hm : m < k) : Window k x n (m + 1) (combine op b m (source j k m)) := by
  intro i hi
  by_cases him : i = m
  · subst him
    have hentry : b i = x (n + i) := by rw [h i hi, if_neg (lt_irrefl i)]
    have hrec := hx (n + i)
    rw [combine, Function.update_self, hentry, h.source_eq hj hjk hi (.inl rfl), ← hrec,
      if_pos (Nat.lt_succ_self i)]
    congr 1
    omega
  · rw [combine, Function.update_of_ne him, h i hi]
    by_cases hlt : i < m
    · rw [if_pos hlt, if_pos (Nat.lt_succ_of_lt hlt)]
    · rw [if_neg hlt, if_neg (by omega)]

theorem Window.unstep (hop : ∀ a c, op (op a c) c = a) (hx : Recurrence op j k x)
    (h : Window k x n (m + 1) b) (hj : 0 < j) (hjk : j < k) (hm : m < k) :
    Window k x n m (combine op b m (source j k m)) := by
  intro i hi
  by_cases him : i = m
  · subst him
    have hentry : b i = x (n + k + i) := by rw [h i hi, if_pos (Nat.lt_succ_self i)]
    have hrec : x (n + k + i) = op (x (n + i)) (x (n + i + (k - j))) := by
      rw [← hx (n + i)]
      congr 1
      omega
    rw [combine, Function.update_self, hentry, h.source_eq hj hjk hi (.inr rfl), hrec, hop,
      if_neg (lt_irrefl i)]
  · rw [combine, Function.update_of_ne him, h i hi]
    by_cases hlt : i < m
    · rw [if_pos hlt, if_pos (Nat.lt_succ_of_lt hlt)]
    · rw [if_neg hlt, if_neg (by omega)]

theorem Window.steps (hx : Recurrence op j k x) (hj : 0 < j) (hjk : j < k) {c : ℕ} {f : ℕ → ℕ}
    (h : Window k x n m b) (hc : m + c ≤ k) (hf : ∀ i, m ≤ i → i < m + c → f i = source j k i) :
    Window k x n (m + c) ((List.range' m c).foldl (fun b i => combine op b i (f i)) b) := by
  induction c generalizing m b with
  | zero => exact h
  | succ c ih =>
    rw [List.range'_succ, List.foldl_cons, hf m le_rfl (by omega)]
    have hstep := h.step hx hj hjk (by omega)
    have hrest := ih hstep (by omega) fun i hle hlt => hf i (by omega) (by omega)
    rwa [show m + 1 + c = m + (c + 1) by omega] at hrest

theorem Window.unsteps (hop : ∀ a c, op (op a c) c = a) (hx : Recurrence op j k x) (hj : 0 < j)
    (hjk : j < k) {c : ℕ} {f : ℕ → ℕ} (h : Window k x n (m + c) b) (hc : m + c ≤ k)
    (hf : ∀ i, m ≤ i → i < m + c → f i = source j k i) :
    Window k x n m (((List.range' m c).reverse).foldl (fun b i => combine op b i (f i)) b) := by
  induction c generalizing b with
  | zero => exact h
  | succ c ih =>
    rw [List.range'_1_concat, List.reverse_append, List.reverse_singleton, List.singleton_append,
      List.foldl_cons, hf (m + c) (by omega) (by omega)]
    exact ih (h.unstep hop hx hj hjk (by omega)) (by omega) fun i hle hlt => hf i hle (by omega)

/-- **The whole buffer moves on.** -/
theorem forward_window (hx : Recurrence op j k x) (hj : 0 < j) (hjk : j < k)
    (h : Window k x n 0 b) : Window k x (n + k) 0 (forward op j k b) := by
  have hfirst := h.steps hx hj hjk (f := fun i => i + (k - j)) (show 0 + j ≤ k by omega)
    fun i _ hi => (if_pos (by omega)).symm
  rw [Nat.zero_add] at hfirst
  have hsecond := hfirst.steps hx hj hjk (f := fun i => i - j) (show j + (k - j) ≤ k by omega)
    fun i hi _ => (if_neg (by omega)).symm
  rw [Nat.add_sub_cancel' hjk.le] at hsecond
  exact hsecond.moved

/-- **The entries that have moved on move back.** -/
theorem backward_window (hop : ∀ a c, op (op a c) c = a) (hx : Recurrence op j k x) (hj : 0 < j)
    (hjk : j < k) (hm : m ≤ k) (h : Window k x n m b) :
    Window k x n 0 (backward op j k 0 m b) := by
  have hmax : max j 0 = j := Nat.max_eq_left (Nat.zero_le j)
  have hmin : min m k = m := Nat.min_eq_left hm
  unfold backward
  rw [hmax, hmin, Nat.sub_zero]
  by_cases hle : m ≤ j
  · rw [Nat.sub_eq_zero_of_le hle, Nat.min_eq_left hle]
    have hwindow : Window k x n (0 + m) b := (Nat.zero_add m).symm ▸ h
    exact hwindow.unsteps hop hx hj hjk (by omega) fun i _ hi => (if_pos (by omega)).symm
  · rw [Nat.min_eq_right (by omega)]
    have hwindow : Window k x n (j + (m - j)) b := by
      rwa [Nat.add_sub_cancel' (by omega)]
    have hfirst := hwindow.unsteps hop hx hj hjk (f := fun i => i - j) (by omega)
      fun i hi _ => (if_neg (by omega)).symm
    refine Window.unsteps hop hx hj hjk (c := j) ?_ (by omega)
      fun i _ hi => (if_pos (by omega)).symm
    rw [Nat.zero_add]
    exact hfirst

end Lagged
