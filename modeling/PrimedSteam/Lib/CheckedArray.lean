import Mathlib.Data.List.GetD
import Mathlib.Data.Nat.SuccPred

/-!
# Arrays with checked accesses

An array of `n` entries is a function on `Fin n`. `load` and `store` take any index, and an index outside of
the array is a fault. The loops of C over such arrays are `foldTo`, up to a length, and `foldUntil`, up to a
separator.

* `foldTo_ofList`, `foldUntil_ofList`: what the loops compute on the entries of a list.
* `foldUntil_fault`: without a separator the loop leaves the array.
* `storeAll_frame`: a copy that fits, and the entries behind it.
-/

set_option autoImplicit false

namespace CheckedArray

universe u

variable {α β : Type u} {ε : Type*} {n : ℕ} (fault : ℕ → ε)

@[simp] theorem ok_bind (a : α) (f : α → Except ε β) : (Except.ok a >>= f) = f a := rfl

@[simp] theorem error_bind (e : ε) (f : α → Except ε β) : ((Except.error e : Except ε α) >>= f) = .error e :=
  rfl

def load (b : Fin n → α) (i : ℕ) : Except ε α :=
  if h : i < n then .ok (b ⟨i, h⟩) else .error (fault i)

def store (b : Fin n → α) (i : ℕ) (x : α) : Except ε (Fin n → α) :=
  if h : i < n then .ok (Function.update b ⟨i, h⟩ x) else .error (fault i)

/-- The entries of a list from the index on. -/
def storeAll : (Fin n → α) → ℕ → List α → Except ε (Fin n → α)
  | b, _, [] => .ok b
  | b, i, x :: xs => do
    let b ← store fault b i x
    storeAll b (i + 1) xs

/-- `while (i < len) acc = f(acc, b[i++])` -/
def foldTo (f : β → α → β) (b : Fin n → α) (len i : ℕ) (acc : β) : Except ε β :=
  if i < len then do
    let x ← load fault b i
    foldTo f b len (i + 1) (f acc x)
  else .ok acc
termination_by len - i

/-- `while (b[i] != sep) acc = f(acc, b[i++])`, with the index of the separator. -/
def foldUntil [DecidableEq α] (f : β → α → β) (sep : α) (b : Fin n → α) (i : ℕ) (acc : β) : Except ε (ℕ × β) :=
  if h : i < n then
    if b ⟨i, h⟩ = sep then .ok (i, acc) else foldUntil f sep b (i + 1) (f acc (b ⟨i, h⟩))
  else .error (fault i)
termination_by n - i

/-- The entries of a list, and the default behind them. -/
def ofList (z : α) (l : List α) : Fin n → α := fun k => l.getD k z

/-! ## Single accesses -/

variable {fault}

theorem load_of_lt {b : Fin n → α} {i : ℕ} (h : i < n) : load fault b i = .ok (b ⟨i, h⟩) := dif_pos h

theorem load_of_le {b : Fin n → α} {i : ℕ} (h : n ≤ i) : load fault b i = .error (fault i) :=
  dif_neg (Nat.not_lt.mpr h)

theorem store_of_lt {b : Fin n → α} {i : ℕ} {x : α} (h : i < n) :
    store fault b i x = .ok (Function.update b ⟨i, h⟩ x) := dif_pos h

theorem store_of_le {b : Fin n → α} {i : ℕ} {x : α} (h : n ≤ i) : store fault b i x = .error (fault i) :=
  dif_neg (Nat.not_lt.mpr h)

@[simp] theorem ofList_nil (z : α) : (ofList z [] : Fin n → α) = fun _ => z := by
  funext k
  simp [ofList]

theorem update_ofList (z : α) (l : List α) (x : α) (h : l.length < n) :
    Function.update (ofList z l : Fin n → α) ⟨l.length, h⟩ x = ofList z (l ++ [x]) := by
  funext k
  rcases lt_trichotomy k.val l.length with hk | hk | hk
  · have hne : k ≠ ⟨l.length, h⟩ := fun he => by simp [he] at hk
    rw [Function.update_of_ne hne]
    simp [ofList, List.getD_eq_getElem?_getD, List.getElem?_append_left hk]
  · obtain rfl : k = ⟨l.length, h⟩ := Fin.ext hk
    simp [ofList]
  · have hne : k ≠ ⟨l.length, h⟩ := fun he => by simp [he] at hk
    rw [Function.update_of_ne hne]
    simp only [ofList]
    rw [List.getD_eq_default _ _ hk.le, List.getD_eq_default]
    simpa using hk

/-! ## Copies -/

/-- **A copy that fits** changes nothing behind it. -/
theorem storeAll_frame {xs : List α} {b : Fin n → α} {i : ℕ} (h : i + xs.length ≤ n) :
    ∃ b', storeAll fault b i xs = .ok b' ∧ ∀ k : Fin n, i + xs.length ≤ k → b' k = b k := by
  induction xs generalizing b i with
  | nil => exact ⟨b, rfl, fun _ _ => rfl⟩
  | cons x xs ih =>
    rw [List.length_cons] at h
    have hi : i < n := by omega
    obtain ⟨b', hb', hframe⟩ := ih (b := Function.update b ⟨i, hi⟩ x) (i := i + 1) (by omega)
    refine ⟨b', ?_, fun k hk => ?_⟩
    · rw [storeAll, store_of_lt hi]
      exact hb'
    · rw [List.length_cons] at hk
      rw [hframe k (by omega), Function.update_of_ne]
      rintro rfl
      simp at hk

/-! ## Loops up to a length -/

theorem foldTo_of_le (f : β → α → β) {b : Fin n → α} {len i : ℕ} (acc : β) (h : len ≤ i) :
    foldTo fault f b len i acc = .ok acc := by
  rw [foldTo, if_neg (Nat.not_lt.mpr h)]

theorem foldTo_of_lt (f : β → α → β) {b : Fin n → α} {len i : ℕ} (acc : β) (h : i < len) (hn : i < n) :
    foldTo fault f b len i acc = foldTo fault f b len (i + 1) (f acc (b ⟨i, hn⟩)) := by
  rw [foldTo, if_pos h, load_of_lt hn, ok_bind]

/-- **A loop within the array ends.** -/
theorem foldTo_isOk (f : β → α → β) {b : Fin n → α} {len : ℕ} (h : len ≤ n) (i : ℕ) (acc : β) :
    ∃ r, foldTo fault f b len i acc = .ok r := by
  induction hd : len - i generalizing i acc with
  | zero => exact ⟨acc, foldTo_of_le f acc (by omega)⟩
  | succ d ih =>
    rw [foldTo_of_lt f acc (by omega) (by omega)]
    exact ih _ _ (by omega)

/-- **The loop over a list** from an index on. -/
theorem foldTo_ofList (f : β → α → β) (z : α) {l : List α} (h : l.length ≤ n) (i : ℕ) (acc : β) :
    foldTo fault f (ofList z l : Fin n → α) l.length i acc = .ok ((l.drop i).foldl f acc) := by
  induction hd : l.length - i generalizing i acc with
  | zero =>
    rw [foldTo_of_le f acc (by omega), List.drop_eq_nil_of_le (by omega)]
    rfl
  | succ d ih =>
    have hi : i < l.length := by omega
    have hget : (ofList z l : Fin n → α) ⟨i, by omega⟩ = l[i] := by simp [ofList, hi]
    rw [foldTo_of_lt f acc hi (by omega), ih _ _ (by omega), hget, List.drop_eq_getElem_cons hi,
      List.foldl_cons]

/-! ## Loops up to a separator -/

theorem append_separator_inj {sep : α} {a a' r r' : List α} (h : sep ∉ a) (h' : sep ∉ a')
    (heq : a ++ sep :: r = a' ++ sep :: r') : a = a' ∧ r = r' := by
  induction a generalizing a' with
  | nil =>
    cases a' with
    | nil => exact ⟨rfl, (List.cons_eq_cons.mp heq).2⟩
    | cons y a' => exact absurd (by simp [(List.cons_eq_cons.mp heq).1]) h'
  | cons x a ih =>
    cases a' with
    | nil => exact absurd (by simp [(List.cons_eq_cons.mp heq).1]) h
    | cons y a' =>
      obtain ⟨rfl, htail⟩ := List.cons_eq_cons.mp heq
      obtain ⟨rfl, rfl⟩ :=
        ih (fun hm => h (List.mem_cons_of_mem x hm)) (fun hm => h' (List.mem_cons_of_mem x hm)) htail
      exact ⟨rfl, rfl⟩

section Until

variable [DecidableEq α]

theorem foldUntil_of_eq (f : β → α → β) {sep : α} {b : Fin n → α} {i : ℕ} (acc : β) (h : i < n)
    (hsep : b ⟨i, h⟩ = sep) : foldUntil fault f sep b i acc = .ok (i, acc) := by
  rw [foldUntil, dif_pos h, if_pos hsep]

theorem foldUntil_of_ne (f : β → α → β) {sep : α} {b : Fin n → α} {i : ℕ} (acc : β) (h : i < n)
    (hsep : b ⟨i, h⟩ ≠ sep) :
    foldUntil fault f sep b i acc = foldUntil fault f sep b (i + 1) (f acc (b ⟨i, h⟩)) := by
  rw [foldUntil, dif_pos h, if_neg hsep]

/-- **The loop ends** at the separator or before it. -/
theorem foldUntil_isOk (f : β → α → β) {sep : α} {b : Fin n → α} {j : Fin n} (hj : b j = sep) {i : ℕ}
    (hij : i ≤ j) (acc : β) : ∃ k acc', foldUntil fault f sep b i acc = .ok (k, acc') ∧ k ≤ j := by
  induction hd : j - i generalizing i acc with
  | zero =>
    obtain rfl : i = j := by omega
    exact ⟨j, acc, foldUntil_of_eq f acc j.isLt hj, le_rfl⟩
  | succ d ih =>
    have hi : i < n := by omega
    by_cases hsep : b ⟨i, hi⟩ = sep
    · exact ⟨i, acc, foldUntil_of_eq f acc hi hsep, hij⟩
    · rw [foldUntil_of_ne f acc hi hsep]
      exact ih (by omega) _ (by omega)

/-- **The loop over a list** up to its first separator. -/
theorem foldUntil_ofList (f : β → α → β) {z sep : α} {l a r : List α} {i : ℕ} (hlen : l.length ≤ n)
    (hl : l.drop i = a ++ sep :: r) (hnot : sep ∉ a) (acc : β) :
    foldUntil fault f sep (ofList z l : Fin n → α) i acc = .ok (i + a.length, a.foldl f acc) := by
  have hi : i < l.length := by
    by_contra hge
    rw [List.drop_eq_nil_of_le (by omega)] at hl
    simp at hl
  have hdrop := List.drop_eq_getElem_cons hi
  have hget : (ofList z l : Fin n → α) ⟨i, by omega⟩ = l[i] := by simp [ofList, hi]
  induction a generalizing i acc with
  | nil =>
    have hcons : l[i] = sep ∧ l.drop (i + 1) = r := List.cons_eq_cons.mp (hdrop.symm.trans hl)
    rw [foldUntil_of_eq f acc (by omega) (hget.trans hcons.1)]
    rfl
  | cons x a ih =>
    have hcons : l[i] = x ∧ l.drop (i + 1) = a ++ sep :: r :=
      List.cons_eq_cons.mp (hdrop.symm.trans hl)
    have hne : (ofList z l : Fin n → α) ⟨i, by omega⟩ ≠ sep := by
      rw [hget, hcons.1]
      exact fun he => hnot (by simp [he])
    have hi' : i + 1 < l.length := by
      by_contra hge
      have hnil := hcons.2
      rw [List.drop_eq_nil_of_le (by omega)] at hnil
      simp at hnil
    rw [foldUntil_of_ne f acc (by omega) hne, hget, hcons.1,
      ih hcons.2 (fun hmem => hnot (List.mem_cons_of_mem x hmem)) _ hi' (List.drop_eq_getElem_cons hi')
        (by simp [ofList, hi'])]
    simp only [List.length_cons, List.foldl_cons]
    congr 2
    omega

/-- **Without a separator the loop leaves the array.** -/
theorem foldUntil_fault (f : β → α → β) {z sep : α} {l : List α} (hz : z ≠ sep) {i : ℕ}
    (hnot : sep ∉ l.drop i) (acc : β) :
    ∃ k, foldUntil fault f sep (ofList z l : Fin n → α) i acc = .error (fault k) := by
  induction hd : n - i generalizing i acc with
  | zero =>
    refine ⟨i, ?_⟩
    rw [foldUntil, dif_neg (by omega)]
  | succ d ih =>
    have hi : i < n := by omega
    have hne : (ofList z l : Fin n → α) ⟨i, hi⟩ ≠ sep := by
      by_cases hl : i < l.length
      · rw [List.drop_eq_getElem_cons hl, List.mem_cons, not_or] at hnot
        simpa [ofList, hl] using Ne.symm hnot.1
      · simpa [ofList, hl] using hz
    rw [foldUntil_of_ne f acc hi hne]
    refine ih (fun hmem => hnot ?_) _ (by omega)
    rw [← List.drop_drop] at hmem
    exact List.mem_of_mem_drop hmem

end Until

theorem foldUntil_length [DecidableEq α] {sep : α} {b : Fin n → α} {i k : ℕ} {acc t : List α}
    (h : foldUntil fault (fun t c => t ++ [c]) sep b i acc = .ok (k, t)) :
    t.length + i = acc.length + k := by
  induction hd : n - i generalizing i acc with
  | zero =>
    rw [foldUntil, dif_neg (by omega)] at h
    cases h
  | succ d ih =>
    have hi : i < n := by omega
    by_cases hsep : b ⟨i, hi⟩ = sep
    · rw [foldUntil_of_eq _ acc hi hsep] at h
      cases h
      rfl
    · rw [foldUntil_of_ne _ acc hi hsep] at h
      have hlen := ih h (by omega)
      simp only [List.length_append, List.length_singleton] at hlen
      omega

end CheckedArray
