import Mathlib.Data.List.DropRight

/-!
# Lines of a text

* `getlines sep s`: what repeated `getline` calls read, the last line with or without its end.
* `unlines sep ls`: lines, each with its end.
* `getlines_unlines`: lines that are written are read again.
* `stripEnd`: what is left of lines when blanks at the end of their text are removed
  (`rdropWhile_unlines`).
-/

set_option autoImplicit false

namespace TextLines

variable {α : Type*} {sep : α}

/-- What repeated `getline` calls read. -/
def getlines [DecidableEq α] (sep : α) : List α → List (List α)
  | [] => []
  | c :: s =>
    if c = sep then [] :: getlines sep s
    else
      match getlines sep s with
      | [] => [[c]]
      | line :: lines => (c :: line) :: lines

/-- Lines, each with its end. -/
def unlines (sep : α) (lines : List (List α)) : List α :=
  lines.flatMap fun line => line ++ [sep]

theorem unlines_cons (line : List α) (lines : List (List α)) :
    unlines sep (line :: lines) = line ++ sep :: unlines sep lines := by
  rw [unlines, List.flatMap_cons, List.append_assoc]
  rfl

theorem unlines_append (lines lines' : List (List α)) :
    unlines sep (lines ++ lines') = unlines sep lines ++ unlines sep lines' :=
  List.flatMap_append

theorem getlines_append [DecidableEq α] {line : List α} (hline : sep ∉ line) (s : List α) :
    getlines sep (line ++ sep :: s) = line :: getlines sep s := by
  induction line with
  | nil => rw [List.nil_append, getlines, if_pos rfl]
  | cons c line ih =>
    rw [List.mem_cons, not_or] at hline
    rw [List.cons_append, getlines, if_neg (Ne.symm hline.1), ih hline.2]

theorem getlines_unlines [DecidableEq α] {lines : List (List α)} (hlines : ∀ line ∈ lines, sep ∉ line) :
    getlines sep (unlines sep lines) = lines := by
  induction lines with
  | nil => rfl
  | cons line lines ih =>
    rw [List.forall_mem_cons] at hlines
    rw [unlines_cons, getlines_append hlines.1, ih hlines.2]

theorem notMem_of_mem_getlines [DecidableEq α] {line s : List α} (h : line ∈ getlines sep s) : sep ∉ line := by
  induction s generalizing line with
  | nil => exact absurd h List.not_mem_nil
  | cons c s ih =>
    rw [getlines] at h
    split at h
    · rcases List.mem_cons.mp h with rfl | h
      · exact List.not_mem_nil
      · exact ih h
    · next hc =>
      split at h
      · rw [List.mem_singleton.mp h, List.mem_singleton]
        exact Ne.symm hc
      · next first rest heq =>
        rcases List.mem_cons.mp h with rfl | h
        · rw [List.mem_cons, not_or]
          exact ⟨Ne.symm hc, ih (heq ▸ List.mem_cons_self)⟩
        · exact ih (heq ▸ List.mem_cons_of_mem first h)

/-! ## Blanks at the end -/

variable {blank : α → Bool}

/-- Lines without the blanks at the end of their text, of which the ends of lines are some. -/
def stripEnd (blank : α → Bool) : List (List α) → List (List α)
  | [] => []
  | line :: lines =>
    match stripEnd blank lines with
    | [] => if line.rdropWhile blank = [] then [] else [line.rdropWhile blank]
    | lines' => line :: lines'

theorem rdropWhile_append (s t : List α) :
    (s ++ t).rdropWhile blank =
      if t.rdropWhile blank = [] then s.rdropWhile blank else s ++ t.rdropWhile blank := by
  simp only [List.rdropWhile, List.reverse_append, List.dropWhile_append, List.isEmpty_iff,
    List.reverse_eq_nil_iff]
  split
  · rfl
  · rw [List.reverse_append, List.reverse_reverse]

theorem stripEnd_cons (line : List α) (lines : List (List α)) :
    stripEnd blank (line :: lines) =
      if stripEnd blank lines = [] then
        if line.rdropWhile blank = [] then [] else [line.rdropWhile blank]
      else line :: stripEnd blank lines := by
  rw [stripEnd]
  split
  · next hnil => rw [if_pos hnil]
  · next hne => rw [if_neg hne]

theorem rdropWhile_unlines_cons (hsep : blank sep = true) (line : List α) (lines : List (List α)) :
    (unlines sep (line :: lines)).rdropWhile blank =
      if (unlines sep lines).rdropWhile blank = [] then line.rdropWhile blank
      else line ++ sep :: (unlines sep lines).rdropWhile blank := by
  have hend : (sep :: unlines sep lines).rdropWhile blank =
      if (unlines sep lines).rdropWhile blank = [] then []
      else sep :: (unlines sep lines).rdropWhile blank := by
    have hcons := @rdropWhile_append α blank [sep] (unlines sep lines)
    rw [List.singleton_append] at hcons
    rw [hcons, List.rdropWhile_singleton, if_pos hsep]
    rfl
  rw [unlines_cons, rdropWhile_append, hend]
  by_cases hnil : (unlines sep lines).rdropWhile blank = []
  · rw [if_pos hnil, if_pos rfl, if_pos hnil]
  · rw [if_neg hnil, if_neg (List.cons_ne_nil _ _), if_neg hnil]

theorem stripEnd_eq_nil_iff (hsep : blank sep = true) (lines : List (List α)) :
    stripEnd blank lines = [] ↔ (unlines sep lines).rdropWhile blank = [] := by
  induction lines with
  | nil => exact iff_of_true rfl rfl
  | cons line lines ih =>
    rw [stripEnd_cons, rdropWhile_unlines_cons hsep]
    by_cases hnil : (unlines sep lines).rdropWhile blank = []
    · rw [if_pos (ih.mpr hnil), if_pos hnil]
      split
      · next hline => exact iff_of_true rfl hline
      · next hline => exact iff_of_false (List.cons_ne_nil _ _) hline
    · rw [if_neg (mt ih.mp hnil), if_neg hnil]
      exact iff_of_false (List.cons_ne_nil _ _) (List.append_ne_nil_of_right_ne_nil _ (List.cons_ne_nil _ _))

/-- The text of the lines that are left, with one end of line behind it. -/
theorem rdropWhile_unlines (hsep : blank sep = true) (lines : List (List α)) :
    (if (unlines sep lines).rdropWhile blank = [] then []
      else (unlines sep lines).rdropWhile blank ++ [sep]) = unlines sep (stripEnd blank lines) := by
  induction lines with
  | nil => rfl
  | cons line lines ih =>
    rw [stripEnd_cons, rdropWhile_unlines_cons hsep]
    by_cases hnil : (unlines sep lines).rdropWhile blank = []
    · rw [if_pos ((stripEnd_eq_nil_iff hsep lines).mpr hnil), if_pos hnil]
      split
      · rfl
      · rw [unlines_cons]
        rfl
    · rw [if_neg hnil] at ih
      rw [if_neg (mt (stripEnd_eq_nil_iff hsep lines).mp hnil), if_neg hnil, unlines_cons, ← ih,
        if_neg (List.append_ne_nil_of_right_ne_nil _ (List.cons_ne_nil _ _)), List.append_assoc]
      rfl

theorem rdropWhile_of_mem_getLast {line : List α} {lines : List (List α)}
    (h : (stripEnd blank lines).getLast? = some line) : line.rdropWhile blank = line := by
  induction lines with
  | nil => exact absurd h (by simp [stripEnd])
  | cons first lines ih =>
    rw [stripEnd_cons] at h
    split at h
    · split at h
      · exact absurd h (by simp)
      · rw [List.getLast?_singleton, Option.some_inj] at h
        rw [← h, List.rdropWhile_idempotent]
    · next hne =>
      rw [List.getLast?_cons_of_ne_nil hne] at h
      exact ih h

/-- The lines before the last one that is left are as they were. -/
theorem mem_of_mem_dropLast {line : List α} {lines : List (List α)}
    (h : line ∈ (stripEnd blank lines).dropLast) : line ∈ lines := by
  induction lines with
  | nil => exact absurd h (by simp [stripEnd])
  | cons first lines ih =>
    rw [stripEnd_cons] at h
    split at h
    · split at h
      · exact absurd h (by simp)
      · exact absurd h (by simp)
    · next hne =>
      rw [List.dropLast_cons_of_ne_nil hne] at h
      rcases List.mem_cons.mp h with rfl | h
      · exact List.mem_cons_self
      · exact List.mem_cons_of_mem first (ih h)

/-- Every line that is left starts as a line that was there. -/
theorem exists_prefix_of_mem_stripEnd {line : List α} {lines : List (List α)}
    (h : line ∈ stripEnd blank lines) : ∃ l ∈ lines, line <+: l := by
  induction lines with
  | nil => exact absurd h List.not_mem_nil
  | cons first lines ih =>
    rw [stripEnd_cons] at h
    split at h
    · split at h
      · exact absurd h List.not_mem_nil
      · rw [List.mem_singleton] at h
        exact ⟨first, List.mem_cons_self, h ▸ List.rdropWhile_prefix blank first⟩
    · rcases List.mem_cons.mp h with rfl | h
      · exact ⟨line, List.mem_cons_self, List.prefix_refl line⟩
      · obtain ⟨l, hl, hle⟩ := ih h
        exact ⟨l, List.mem_cons_of_mem first hl, hle⟩

theorem stripEnd_stripEnd (lines : List (List α)) :
    stripEnd blank (stripEnd blank lines) = stripEnd blank lines := by
  induction lines with
  | nil => rfl
  | cons line lines ih =>
    rw [stripEnd_cons]
    split
    · split
      · rfl
      · next hline =>
        rw [stripEnd_cons, stripEnd, if_pos rfl, List.rdropWhile_idempotent, if_neg hline]
    · next hne => rw [stripEnd_cons, ih, if_neg hne]

theorem length_stripEnd_le (lines : List (List α)) : (stripEnd blank lines).length ≤ lines.length := by
  induction lines with
  | nil => exact le_rfl
  | cons line lines ih =>
    rw [stripEnd_cons]
    split
    · split <;> simp
    · simpa using ih

end TextLines
