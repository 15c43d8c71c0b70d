import Mathlib.Data.List.Infix
import Mathlib.Data.Option.Basic

/-!
# Searching text

* `find pat s`: the first place of `pat` in `s`.
* `find_append`: a search goes over what cannot start the pattern.
* Lines with a separator before each of them: `find_lines_eq_none`, `find_lines`: the search for the
  separator and the start of a line finds the first line that starts so.
-/

set_option autoImplicit false

namespace TextSearch

variable {α : Type*} [DecidableEq α]

/-- The first position where `pat` stands. -/
def find (pat : List α) : List α → Option ℕ
  | [] => if pat = [] then some 0 else none
  | c :: s => if pat <+: c :: s then some 0 else (find pat s).map (· + 1)

theorem find_of_prefix {pat s : List α} (h : pat <+: s) : find pat s = some 0 := by
  cases s with
  | nil => rw [find, if_pos (List.prefix_nil.mp h)]
  | cons c s => rw [find, if_pos h]

theorem find_append {c : α} {pat a s : List α} (ha : c ∉ a) :
    find (c :: pat) (a ++ s) = (find (c :: pat) s).map (· + a.length) := by
  induction a with
  | nil => simp
  | cons d a ih =>
    rw [List.mem_cons, not_or] at ha
    have hno : ¬c :: pat <+: d :: (a ++ s) := fun h => ha.1 (List.cons_prefix_cons.mp h).1
    rw [List.cons_append, find, if_neg hno, ih ha.2, Option.map_map]
    rfl

section Lines

variable {sep : α}

omit [DecidableEq α] in
theorem prefix_line_iff {pat line : List α} {ls : List (List α)} (hpat : sep ∉ pat) :
    pat <+: line ++ ls.flatMap (sep :: ·) ↔ pat <+: line := by
  refine ⟨fun h => ?_, fun h => h.trans (List.prefix_append line _)⟩
  rcases List.prefix_or_prefix_of_prefix h (List.prefix_append line _) with hle | ⟨rest, rfl⟩
  · exact hle
  · have hrest := (List.prefix_append_right_inj line).mp h
    cases rest with
    | nil => simp
    | cons c rest =>
      cases ls with
      | nil => exact absurd hrest (by simp)
      | cons l ls =>
        rw [List.flatMap_cons, List.cons_append, List.cons_prefix_cons] at hrest
        exact absurd (List.mem_append_right line (hrest.1 ▸ List.mem_cons_self)) hpat

theorem find_line {pat line : List α} {ls : List (List α)} (hpat : sep ∉ pat) (hline : sep ∉ line) :
    find (sep :: pat) ((line :: ls).flatMap (sep :: ·)) =
      if pat <+: line then some 0
      else (find (sep :: pat) (ls.flatMap (sep :: ·))).map (· + (line.length + 1)) := by
  rw [List.flatMap_cons, List.cons_append, find]
  simp only [List.cons_prefix_cons, true_and, prefix_line_iff hpat]
  split
  · rfl
  · rw [find_append hline, Option.map_map]
    rfl

theorem find_lines_eq_none {pat : List α} {ls : List (List α)} (hpat : sep ∉ pat)
    (hls : ∀ line ∈ ls, sep ∉ line) (hno : ∀ line ∈ ls, ¬pat <+: line) :
    find (sep :: pat) (ls.flatMap (sep :: ·)) = none := by
  induction ls with
  | nil => rfl
  | cons line ls ih =>
    rw [find_line hpat (hls line List.mem_cons_self), if_neg (hno line List.mem_cons_self),
      ih (fun l hl => hls l (List.mem_cons_of_mem _ hl)) fun l hl => hno l (List.mem_cons_of_mem _ hl)]
    rfl

/-- **The first line that starts with the pattern is found**, and its rest follows. -/
theorem find_lines {pat rest : List α} {before after : List (List α)} (hpat : sep ∉ pat)
    (hbefore : ∀ line ∈ before, sep ∉ line) (hrest : sep ∉ rest)
    (hno : ∀ line ∈ before, ¬pat <+: line) :
    ∃ p, find (sep :: pat) ((before ++ (pat ++ rest) :: after).flatMap (sep :: ·)) = some p ∧
      ((before ++ (pat ++ rest) :: after).flatMap (sep :: ·)).drop (p + (pat.length + 1)) =
        rest ++ after.flatMap (sep :: ·) := by
  induction before with
  | nil =>
    refine ⟨0, ?_, ?_⟩
    · rw [List.nil_append, find_line hpat, if_pos (List.prefix_append pat rest)]
      rw [List.mem_append, not_or]
      exact ⟨hpat, hrest⟩
    · rw [List.nil_append, List.flatMap_cons, Nat.zero_add, List.cons_append, List.drop_succ_cons,
        List.append_assoc, List.drop_left]
  | cons line before ih =>
    obtain ⟨p, hfind, hdrop⟩ := ih (fun l hl => hbefore l (List.mem_cons_of_mem _ hl))
      fun l hl => hno l (List.mem_cons_of_mem _ hl)
    refine ⟨p + (line.length + 1), ?_, ?_⟩
    · rw [List.cons_append, find_line hpat (hbefore line List.mem_cons_self),
        if_neg (hno line List.mem_cons_self), hfind]
      rfl
    · rw [List.cons_append, List.flatMap_cons, ← hdrop, Nat.add_right_comm, Nat.add_comm,
        ← List.drop_drop]
      congr 1
      exact List.drop_left' (by simp)

omit [DecidableEq α] in
/-- Lines that end with a separator and a last line, as a first line and lines after a separator. -/
theorem flatMap_line_ends {ls others : List (List α)} {first last : List α}
    (h : ls ++ [last] = first :: others) :
    ls.flatMap (· ++ [sep]) ++ last = first ++ others.flatMap (sep :: ·) := by
  induction ls generalizing first others with
  | nil =>
    obtain ⟨rfl, rfl⟩ := List.cons.inj h
    simp
  | cons line ls ih =>
    obtain ⟨rfl, rfl⟩ := List.cons.inj h
    cases hnext : ls ++ [last] with
    | nil => exact absurd hnext (by simp)
    | cons first' others' =>
      rw [List.flatMap_cons, List.append_assoc, ih hnext]
      show _ = line ++ (ls ++ [last]).flatMap (sep :: ·)
      rw [hnext]
      simp

end Lines

end TextSearch
