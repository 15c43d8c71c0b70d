import Mathlib.Data.List.DropRight

/-!
# Strings

The helpers of `StringUtil` that configuration files and paths use.
-/

set_option autoImplicit false

namespace StringUtil

abbrev Text := List Char

def toLower (c : Char) : Char :=
  if 'A' ≤ c ∧ c ≤ 'Z' then Char.ofNat (c.toNat + ('a'.toNat - 'A'.toNat)) else c

/-- `CaseInsensitiveEquals` -/
def caseInsensitiveEquals (a b : Text) : Bool := a.map toLower = b.map toLower

def isWhitespace (c : Char) : Bool := c = ' ' || c = '\t' || c = '\r' || c = '\n'

/-- `StripWhitespace` -/
def stripWhitespace (s : Text) : Text := (s.dropWhile isWhitespace).rdropWhile isWhitespace

/-- `StripQuotes` -/
def stripQuotes (s : Text) : Text :=
  if s.head? = some '"' ∧ s.getLast? = some '"' then s.tail.dropLast else s

/-! ## Letters -/

theorem caseInsensitiveEquals_iff (a b : Text) :
    caseInsensitiveEquals a b = true ↔ a.map toLower = b.map toLower := decide_eq_true_iff

theorem caseInsensitiveEquals_refl (a : Text) : caseInsensitiveEquals a a = true := decide_eq_true rfl

theorem caseInsensitiveEquals_comm (a b : Text) :
    caseInsensitiveEquals a b = caseInsensitiveEquals b a := by
  rw [Bool.eq_iff_iff, caseInsensitiveEquals_iff, caseInsensitiveEquals_iff, eq_comm]

/-! ## Whitespace -/

theorem stripWhitespace_sublist (s : Text) : (stripWhitespace s).Sublist s :=
  ( List.rdropWhile_prefix _ _).sublist.trans (List.dropWhile_sublist _)

theorem head?_rdropWhile {s : Text} {c : Char} (h : (s.rdropWhile isWhitespace).head? = some c) :
    s.head? = some c := by
  obtain ⟨rest, hrest⟩ := List.rdropWhile_prefix isWhitespace s
  rw [← hrest]
  cases hs : s.rdropWhile isWhitespace with
  | nil => rw [hs] at h; cases h
  | cons d l =>
    rw [hs] at h
    exact h

/-- What is stripped neither begins nor ends in whitespace. -/
theorem stripWhitespace_ends (s : Text) :
    (∀ c, (stripWhitespace s).head? = some c → isWhitespace c = false) ∧
      ∀ c, (stripWhitespace s).getLast? = some c → isWhitespace c = false := by
  constructor
  · intro c hc
    have hhead := List.head?_dropWhile_not isWhitespace s
    rw [head?_rdropWhile hc] at hhead
    exact hhead
  · intro c hc
    by_contra hspace
    obtain ⟨init, hinit⟩ := List.getLast?_eq_some_iff.mp hc
    have hidem : (stripWhitespace s).rdropWhile isWhitespace = stripWhitespace s :=
      List.rdropWhile_idempotent _ _
    rw [hinit, List.rdropWhile_concat_pos _ _ _ (by simpa using hspace)] at hidem
    have hlen := ( List.rdropWhile_prefix isWhitespace init).length_le
    rw [hidem, List.length_append, List.length_singleton] at hlen
    omega

/-- A text that neither begins nor ends in whitespace is stripped already. -/
theorem stripWhitespace_eq_self {s : Text} (hhead : ∀ c, s.head? = some c → isWhitespace c = false)
    (hlast : ∀ c, s.getLast? = some c → isWhitespace c = false) : stripWhitespace s = s := by
  rcases List.eq_nil_or_concat' s with rfl | ⟨init, last, rfl⟩
  · rfl
  have hdrop : (init ++ [last]).dropWhile isWhitespace = init ++ [last] := by
    cases hs : init ++ [last] with
    | nil => rfl
    | cons c l =>
      have hc := hhead c (by rw [hs]; rfl)
      rw [List.dropWhile_cons_of_neg (by simp [hc])]
  have hend := hlast last (by simp)
  rw [stripWhitespace, hdrop, List.rdropWhile_concat_neg _ _ _ (by simp [hend])]

theorem stripWhitespace_stripWhitespace (s : Text) :
    stripWhitespace (stripWhitespace s) = stripWhitespace s :=
  stripWhitespace_eq_self (stripWhitespace_ends s).1 (stripWhitespace_ends s).2

theorem stripWhitespace_cons {c : Char} (hc : isWhitespace c = true) (s : Text) :
    stripWhitespace (c :: s) = stripWhitespace s := by
  rw [stripWhitespace, List.dropWhile_cons_of_pos hc]
  rfl

theorem stripWhitespace_concat {s : Text} {c : Char} (hc : isWhitespace c = true) :
    stripWhitespace (s ++ [c]) = stripWhitespace s := by
  rw [stripWhitespace, List.dropWhile_append]
  split
  · next hempty =>
    rw [List.isEmpty_iff] at hempty
    rw [stripWhitespace, hempty, List.dropWhile_cons_of_pos hc]
    rfl
  · rw [List.rdropWhile_concat_pos _ _ _ hc]
    rfl

end StringUtil
