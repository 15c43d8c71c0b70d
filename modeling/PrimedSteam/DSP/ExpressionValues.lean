import PrimedSteam.DSP.ExpressionCuts

/-!
# Values of expressions

Brackets give way to the numbers that they stand for, until a text without brackets is left.

* `Operand.parseValue_text`: numbers and labels.
* `Expression`: expressions with brackets.
* `bracketLoop_eq`: the loop for brackets.
* **`parseExpression_value`**: a regular expression is evaluated as usual.
* `differences_group_right`: two differences are not.
-/

set_option autoImplicit false

namespace DSPAssembler

variable {a : DSPAssembler}

/-! ## Numbers, labels and brackets -/

/-- A number or a label that is defined. -/
inductive Operand (a : DSPAssembler)
  | decimal (digits : List Char) (ne_nil : digits ≠ []) (isDigit : ∀ c ∈ digits, (decimalDigit c).isSome)
  | hex (digits : List Char) (isDigit : ∀ c ∈ digits, (hexDigit c).isSome)
  | binary (digits : List Char) (isDigit : ∀ c ∈ digits, (binaryDigit c).isSome)
  | label (first : Char) (rest : List Char) (value : BitVec 16) (noDigit : decimalDigit first = none)
    (plain : ∀ c ∈ first :: rest, c ∉ marks) (defined : a.getLabelValue (first :: rest) = some value)

namespace Operand

def text : Operand a → List Char
  | decimal digits _ _ => digits
  | hex digits _ => '0' :: 'X' :: digits
  | binary digits _ => '0' :: Char.ofNat 39 :: digits
  | label first rest _ _ _ _ => first :: rest

def value : Operand a → BitVec 32
  | decimal digits _ _ => BitVec.ofNat 32 (numeral 10 decimalDigit digits)
  | hex digits _ => BitVec.ofNat 32 (numeral 16 hexDigit digits)
  | binary digits _ => BitVec.ofNat 32 (numeral 2 binaryDigit digits)
  | label _ _ value _ _ _ => value.setWidth 32

theorem text_ne_nil (o : Operand a) : o.text ≠ [] := by
  cases o with
  | decimal digits ne_nil isDigit => exact ne_nil
  | hex digits isDigit => exact List.cons_ne_nil _ _
  | binary digits isDigit => exact List.cons_ne_nil _ _
  | label first rest value noDigit plain defined => exact List.cons_ne_nil _ _

theorem plain (o : Operand a) : ∀ c ∈ o.text, c ∉ marks := by
  have hall : marks.all (fun c => hexDigit c = none ∧ binaryDigit c = none) = true := by decide
  have hmarks : ∀ c ∈ marks, hexDigit c = none ∧ binaryDigit c = none := fun c hc =>
    of_decide_eq_true (List.all_eq_true.mp hall c hc)
  cases o with
  | decimal digits ne_nil isDigit => exact fun c hc => not_mem_marks_of_digit (isDigit c hc)
  | hex digits isDigit =>
    intro c hc hmark
    obtain rfl | hc := List.mem_cons.mp hc
    · exact absurd hmark (by decide)
    obtain rfl | hc := List.mem_cons.mp hc
    · exact absurd hmark (by decide)
    have hdigit := isDigit c hc
    rw [(hmarks c hmark).1] at hdigit
    cases hdigit
  | binary digits isDigit =>
    intro c hc hmark
    obtain rfl | hc := List.mem_cons.mp hc
    · exact absurd hmark (by decide)
    obtain rfl | hc := List.mem_cons.mp hc
    · exact absurd hmark (by decide)
    have hdigit := isDigit c hc
    rw [(hmarks c hmark).2] at hdigit
    cases hdigit
  | label first rest value noDigit plain defined => exact plain

/-- **Numbers and labels are read as what they stand for.** -/
theorem parseValue_text (o : Operand a) : a.parseValue o.text = (o.value, false) := by
  have hsign := @parseValue_sign a [] o.text (Or.inl rfl) o.plain
  rw [List.nil_append] at hsign
  rw [hsign]
  cases o with
  | decimal digits ne_nil isDigit => exact parseUnsigned_digits ne_nil isDigit false
  | hex digits isDigit => exact @parseDigits_eq 16 hexDigit digits isDigit
  | binary digits isDigit => exact @parseDigits_eq 2 binaryDigit digits isDigit
  | label first rest value noDigit plain defined =>
    have hzero : first ≠ '0' := by
      rintro rfl
      cases noDigit
    rw [text, parseUnsigned]
    dsimp only
    rw [if_neg hzero, noDigit, if_neg (by decide), parseUnsigned.label, defined]
    rfl

def leaf (o : Operand a) : Leaf a where
  sign := []
  body := o.text
  value := o.value
  isSign := Or.inl rfl
  body_ne_nil := o.text_ne_nil
  plain := o.plain
  parse := o.parseValue_text

end Operand

/-- A number that has been printed. -/
def printedLeaf (a : DSPAssembler) (val : BitVec 32) : Leaf a where
  sign := if val.msb then ['-'] else []
  body := printedDigits val
  value := val
  isSign := by
    split_ifs
    · exact Or.inr (Or.inl rfl)
    · exact Or.inl rfl
  body_ne_nil := (printedDigits_spec val).1
  plain c hc := not_mem_marks_of_digit ((printedDigits_spec val).2.1 c hc)
  parse := by
    rw [← print_eq]
    exact parseValue_print a val

theorem text_printedLeaf (val : BitVec 32) : (printedLeaf a val).text = print val := (print_eq val).symm

/-- Expressions whose brackets are nested less than `n` deep. -/
def Expression (a : DSPAssembler) : ℕ → Type
  | 0 => Empty
  | n + 1 => Terms (Operand a ⊕ Expression a n)

section

variable {α : Type}

def factorText (text : α → List Char) : Operand a ⊕ α → List Char
  | .inl o => o.text
  | .inr e => '(' :: (text e ++ [')'])

def factorValue (value : α → BitVec 32) : Operand a ⊕ α → BitVec 32
  | .inl o => o.value
  | .inr e => value e

/-- What holds of the expressions in brackets. -/
def InBrackets (P : α → Prop) : Operand a ⊕ α → Prop
  | .inl _ => True
  | .inr e => P e

instance (P : α → Prop) [DecidablePred P] : DecidablePred (@InBrackets a α P)
  | .inl _ => isTrue trivial
  | .inr e => inferInstanceAs (Decidable (P e))

/-- What holds of terms and of those in their brackets. -/
def Everywhere (P : Terms (Operand a ⊕ α) → Prop) (Q : α → Prop) (e : Terms (Operand a ⊕ α)) : Prop :=
  P e ∧ ∀ x ∈ e.leaves, InBrackets Q x

instance (P : Terms (Operand a ⊕ α) → Prop) (Q : α → Prop) [DecidablePred P] [DecidablePred Q] :
    DecidablePred (Everywhere P Q) := fun _ => inferInstanceAs (Decidable (_ ∧ _))

/-- A factor once its brackets have given way to a number. -/
def factorLeaf (value : α → BitVec 32) : Operand a ⊕ α → Leaf a
  | .inl o => o.leaf
  | .inr e => printedLeaf a (value e)

end

namespace Expression

def text : (n : ℕ) → Expression a n → List Char
  | 0, e => Empty.elim e
  | n + 1, e => Terms.text (factorText (text n)) e

/-- The value, with the usual precedence and from left to right. -/
def value : (n : ℕ) → Expression a n → BitVec 32
  | 0, e => Empty.elim e
  | n + 1, e => Terms.value (factorValue (value n)) e

def DivisorsNonzero : (n : ℕ) → Expression a n → Prop
  | 0, _ => True
  | n + 1, e => Everywhere (Terms.DivisorsNonzero (factorValue (value n))) (DivisorsNonzero n) e

/-- In all brackets, the operators stand as the evaluator groups them, and no sum or difference is negative. -/
def Regular : (n : ℕ) → Expression a n → Prop
  | 0, _ => True
  | n + 1, e => Everywhere (Terms.Regular (factorValue (value n))) (Regular n) e

instance decidableDivisorsNonzero : (n : ℕ) → DecidablePred (@DivisorsNonzero a n)
  | 0 => fun _ => isTrue trivial
  | n + 1 =>
    have := @decidableDivisorsNonzero n
    inferInstanceAs (DecidablePred (Everywhere (Terms.DivisorsNonzero (factorValue (value n))) (DivisorsNonzero n)))

instance decidableRegular : (n : ℕ) → DecidablePred (@Regular a n)
  | 0 => fun _ => isTrue trivial
  | n + 1 =>
    have := @decidableRegular n
    inferInstanceAs (DecidablePred (Everywhere (Terms.Regular (factorValue (value n))) (Regular n)))

theorem balanced_text : ∀ (n : ℕ) (e : Expression a n), Balanced (text n e)
  | 0, e => Empty.elim e
  | n + 1, e => by
    refine Terms.balanced_text fun x _ => ?_
    cases x with
    | inl o => exact balanced_of_not_mem (fun hc => o.plain _ hc (by decide)) fun hc => o.plain _ hc (by decide)
    | inr g => exact (balanced_text n g).brackets

end Expression

/-! ## The loop for brackets -/

def strip (s : List Char) : List Char := s.filter fun c => c ≠ ' '

section

variable {α : Type}

/-- The expressions in brackets, in their order. -/
def bracketed (xs : List (Operand a ⊕ α)) : List α := xs.filterMap Sum.getRight?

/-- Each text that comes of another one, as its first bracket gives way to the number that it stands for, is
held by the buffers, and so are the texts that come of those in the brackets. -/
def Rewrites (fits : α → List Char → Prop) (value : α → BitVec 32) : List α → List Char → Prop
  | [], s => s.length < bufferSize
  | g :: gs, s => s.length < bufferSize ∧ ∀ parts ∈ (findBrackets s).found,
      fits g parts.1 ∧ Rewrites fits value gs ((findBrackets s).src ++ print (value g) ++ parts.2)

instance decidableRewrites {fits : α → List Char → Prop} {value : α → BitVec 32} [∀ g, DecidablePred (fits g)] :
    (gs : List α) → (s : List Char) → Decidable (Rewrites fits value gs s)
  | [], s => inferInstanceAs (Decidable (s.length < bufferSize))
  | g :: gs, s =>
    have : DecidablePred (Rewrites fits value gs) := decidableRewrites gs
    inferInstanceAs (Decidable (s.length < bufferSize ∧ ∀ parts ∈ (findBrackets s).found, fits g parts.1 ∧
      Rewrites fits value gs ((findBrackets s).src ++ print (value g) ++ parts.2)))

theorem Rewrites.length_lt {fits : α → List Char → Prop} {value : α → BitVec 32} {gs : List α} {s : List Char}
    (h : Rewrites fits value gs s) : s.length < bufferSize := by
  cases gs with
  | nil => exact h
  | cons g gs => exact h.1

/-- The brackets of a text have given way to their values. -/
inductive Replaced (eval : Evaluator) (fits : α → List Char → Prop) (value : α → BitVec 32) :
    List α → List Char → List Char → Prop
  | nil : Replaced eval fits value [] [] []
  | char {c : Char} {gs : List α} {s t : List Char} : c ≠ '(' → c ≠ ')' → Replaced eval fits value gs s t →
    Replaced eval fits value gs (c :: s) (c :: t)
  | brackets {g : α} {gs : List α} {inside s t : List Char} : Balanced inside →
    (∀ u, strip u = inside → fits g u → ∀ failed, eval u failed = some (value g, failed)) →
    Replaced eval fits value gs s t →
    Replaced eval fits value (g :: gs) ('(' :: (inside ++ ')' :: s)) (print (value g) ++ t)

end

namespace Replaced

variable {α : Type} {eval : Evaluator} {fits : α → List Char → Prop} {value : α → BitVec 32}

theorem append {gs gs' : List α} {s t s' t' : List Char} (h : Replaced eval fits value gs s t)
    (h' : Replaced eval fits value gs' s' t') : Replaced eval fits value (gs ++ gs') (s ++ s') (t ++ t') := by
  induction h with
  | nil => exact h'
  | char hopen hclose _ ih => exact ih.char hopen hclose
  | brackets hinside heval _ ih =>
    rw [List.cons_append, List.cons_append, List.append_assoc, List.cons_append, List.append_assoc]
    exact ih.brackets hinside heval

theorem of_not_mem {s : List Char} (hopen : '(' ∉ s) (hclose : ')' ∉ s) :
    Replaced eval fits value [] s s := by
  induction s with
  | nil => exact nil
  | cons c s ih =>
    rw [List.mem_cons, not_or] at hopen hclose
    exact (ih hopen.2 hclose.2).char (Ne.symm hopen.1) (Ne.symm hclose.1)

end Replaced

theorem not_mem_of_strip {u : List Char} {c : Char} (hspace : c ≠ ' ') (h : c ∉ strip u) : c ∉ u :=
  fun hc => h (List.mem_filter.mpr ⟨hc, decide_eq_true hspace⟩)

theorem strip_append (s t : List Char) : strip (s ++ t) = strip s ++ strip t := List.filter_append ..

theorem strip_spaces {s : List Char} (h : ∀ c ∈ s, c = ' ') : strip s = [] := by
  rw [strip, List.filter_eq_nil_iff]
  intro c hc
  rw [h c hc]
  decide

theorem strip_eq_cons {u s : List Char} {c : Char} (h : strip u = c :: s) :
    ∃ spaces rest, u = spaces ++ c :: rest ∧ (∀ c ∈ spaces, c = ' ') ∧ c ≠ ' ' ∧ strip rest = s := by
  obtain ⟨spaces, rest, rfl, hspaces, hc, hrest⟩ := List.filter_eq_cons_iff.mp h
  refine ⟨spaces, rest, rfl, fun d hd => ?_, of_decide_eq_true hc, hrest⟩
  by_contra hne
  exact hspaces d hd (decide_eq_true hne)

/-- Brackets of a text, with spaces anywhere. -/
theorem strip_eq_brackets {u inside s : List Char} (h : strip u = '(' :: (inside ++ ')' :: s)) :
    ∃ spaces inside' after, u = spaces ++ '(' :: (inside' ++ ')' :: after) ∧ (∀ c ∈ spaces, c = ' ') ∧
      strip inside' = inside ∧ strip after = s := by
  obtain ⟨spaces, rest, rfl, hspaces, -, hrest⟩ := strip_eq_cons h
  obtain ⟨inside', rest', rfl, hinside', hrest'⟩ := List.filter_eq_append_iff.mp hrest
  obtain ⟨spaces', after, rfl, hspaces', -, hafter⟩ := strip_eq_cons hrest'
  refine ⟨spaces, inside' ++ spaces', after, by rw [List.append_assoc], hspaces, ?_, hafter⟩
  rw [strip_append, strip_spaces hspaces', List.append_nil]
  exact hinside'

theorem strip_print (value : BitVec 32) : strip (print value) = print value := by
  rw [strip, List.filter_eq_self]
  intro c hc
  refine decide_eq_true fun hspace => not_mem_print (by decide : ' ' ∈ marks) (by decide) value ?_
  rwa [hspace] at hc

/-- **The loop for brackets** replaces all of them. -/
theorem bracketLoop_eq {α : Type} {eval : Evaluator} {fits : α → List Char → Prop} {value : α → BitVec 32}
    {gs : List α} {s t : List Char} (h : Replaced eval fits value gs s t) {u before : List Char}
    (hu : strip u = s) (hopen : '(' ∉ before) (hclose : ')' ∉ before)
    (hfits : Rewrites fits value gs (before ++ u)) {turns : ℕ} (hturns : u.count '(' < turns) (failed : Bool) :
    ∃ w, a.bracketLoop eval turns (before ++ u) failed = some (w, failed) ∧ strip w = strip before ++ t ∧
      w.length < bufferSize := by
  induction h generalizing u before turns with
  | nil =>
    have hnot : ∀ c, c ≠ ' ' → c ∉ u := fun c hc => not_mem_of_strip hc (by rw [hu]; exact List.not_mem_nil)
    have hbrackets : findBrackets (before ++ u) = ⟨before ++ u, none, false⟩ := findBrackets_of_not_mem
      (by rw [List.mem_append, not_or]; exact ⟨hopen, hnot _ (by decide)⟩)
      (by rw [List.mem_append, not_or]; exact ⟨hclose, hnot _ (by decide)⟩)
    obtain ⟨turns, rfl⟩ := Nat.exists_eq_add_of_lt hturns
    refine ⟨before ++ u, ?_, ?_, hfits.length_lt⟩
    · rw [bracketLoop, hbrackets]
      dsimp only
      rw [showError_false]
    · rw [strip_append, hu]
  | @char c gs s t hc hc' h ih =>
    obtain ⟨spaces, rest, rfl, hspaces, hspace, hrest⟩ := strip_eq_cons hu
    have hnot : ∀ d, d ≠ ' ' → d ∉ spaces := fun d hd hmem => hd (hspaces d hmem)
    have happend : before ++ (spaces ++ c :: rest) = (before ++ spaces ++ [c]) ++ rest := by
      simp only [List.append_assoc, List.singleton_append]
    rw [happend] at hfits ⊢
    have hcount : (spaces ++ c :: rest).count '(' = rest.count '(' := by
      rw [List.count_append, List.count_eq_zero_of_not_mem (hnot _ (by decide)), List.count_cons_of_ne hc,
        Nat.zero_add]
    rw [hcount] at hturns
    have hplain : ∀ d, d ≠ ' ' → d ≠ c → d ∉ before → d ∉ before ++ spaces ++ [c] := by
      intro d hd hdc hbefore
      rw [List.mem_append, List.mem_append, List.mem_singleton, not_or, not_or]
      exact ⟨⟨hbefore, hnot d hd⟩, hdc⟩
    obtain ⟨w, hloop, hw, hlength⟩ := ih hrest (hplain _ (by decide) (Ne.symm hc) hopen)
      (hplain _ (by decide) (Ne.symm hc') hclose) hfits hturns
    refine ⟨w, hloop, ?_, hlength⟩
    have hstrip : strip (before ++ spaces ++ [c]) = strip before ++ [c] := by
      have hone : strip [c] = [c] := List.filter_cons_of_pos (decide_eq_true hspace)
      rw [strip_append, strip_append, strip_spaces hspaces, List.append_nil, hone]
    rw [hw, hstrip, List.append_assoc]
    rfl
  | @brackets g gs inside s t hinside heval h ih =>
    obtain ⟨spaces, inside', after, rfl, hspaces, hstrip, hafter⟩ := strip_eq_brackets hu
    have hnot : ∀ d, d ≠ ' ' → d ∉ spaces := fun d hd hmem => hd (hspaces d hmem)
    have hbalanced : Balanced inside' := by
      intro d
      rw [← depthAfter_filter]
      exact (congrArg (depthAfter d) hstrip).trans (hinside d)
    have happend : before ++ (spaces ++ '(' :: (inside' ++ ')' :: after)) =
        (before ++ spaces) ++ '(' :: (inside' ++ ')' :: after) := by
      rw [List.append_assoc]
    have hbefore : ∀ d, d ≠ ' ' → d ∉ before → d ∉ before ++ spaces := by
      intro d hd hbefore
      rw [List.mem_append, not_or]
      exact ⟨hbefore, hnot d hd⟩
    have hfind := findBrackets_eq (hbefore _ (by decide) hopen) (hbefore _ (by decide) hclose) hbalanced after
    have hcount : (spaces ++ '(' :: (inside' ++ ')' :: after)).count '(' =
        inside'.count '(' + after.count '(' + 1 := by
      have hclose : (')' :: after).count '(' = after.count '(' := List.count_cons_of_ne (by decide)
      rw [List.count_append, List.count_eq_zero_of_not_mem (hnot _ (by decide)), List.count_cons_self,
        List.count_append, hclose, Nat.zero_add]
    rw [happend] at hfits
    have hparts := hfits.2
    rw [hfind] at hparts
    obtain ⟨hinside'', hnext⟩ := hparts _ rfl
    dsimp only at hinside'' hnext
    obtain ⟨turns, rfl⟩ := Nat.exists_eq_add_of_lt hturns
    have hplain : ∀ d ∈ marks, d ≠ ' ' → d ≠ '-' → d ∉ before →
        d ∉ before ++ spaces ++ print (value g) := by
      intro d hmark hd hminus hd'
      rw [List.mem_append, not_or]
      exact ⟨hbefore d hd hd', not_mem_print hmark hminus (value g)⟩
    obtain ⟨w, hloop, hw, hlength⟩ := @ih after (before ++ spaces ++ print (value g)) hafter
      (hplain _ (by decide) (by decide) (by decide) hopen) (hplain _ (by decide) (by decide) (by decide) hclose)
      hnext ((spaces ++ '(' :: (inside' ++ ')' :: after)).count '(' + turns) (by omega)
    refine ⟨w, ?_, ?_, hlength⟩
    · have hval := heval inside' hstrip hinside'' failed
      rw [happend, bracketLoop, hfind]
      simp only [hval, Option.bind_eq_bind, Option.bind_some]
      rw [if_pos hnext.length_lt]
      exact hloop
    · rw [hw, strip_append, strip_append, strip_spaces hspaces, List.append_nil, strip_print, List.append_assoc]

/-! ## Expressions -/

section

variable {α β : Type}

def Product.map (f : α → β) (p : Product α) : Product β := ⟨f p.first, p.rest.map fun x => (x.1, f x.2)⟩

def Terms.map (f : α → β) (e : Terms α) : Terms β := ⟨e.first.map f, e.rest.map fun x => (x.1, x.2.map f)⟩

theorem Product.text_map (f : α → β) (text : β → List Char) (p : Product α) :
    (p.map f).text text = p.text fun x => text (f x) := by
  rw [Product.text, Product.text, Product.map, List.flatMap_map]

theorem Terms.text_map (f : α → β) (text : β → List Char) (e : Terms α) :
    (e.map f).text text = e.text fun x => text (f x) := by
  rw [Terms.text, Terms.text, Terms.map, List.flatMap_map, Product.text_map]
  simp only [Product.text_map]

theorem Product.value_map (f : α → β) (v : β → BitVec 32) (p : Product α) :
    (p.map f).value v = p.value fun x => v (f x) := by
  rw [Product.value, Product.value, Product.map, List.foldl_map]

theorem Terms.value_map (f : α → β) (v : β → BitVec 32) (e : Terms α) :
    (e.map f).value v = e.value fun x => v (f x) := by
  rw [Terms.value, Terms.value, Terms.map, List.foldl_map, Product.value_map]
  simp only [Product.value_map]

theorem Terms.mem_products_map {f : α → β} {e : Terms α} {q : Product β} (h : q ∈ (e.map f).products) :
    ∃ p ∈ e.products, q = p.map f := by
  obtain rfl | hq := List.mem_cons.mp h
  · exact ⟨e.first, List.mem_cons_self, rfl⟩
  · obtain ⟨x, hx, rfl⟩ := List.mem_map.mp hq
    obtain ⟨y, hy, rfl⟩ := List.mem_map.mp hx
    exact ⟨y.2, List.mem_cons_of_mem _ (List.mem_map_of_mem hy), rfl⟩

theorem Terms.Regular.map {f : α → β} {v : β → BitVec 32} {e : Terms α} (h : e.Regular fun x => v (f x)) :
    (e.map f).Regular v := by
  refine ⟨fun q hq => ?_, ?_⟩
  · obtain ⟨p, hp, rfl⟩ := Terms.mem_products_map hq
    intro x hx
    rw [Product.map] at hx
    dsimp only at hx
    rw [← List.map_tail] at hx
    obtain ⟨y, hy, rfl⟩ := List.mem_map.mp hx
    exact h.1 p hp y hy
  · have hrest : ((e.map f).rest.map fun x => (x.1, x.2.value v)) =
        e.rest.map fun x => (x.1, x.2.value fun y => v (f y)) := by
      rw [Terms.map, List.map_map]
      exact List.map_congr_left fun x _ => congrArg (Prod.mk x.1) (Product.value_map f v x.2)
    have hfirst : (e.map f).first.value v = e.first.value fun x => v (f x) := Product.value_map f v e.first
    rw [hrest, hfirst]
    exact h.2

theorem Terms.DivisorsNonzero.map {f : α → β} {v : β → BitVec 32} {e : Terms α}
    (h : e.DivisorsNonzero fun x => v (f x)) : (e.map f).DivisorsNonzero v := by
  intro q hq
  obtain ⟨p, hp, rfl⟩ := Terms.mem_products_map hq
  intro x hx hdiv
  obtain ⟨y, hy, rfl⟩ := List.mem_map.mp hx
  exact h p hp y hy hdiv

end

theorem value_factorLeaf {α : Type} (value : α → BitVec 32) :
    (fun x => (factorLeaf value x : Leaf a).value) = factorValue value := by
  funext x
  cases x <;> rfl

/-- The brackets of an expression give way to their values. -/
theorem replaced_text {eval : Evaluator} {n : ℕ} {fits : Expression a n → List Char → Prop}
    {e : Terms (Operand a ⊕ Expression a n)}
    (heval : ∀ g, Sum.inr g ∈ e.leaves → ∀ u, strip u = Expression.text n g → fits g u →
      ∀ failed, eval u failed = some (Expression.value n g, failed)) :
    Replaced eval fits (Expression.value n) (bracketed e.leaves) (e.text (factorText (Expression.text n)))
      (e.text fun x => (factorLeaf (Expression.value n) x).text) := by
  have hplain : ∀ c, c ≠ '(' → c ≠ ')' → Replaced eval fits (Expression.value n) [] [c] [c] :=
    fun c hopen hclose => Replaced.nil.char hopen hclose
  refine @Terms.text_induction _
    (fun xs s t => Replaced eval fits (Expression.value n) (bracketed xs) s t)
    (fun xs s t xs' s' t' h h' => ?_) (fun op => ?_) (fun op => ?_) _ _ e fun x hx => ?_
  · rw [bracketed, List.filterMap_append]
    exact h.append h'
  · cases op <;> exact hplain _ (by decide) (by decide)
  · cases op <;> exact hplain _ (by decide) (by decide)
  · cases x with
    | inl o =>
      exact Replaced.of_not_mem (fun hc => o.plain _ hc (by decide)) fun hc => o.plain _ hc (by decide)
    | inr g =>
      have hbrackets := Replaced.nil.brackets (Expression.balanced_text n g) (heval g hx)
      rw [List.append_nil, ← @text_printedLeaf a] at hbrackets
      exact hbrackets

/-- Terms are evaluated as usual if the brackets in them are. -/
theorem parseExpression_brackets {fuel n : ℕ} {fits : Expression a n → List Char → Prop}
    {e : Terms (Operand a ⊕ Expression a n)}
    (hregular : e.Regular (factorValue (Expression.value n)))
    (hzero : e.DivisorsNonzero (factorValue (Expression.value n)))
    (heval : ∀ g, Sum.inr g ∈ e.leaves → ∀ u, strip u = Expression.text n g → fits g u →
      ∀ failed, a.parseExpression fuel u failed = some (Expression.value n g, failed))
    {s : List Char} (hs : strip s = e.text (factorText (Expression.text n)))
    (hfits : Rewrites fits (Expression.value n) (bracketed e.leaves) s) (hfuel : bufferSize ≤ fuel)
    (failed : Bool) :
    a.parseExpression (fuel + 1) s failed = some (e.value (factorValue (Expression.value n)), failed) := by
  obtain ⟨w, hloop, hw, hlength⟩ := @bracketLoop_eq a _ _ _ _ _ _ _ (replaced_text heval) s [] hs
    List.not_mem_nil List.not_mem_nil hfits (s.count '(' + 1) (Nat.lt_succ_self _) failed
  rw [List.nil_append] at hloop
  -- what is left is a text without brackets
  have htext : strip w = (e.map (factorLeaf (Expression.value n))).text Leaf.text := by
    rw [hw, Terms.text_map]
    rfl
  have hvalue : (e.map (factorLeaf (Expression.value n))).value Leaf.value =
      e.value (factorValue (Expression.value n)) := by
    rw [Terms.value_map, value_factorLeaf]
  have hshort : ((e.map (factorLeaf (Expression.value n))).text Leaf.text).length < bufferSize := by
    rw [← htext]
    exact (List.length_filter_le _ _).trans_lt hlength
  rw [← value_factorLeaf] at hregular hzero
  have hfuel' : ((e.map (factorLeaf (Expression.value n))).text Leaf.text).length < fuel + 1 := by omega
  have hterms := evaluates_terms hfuel' hshort hregular.map hzero.map failed
  rw [parseExpression_terms _ hshort, hvalue] at hterms
  rw [parseExpression, if_neg (not_le_of_gt hfits.length_lt), hloop, Option.bind_eq_bind, Option.bind_some]
  dsimp only
  rw [← hterms, ← htext]
  rfl

/-- The buffers hold the texts of an expression while its brackets give way to numbers. -/
def Expression.Fits : (n : ℕ) → Expression a n → List Char → Prop
  | 0, _, _ => True
  | n + 1, e, s => Rewrites (Fits n) (value n) (bracketed e.leaves) s

instance Expression.decidableFits : (n : ℕ) → (e : Expression a n) → DecidablePred (e.Fits n)
  | 0, _ => fun _ => isTrue trivial
  | n + 1, e => fun s =>
    have := @decidableFits n
    inferInstanceAs (Decidable (Rewrites (Fits n) (value n) (bracketed e.leaves) s))

/-- **Expressions are evaluated as usual** where they are regular: the evaluator ends with their value, and
shows no error, as long as the buffers hold the texts. Spaces may stand anywhere. -/
theorem parseExpression_value (a : DSPAssembler) {n : ℕ} {e : Expression a n} (hregular : e.Regular n)
    (hzero : e.DivisorsNonzero n) {s : List Char} (hs : strip s = e.text n) (hfits : e.Fits n s) {fuel : ℕ}
    (hfuel : bufferSize + n ≤ fuel) (failed : Bool) :
    a.parseExpression fuel s failed = some (e.value n, failed) := by
  induction n generalizing s fuel failed with
  | zero => exact Empty.elim e
  | succ n ih =>
    obtain ⟨fuel, rfl⟩ : ∃ k, fuel = k + 1 := ⟨fuel - 1, by omega⟩
    refine parseExpression_brackets hregular.1 hzero.1 (fun g hg u hu hfits failed => ?_) hs hfits (by omega) failed
    exact ih (hregular.2 (.inr g) hg) (hzero.2 (.inr g) hg) hu hfits (by omega) failed

/-- An assembler that knows a label. -/
def exampleAssembler : DSPAssembler := ⟨[⟨['M', 'A', 'X'], 9⟩], 2, false⟩

theorem plain_label : ∀ c ∈ 'M' :: ['A', 'X'], c ∉ marks := fun c hc => by
  have hall : ['M', 'A', 'X'].all (fun c => c ∉ marks) = true := by decide
  exact of_decide_eq_true (List.all_eq_true.mp hall c hc)

/-- `8 - (MAX / 3) * 2` -/
def exampleExpression : Expression exampleAssembler 2 :=
  ⟨⟨.inl (.decimal ['8'] (by decide) (List.all_eq_true.mp (by decide))), []⟩,
    [(.sub, ⟨.inr ⟨⟨.inl (.label 'M' ['A', 'X'] 9 (by decide) plain_label (by decide)),
        [(.div, .inl (.decimal ['3'] (by decide) (List.all_eq_true.mp (by decide))))]⟩, []⟩,
      [(.mul, .inl (.decimal ['2'] (by decide) (List.all_eq_true.mp (by decide))))]⟩)]⟩

theorem parseExpression_value_example :
    exampleAssembler.parseExpression 1026
      ['8', ' ', '-', ' ', '(', 'M', 'A', 'X', ' ', '/', ' ', '3', ')', ' ', '*', ' ', '2'] false =
      some (2#32, false) := by
  have hvalue : exampleExpression.value 2 = 2#32 := by decide
  have h := @parseExpression_value exampleAssembler 2 exampleExpression (by decide) (by decide)
    ['8', ' ', '-', ' ', '(', 'M', 'A', 'X', ' ', '/', ' ', '3', ')', ' ', '*', ' ', '2']
    (by decide) (by decide) 1026
    (by decide) false
  rwa [hvalue] at h

/-- `5 - 2 - 1` -/
def twoDifferences : Expression exampleAssembler 1 :=
  ⟨⟨.inl (.decimal ['5'] (by decide) (List.all_eq_true.mp (by decide))), []⟩,
    [(.sub, ⟨.inl (.decimal ['2'] (by decide) (List.all_eq_true.mp (by decide))), []⟩),
      (.sub, ⟨.inl (.decimal ['1'] (by decide) (List.all_eq_true.mp (by decide))), []⟩)]⟩

/-- The second difference is taken first. -/
theorem differences_group_right : twoDifferences.text 1 = ['5', '-', '2', '-', '1'] ∧
    twoDifferences.value 1 = 2#32 ∧
    ∀ fuel failed, exampleAssembler.parseExpression (fuel + 4) ['5', '-', '2', '-', '1'] failed =
      some (4#32, failed) := by
  refine ⟨by decide, by decide, fun fuel failed => ?_⟩
  cases failed <;> rfl

end DSPAssembler
