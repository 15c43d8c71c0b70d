import PrimedSteam.DSP.ExpressionTexts
import Mathlib.Tactic.Tauto

/-!
# Cutting expressions at their operators

The evaluator cuts a text without brackets at its first `+`, then at its first `-`, `*` or `/`. This groups
as usual what is no more than one `-` between two `+`, and no `/` behind another operator of its product.

* `evaluateMarked_add`, `evaluateMarked_sub`, `evaluateMarked_mul`, `evaluateMarked_div`: one cut.
* `markSigns_terms`: the marks of negative numbers.
* `SumsFit`, `Product.DividesFirst`, `Terms.Regular`: what is grouped as usual, without negative sums.
* **`evaluates_terms`**: a regular text without brackets is evaluated as usual.
-/

set_option autoImplicit false

namespace DSPAssembler

variable {a : DSPAssembler}

/-! ## Operators -/

theorem splitFirst_none {op : Char} {d : List Char} (h : op ∉ d) : splitFirst op d = none := by
  induction d with
  | nil => rfl
  | cons c d ih =>
    rw [List.mem_cons, not_or] at h
    rw [splitFirst, if_neg (Ne.symm h.1), ih h.2]
    rfl

theorem splitFirst_append {op : Char} {left : List Char} (h : op ∉ left) (right : List Char) :
    splitFirst op (left ++ op :: right) = some (left, right) := by
  induction left with
  | nil => exact if_pos rfl
  | cons c left ih =>
    rw [List.mem_cons, not_or] at h
    rw [List.cons_append, splitFirst, if_neg (Ne.symm h.1), ih h.2]
    rfl

theorem operatorLoop_none {eval : Evaluator} {op : Char} {combine : BitVec 32 → BitVec 32 → Option (BitVec 32)}
    {d : List Char} (h : op ∉ d) (failed : Bool) :
    operatorLoop eval op combine turns d failed = some (d, failed) := by
  rw [turns, operatorLoop, splitFirst_none h]

theorem operatorLoop_some {eval : Evaluator} {op : Char} {combine : BitVec 32 → BitVec 32 → Option (BitVec 32)}
    {left right : List Char} {x y val : BitVec 32} {failed : Bool} (hleft : op ∉ left)
    (hx : eval left failed = some (x, failed)) (hy : eval right failed = some (y, failed))
    (hval : combine x y = some val) (hprint : op ∉ print val) :
    operatorLoop eval op combine turns (left ++ op :: right) failed = some (print val, failed) := by
  rw [turns, operatorLoop, splitFirst_append hleft]
  simp only [hx, hy, hval, Option.bind_eq_bind, Option.bind_some]
  rw [operatorLoop, splitFirst_none hprint]

theorem not_mem_print {op : Char} (hop : op ∈ marks) (hne : op ≠ '-') (val : BitVec 32) : op ∉ print val := by
  obtain ⟨-, hdigits, -⟩ := printedDigits_spec val
  rw [print_eq, List.mem_append, not_or]
  refine ⟨?_, fun hmem => not_mem_marks_of_digit (hdigits op hmem) hop⟩
  split_ifs
  · rwa [List.mem_singleton]
  · exact List.not_mem_nil

theorem minus_not_mem_print {val : BitVec 32} (h : val.msb = false) : '-' ∉ print val := by
  obtain ⟨-, hdigits, -⟩ := printedDigits_spec val
  rw [print_eq, h]
  exact fun hmem => not_mem_marks_of_digit (hdigits '-' hmem) (by decide)

theorem showError_false (a : DSPAssembler) (failed : Bool) : a.showError false failed = failed :=
  Bool.or_false failed

/-- The bitwise operators, which expressions of the four others do not contain, and the value. -/
theorem evaluateMarked_value {eval : Evaluator} {d : List Char} {val : BitVec 32}
    (hops : ∀ op ∈ ['+', '-', '*', '/', '|', '&'], op ∉ d) (hvalue : a.parseValue d = (val, false))
    (failed : Bool) : a.evaluateMarked eval d failed = some (val, failed) := by
  simp only [evaluateMarked, operatorLoop_none (hops '+' (by decide)), operatorLoop_none (hops '-' (by decide)),
    operatorLoop_none (hops '*' (by decide)), operatorLoop_none (hops '/' (by decide)),
    operatorLoop_none (hops '|' (by decide)), operatorLoop_none (hops '&' (by decide)), hvalue, showError_false,
    Option.bind_eq_bind, Option.bind_some]

section

variable {eval : Evaluator} {left right : List Char} {x y : BitVec 32} {failed : Bool}
  (hx : eval left failed = some (x, failed)) (hy : eval right failed = some (y, failed))

include hx hy

theorem evaluateMarked_add (hleft : '+' ∉ left) (hval : (x + y).msb = false) :
    a.evaluateMarked eval (left ++ '+' :: right) failed = some (x + y, failed) := by
  have hprint : ∀ op ∈ marks, op ≠ '-' → op ∉ print (x + y) := fun op hop hne => not_mem_print hop hne _
  simp only [evaluateMarked,
    @operatorLoop_some eval '+' (fun x y => some (x + y)) left right x y (x + y) failed hleft hx hy rfl
      (hprint '+' (by decide) (by decide)),
    operatorLoop_none (minus_not_mem_print hval), operatorLoop_none (hprint '*' (by decide) (by decide)),
    operatorLoop_none (hprint '/' (by decide) (by decide)), operatorLoop_none (hprint '|' (by decide) (by decide)),
    operatorLoop_none (hprint '&' (by decide) (by decide)), parseValue_print, showError_false,
    Option.bind_eq_bind, Option.bind_some]

theorem evaluateMarked_sub (hadd : '+' ∉ left ++ '-' :: right) (hleft : '-' ∉ left) (hval : (x - y).msb = false) :
    a.evaluateMarked eval (left ++ '-' :: right) failed = some (x - y, failed) := by
  have hprint : ∀ op ∈ marks, op ≠ '-' → op ∉ print (x - y) := fun op hop hne => not_mem_print hop hne _
  have hdifference : difference x y = x - y := by
    rw [difference, hval]
    exact if_neg Bool.false_ne_true
  simp only [evaluateMarked, operatorLoop_none hadd,
    @operatorLoop_some eval '-' (fun x y => some (difference x y)) left right x y (x - y) failed hleft hx hy
      (congrArg some hdifference) (minus_not_mem_print hval),
    operatorLoop_none (hprint '*' (by decide) (by decide)), operatorLoop_none (hprint '/' (by decide) (by decide)),
    operatorLoop_none (hprint '|' (by decide) (by decide)), operatorLoop_none (hprint '&' (by decide) (by decide)),
    parseValue_print, showError_false, Option.bind_eq_bind, Option.bind_some]

theorem evaluateMarked_mul (hadd : '+' ∉ left ++ '*' :: right) (hsub : '-' ∉ left ++ '*' :: right)
    (hleft : '*' ∉ left) : a.evaluateMarked eval (left ++ '*' :: right) failed = some (x * y, failed) := by
  have hprint : ∀ op ∈ marks, op ≠ '-' → op ∉ print (x * y) := fun op hop hne => not_mem_print hop hne _
  simp only [evaluateMarked, operatorLoop_none hadd, operatorLoop_none hsub,
    @operatorLoop_some eval '*' (fun x y => some (x * y)) left right x y (x * y) failed hleft hx hy rfl
      (hprint '*' (by decide) (by decide)),
    operatorLoop_none (hprint '/' (by decide) (by decide)), operatorLoop_none (hprint '|' (by decide) (by decide)),
    operatorLoop_none (hprint '&' (by decide) (by decide)), parseValue_print, showError_false,
    Option.bind_eq_bind, Option.bind_some]

theorem evaluateMarked_div (hadd : '+' ∉ left ++ '/' :: right) (hsub : '-' ∉ left ++ '/' :: right)
    (hmul : '*' ∉ left ++ '/' :: right) (hleft : '/' ∉ left) (hzero : y ≠ 0) :
    a.evaluateMarked eval (left ++ '/' :: right) failed = some (x / y, failed) := by
  have hprint : ∀ op ∈ marks, op ≠ '-' → op ∉ print (x / y) := fun op hop hne => not_mem_print hop hne _
  simp only [evaluateMarked, operatorLoop_none hadd, operatorLoop_none hsub, operatorLoop_none hmul,
    @operatorLoop_some eval '/' quotient left right x y (x / y) failed hleft hx hy (if_neg hzero)
      (hprint '/' (by decide) (by decide)),
    operatorLoop_none (hprint '|' (by decide) (by decide)), operatorLoop_none (hprint '&' (by decide) (by decide)),
    parseValue_print, showError_false, Option.bind_eq_bind, Option.bind_some]

end

theorem parseExpression_of_not_mem {fuel : ℕ} {s : List Char} (hopen : '(' ∉ s) (hclose : ')' ∉ s) (hspace : ' ' ∉ s)
    (hlength : s.length < bufferSize) (failed : Bool) : a.parseExpression (fuel + 1) s failed =
      a.evaluateMarked (a.parseExpression fuel) (markSigns true s) failed := by
  have hloop : a.bracketLoop (a.parseExpression fuel) (s.count '(' + 1) s failed = some (s, failed) := by
    rw [bracketLoop, findBrackets_of_not_mem hopen hclose]
    dsimp only
    rw [showError_false]
  have hfilter : (s.filter fun c => c ≠ ' ') = s := by
    rw [List.filter_eq_self]
    intro c hc
    refine decide_eq_true fun hspace' => hspace ?_
    rwa [hspace'] at hc
  rw [parseExpression, if_neg (by omega), hloop, Option.bind_eq_bind, Option.bind_some]
  dsimp only
  rw [hfilter]

/-! ## Texts without brackets -/

/-- A number or a label with its mark, and what it stands for. -/
structure Leaf (a : DSPAssembler) where
  sign : List Char
  body : List Char
  value : BitVec 32
  isSign : IsSign sign
  body_ne_nil : body ≠ []
  plain : ∀ c ∈ body, c ∉ marks
  parse : a.parseValue (sign ++ body) = (value, false)

namespace Leaf

def text (l : Leaf a) : List Char := l.sign ++ l.body

/-- With `#` for `-`. -/
def marked (l : Leaf a) : Leaf a where
  sign := if l.sign = ['-'] then ['#'] else l.sign
  body := l.body
  value := l.value
  isSign := by
    split_ifs
    · exact Or.inr (Or.inr rfl)
    · exact l.isSign
  body_ne_nil := l.body_ne_nil
  plain := l.plain
  parse := by
    split_ifs with hsign
    · rw [← l.parse, parseValue_sign (Or.inr (Or.inr rfl)) l.plain, parseValue_sign l.isSign l.plain, hsign]
      rfl
    · exact l.parse

theorem not_mem_text (l : Leaf a) {c : Char} (hc : c ∈ marks) (hminus : c ≠ '-') (hhash : c ≠ '#') :
    c ∉ l.text := by
  rw [text, List.mem_append, not_or]
  refine ⟨?_, fun hbody => l.plain c hbody hc⟩
  obtain hsign | hsign | hsign := l.isSign
  · rw [hsign]
    exact List.not_mem_nil
  · rwa [hsign, List.mem_singleton]
  · rwa [hsign, List.mem_singleton]

theorem text_marked (l : Leaf a) : l.marked.text = (if l.sign = ['-'] then ['#'] else l.sign) ++ l.body := rfl

theorem minus_not_mem_marked (l : Leaf a) : '-' ∉ l.marked.text := by
  rw [text_marked, List.mem_append, not_or]
  refine ⟨?_, fun hbody => l.plain '-' hbody (by decide)⟩
  obtain hsign | hsign | hsign := l.isSign <;> rw [hsign] <;> decide

end Leaf

theorem markSigns_plain {s : List Char} (hne : s ≠ []) (h : ∀ c ∈ s, c ∉ marks) (sign : Bool) (rest : List Char) :
    markSigns sign (s ++ rest) = s ++ markSigns false rest := by
  induction s generalizing sign with
  | nil => exact absurd rfl hne
  | cons c s ih =>
    have hc := h c List.mem_cons_self
    have hmark : ∀ m ∈ marks, c ≠ m := fun m hm heq => hc (heq ▸ hm)
    have hminus : ¬(c = '-' ∧ sign = true) := fun hc => hmark '-' (by decide) hc.1
    have hsign : decide (c = '/' ∨ c = '%' ∨ c = '*') = false := by
      refine decide_eq_false ?_
      rintro (hc | hc | hc)
      · exact hmark '/' (by decide) hc
      · exact hmark '%' (by decide) hc
      · exact hmark '*' (by decide) hc
    rw [List.cons_append, markSigns, if_neg hminus, hsign]
    cases s with
    | nil => rfl
    | cons c' s =>
      exact congrArg (List.cons c) (ih (List.cons_ne_nil c' s) (fun d hd => h d (List.mem_cons_of_mem c hd)) false)

theorem markSigns_leaf_true (l : Leaf a) (rest : List Char) :
    markSigns true (l.text ++ rest) = l.marked.text ++ markSigns false rest := by
  rw [Leaf.text_marked, Leaf.text]
  obtain hsign | hsign | hsign := l.isSign
  · rw [hsign]
    exact markSigns_plain l.body_ne_nil l.plain true rest
  · rw [hsign]
    exact congrArg _ (markSigns_plain l.body_ne_nil l.plain false rest)
  · rw [hsign]
    exact congrArg _ (markSigns_plain l.body_ne_nil l.plain false rest)

theorem markSigns_leaf_false (l : Leaf a) (rest : List Char) :
    markSigns false (l.text ++ rest) = l.text ++ markSigns false rest := by
  rw [Leaf.text]
  obtain hsign | hsign | hsign := l.isSign
  · rw [hsign]
    exact markSigns_plain l.body_ne_nil l.plain false rest
  · rw [hsign]
    exact congrArg _ (markSigns_plain l.body_ne_nil l.plain false rest)
  · rw [hsign]
    exact congrArg _ (markSigns_plain l.body_ne_nil l.plain false rest)

/-- Behind the first factor, all have their marks. -/
def Product.marked (p : Product (Leaf a)) : Product (Leaf a) where
  first := p.first
  rest := p.rest.map fun x => (x.1, x.2.marked)

def Terms.marked (e : Terms (Leaf a)) : Terms (Leaf a) where
  first := { e.first.marked with first := e.first.first.marked }
  rest := e.rest.map fun x => (x.1, x.2.marked)

theorem markSigns_factors (ops : List (MulOp × Leaf a)) (rest : List Char) :
    markSigns false ((ops.flatMap fun x => x.1.char :: x.2.text) ++ rest) =
      ((ops.map fun x => (x.1, x.2.marked)).flatMap fun x => x.1.char :: x.2.text) ++ markSigns false rest := by
  induction ops with
  | nil => rfl
  | cons x ops ih =>
    obtain ⟨op, l⟩ := x
    have hop : ∀ s, markSigns false (op.char :: s) = op.char :: markSigns true s := by
      intro s
      cases op <;> rfl
    rw [List.flatMap_cons, List.map_cons, List.flatMap_cons]
    simp only [List.cons_append, List.append_assoc]
    rw [hop, markSigns_leaf_true, ih]

theorem markSigns_product (p : Product (Leaf a)) (rest : List Char) :
    markSigns false (p.text Leaf.text ++ rest) = p.marked.text Leaf.text ++ markSigns false rest := by
  rw [Product.text, Product.text, Product.marked, List.append_assoc, List.append_assoc, markSigns_leaf_false,
    markSigns_factors]

/-- **The marks of a text.** -/
theorem markSigns_terms (e : Terms (Leaf a)) : markSigns true (e.text Leaf.text) = e.marked.text Leaf.text := by
  obtain ⟨⟨first, ops⟩, rest⟩ := e
  have hrest : markSigns false (rest.flatMap fun x => x.1.char :: x.2.text Leaf.text) =
      (rest.map fun x => (x.1, x.2.marked)).flatMap fun x => x.1.char :: x.2.text Leaf.text := by
    induction rest with
    | nil => rfl
    | cons x rest ih =>
      obtain ⟨op, p⟩ := x
      have hop : ∀ s, markSigns false (op.char :: s) = op.char :: markSigns false s := by
        intro s
        cases op <;> rfl
      rw [List.flatMap_cons, List.map_cons, List.flatMap_cons]
      simp only [List.cons_append]
      rw [hop, markSigns_product, ih]
  rw [Terms.text, Terms.text, Product.text, Product.text, Terms.marked, Product.marked, List.append_assoc,
    List.append_assoc, markSigns_leaf_true, markSigns_factors, hrest]

theorem length_markSigns (sign : Bool) (s : List Char) : (markSigns sign s).length = s.length := by
  induction s generalizing sign with
  | nil => rfl
  | cons c s ih => rw [markSigns, List.length_cons, ih, List.length_cons]

theorem value_marked (p : Product (Leaf a)) : p.marked.value Leaf.value = p.value Leaf.value := by
  rw [Product.value, Product.value, Product.marked, List.foldl_map]
  rfl

/-! ## What is evaluated as usual -/

/-- The value of terms, one after another. -/
def sumOf (t : BitVec 32) (rest : List (AddOp × BitVec 32)) : BitVec 32 :=
  rest.foldl (fun y x => x.1.apply y x.2) t

/-- Each sum that is formed from the right, and each difference, is less than `2 ^ 31`, and no `-` follows
another one. -/
def SumsFit : BitVec 32 → List (AddOp × BitVec 32) → Prop
  | _, [] => True
  | t, (.add, t') :: rest => (sumOf t ((.add, t') :: rest)).msb = false ∧ SumsFit t' rest
  | t, [(.sub, t')] => (t - t').msb = false
  | t, (.sub, t') :: (.add, t'') :: rest =>
    (t - t').msb = false ∧ (sumOf t ((.sub, t') :: (.add, t'') :: rest)).msb = false ∧ SumsFit t'' rest
  | _, (.sub, _) :: (.sub, _) :: _ => False

instance decidableSumsFit : (t : BitVec 32) → (rest : List (AddOp × BitVec 32)) → Decidable (SumsFit t rest)
  | _, [] => isTrue trivial
  | t, (.add, t') :: rest =>
    have := decidableSumsFit t' rest
    inferInstanceAs (Decidable ((sumOf t ((.add, t') :: rest)).msb = false ∧ SumsFit t' rest))
  | t, [(.sub, t')] => inferInstanceAs (Decidable ((t - t').msb = false))
  | t, (.sub, t') :: (.add, t'') :: rest =>
    have := decidableSumsFit t'' rest
    inferInstanceAs (Decidable ((t - t').msb = false ∧
      (sumOf t ((.sub, t') :: (.add, t'') :: rest)).msb = false ∧ SumsFit t'' rest))
  | _, (.sub, _) :: (.sub, _) :: _ => isFalse id

/-- No `/` follows another operator of the product. -/
def Product.DividesFirst {α : Type} (p : Product α) : Prop := ∀ x ∈ p.rest.tail, x.1 = .mul

def Product.DivisorsNonzero {α : Type} (v : α → BitVec 32) (p : Product α) : Prop :=
  ∀ x ∈ p.rest, x.1 = .div → v x.2 ≠ 0

def Terms.Regular {α : Type} (v : α → BitVec 32) (e : Terms α) : Prop :=
  (∀ p ∈ e.products, p.DividesFirst) ∧ SumsFit (e.first.value v) (e.rest.map fun x => (x.1, x.2.value v))

def Terms.DivisorsNonzero {α : Type} (v : α → BitVec 32) (e : Terms α) : Prop :=
  ∀ p ∈ e.products, p.DivisorsNonzero v

instance {α : Type} (p : Product α) : Decidable p.DividesFirst :=
  inferInstanceAs (Decidable (∀ x ∈ p.rest.tail, x.1 = .mul))

instance {α : Type} (v : α → BitVec 32) (p : Product α) : Decidable (p.DivisorsNonzero v) :=
  inferInstanceAs (Decidable (∀ x ∈ p.rest, x.1 = .div → v x.2 ≠ 0))

instance {α : Type} (v : α → BitVec 32) (e : Terms α) : Decidable (e.Regular v) :=
  inferInstanceAs (Decidable (_ ∧ _))

instance {α : Type} (v : α → BitVec 32) (e : Terms α) : Decidable (e.DivisorsNonzero v) :=
  inferInstanceAs (Decidable (∀ p ∈ e.products, p.DivisorsNonzero v))

theorem value_eq_sumOf {α : Type} (v : α → BitVec 32) (e : Terms α) :
    e.value v = sumOf (e.first.value v) (e.rest.map fun x => (x.1, x.2.value v)) := by
  rw [sumOf, List.foldl_map]
  rfl

theorem sumOf_add (t t' : BitVec 32) (rest : List (AddOp × BitVec 32)) :
    sumOf (t + t') rest = t + sumOf t' rest := by
  induction rest generalizing t' with
  | nil => rfl
  | cons x rest ih =>
    obtain ⟨op, u⟩ := x
    cases op with
    | add =>
      have hassoc : t + t' + u = t + (t' + u) := BitVec.add_assoc t t' u
      change sumOf (t + t' + u) rest = t + sumOf (t' + u) rest
      rw [hassoc, ih]
    | sub =>
      have hassoc : t + t' - u = t + (t' - u) := by
        rw [BitVec.sub_eq_add_neg, BitVec.sub_eq_add_neg, BitVec.add_assoc]
      change sumOf (t + t' - u) rest = t + sumOf (t' - u) rest
      rw [hassoc, ih]

theorem foldl_mul {α : Type} (v : α → BitVec 32) {ops : List (MulOp × α)} (h : ∀ x ∈ ops, x.1 = .mul)
    (x y : BitVec 32) : ops.foldl (fun y x => x.1.apply y (v x.2)) (x * y) =
      x * ops.foldl (fun y x => x.1.apply y (v x.2)) y := by
  induction ops generalizing y with
  | nil => rfl
  | cons u ops ih =>
    have hu := h u List.mem_cons_self
    rw [List.foldl_cons, List.foldl_cons, hu]
    have hassoc : MulOp.mul.apply (x * y) (v u.2) = x * MulOp.mul.apply y (v u.2) := BitVec.mul_assoc x y (v u.2)
    rw [hassoc]
    exact ih (fun w hw => h w (List.mem_cons_of_mem u hw)) _

/-! ## Evaluating texts without brackets -/

/-- A mark that is no operator of a product is not in its text. -/
theorem not_mem_product {p : Product (Leaf a)} {c : Char} (hc : c ∈ marks) (hminus : c ≠ '-') (hhash : c ≠ '#')
    (hmul : ∀ x ∈ p.rest, c ≠ x.1.char) : c ∉ p.text Leaf.text := by
  rw [Product.text, List.mem_append, not_or, List.mem_flatMap]
  refine ⟨p.first.not_mem_text hc hminus hhash, ?_⟩
  rintro ⟨x, hx, hmem⟩
  obtain hop | htext := List.mem_cons.mp hmem
  · exact hmul x hx hop
  · exact x.2.not_mem_text hc hminus hhash htext

theorem plus_not_mem {e : Terms (Leaf a)} (h : ∀ x ∈ e.rest, x.1 = .sub) : '+' ∉ e.text Leaf.text := by
  have hproduct : ∀ p : Product (Leaf a), '+' ∉ p.text Leaf.text := fun p =>
    not_mem_product (by decide) (by decide) (by decide) fun x _ => by cases x.1 <;> decide
  rw [Terms.text, List.mem_append, not_or, List.mem_flatMap]
  refine ⟨hproduct e.first, ?_⟩
  rintro ⟨x, hx, hmem⟩
  obtain hop | htext := List.mem_cons.mp hmem
  · rw [h x hx] at hop
    revert hop
    decide
  · exact hproduct x.2 htext

/-- With a mark for each factor. -/
def Product.allMarked (p : Product (Leaf a)) : Product (Leaf a) := { p.marked with first := p.first.marked }

/-- The terms behind others. -/
def Terms.restMarked (e : Terms (Leaf a)) : Terms (Leaf a) where
  first := e.first.marked
  rest := e.rest.map fun x => (x.1, x.2.marked)

theorem value_allMarked (p : Product (Leaf a)) : p.allMarked.value Leaf.value = p.value Leaf.value :=
  value_marked p

theorem minus_not_mem_allMarked (p : Product (Leaf a)) : '-' ∉ p.allMarked.text Leaf.text := by
  rw [Product.text, List.mem_append, not_or, List.mem_flatMap]
  refine ⟨p.first.minus_not_mem_marked, ?_⟩
  rintro ⟨x, hx, hmem⟩
  obtain ⟨y, hy, rfl⟩ := List.mem_map.mp hx
  obtain hop | htext := List.mem_cons.mp hmem
  · revert hop
    cases y.1 <;> decide
  · exact y.2.minus_not_mem_marked htext

/-- A product is cut at an operator. -/
theorem text_allMarked (first x : Leaf a) (before rest : List (MulOp × Leaf a)) (op : MulOp) :
    (Product.mk first (before ++ (op, x) :: rest)).allMarked.text Leaf.text =
      (Product.mk first before).allMarked.text Leaf.text ++
        op.char :: (Product.mk x rest).allMarked.text Leaf.text := by
  simp only [Product.text, Product.allMarked, Product.marked, List.map_append, List.map_cons, List.flatMap_append,
    List.flatMap_cons, List.append_assoc, List.cons_append]

theorem text_marked (first q : Product (Leaf a)) (before rest : List (AddOp × Product (Leaf a))) (op : AddOp) :
    (Terms.mk first (before ++ (op, q) :: rest)).marked.text Leaf.text =
      (Terms.mk first before).marked.text Leaf.text ++ op.char :: (Terms.mk q rest).restMarked.text Leaf.text := by
  simp only [Terms.text, Terms.marked, Terms.restMarked, List.map_append, List.map_cons, List.flatMap_append,
    List.flatMap_cons, List.append_assoc, List.cons_append]

/-- Texts are evaluated with a fuel. -/
def Evaluates (fuel : ℕ) (e : Terms (Leaf a)) : Prop :=
  ∀ failed, a.parseExpression fuel (e.text Leaf.text) failed = some (e.value Leaf.value, failed)

/-- **A product**, from the shorter ones that it is cut into. -/
theorem evaluateMarked_product {fuel : ℕ} {failed : Bool} {p : Product (Leaf a)} (hfirst : p.DividesFirst)
    (hzero : p.DivisorsNonzero Leaf.value)
    (ih : ∀ q : Product (Leaf a), (q.allMarked.text Leaf.text).length < (p.allMarked.text Leaf.text).length →
      q.DividesFirst → q.DivisorsNonzero Leaf.value →
      a.parseExpression fuel (q.allMarked.text Leaf.text) failed = some (q.value Leaf.value, failed)) :
    a.evaluateMarked (a.parseExpression fuel) (p.allMarked.text Leaf.text) failed =
      some (p.value Leaf.value, failed) := by
  have hplus : ∀ q : Product (Leaf a), '+' ∉ q.text Leaf.text := fun q =>
    not_mem_product (by decide) (by decide) (by decide) fun x _ => by cases x.1 <;> decide
  -- the two sides of a cut
  have hcut : ∀ (first x : Leaf a) (before rest : List (MulOp × Leaf a)) (op : MulOp),
      p = ⟨first, before ++ (op, x) :: rest⟩ → (Product.mk first before).DividesFirst →
      (∀ y ∈ rest, y.1 = .mul) →
      a.parseExpression fuel ((Product.mk first before).allMarked.text Leaf.text) failed =
          some ((Product.mk first before).value Leaf.value, failed) ∧
        a.parseExpression fuel ((Product.mk x rest).allMarked.text Leaf.text) failed =
          some ((Product.mk x rest).value Leaf.value, failed) := by
    intro first x before rest op hp hbefore hrest
    have hlength := congrArg List.length (text_allMarked first x before rest op)
    rw [← hp, List.length_append, List.length_cons] at hlength
    exact ⟨ih ⟨first, before⟩ (by omega) hbefore fun y hy =>
        hzero y (by rw [hp]; exact List.mem_append_left _ hy),
      ih ⟨x, rest⟩ (by omega) (fun y hy => hrest y (List.mem_of_mem_tail hy)) fun y hy =>
        hzero y (by rw [hp]; exact List.mem_append_right _ (List.mem_cons_of_mem _ hy))⟩
  obtain ⟨first, ops⟩ := p
  match ops, hfirst, hzero, hcut with
  | [], _, _, _ =>
    have htext : (Product.mk first []).allMarked.text Leaf.text = first.marked.text := List.append_nil _
    rw [htext]
    refine evaluateMarked_value (fun op hop => ?_) first.marked.parse failed
    by_cases hminus : op = '-'
    · rw [hminus]
      exact first.minus_not_mem_marked
    · have hmarks : ['+', '-', '*', '/', '|', '&'].all (fun op => op ∈ marks ∧ op ≠ '#') = true := by decide
      obtain ⟨hmark, hhash⟩ := of_decide_eq_true (List.all_eq_true.mp hmarks op hop)
      exact first.marked.not_mem_text hmark hminus hhash
  | (.mul, x) :: rest, hfirst, _, hcut =>
    obtain ⟨hleft, hright⟩ := hcut first x [] rest .mul rfl (fun y hy => by cases hy) hfirst
    have htext := text_allMarked first x [] rest .mul
    rw [List.nil_append] at htext
    rw [htext]
    have hvalue : (Product.mk first ((.mul, x) :: rest)).value Leaf.value =
        (Product.mk first []).value Leaf.value * (Product.mk x rest).value Leaf.value :=
      foldl_mul Leaf.value hfirst first.value x.value
    rw [hvalue]
    refine evaluateMarked_mul hleft hright ?_ ?_ ?_
    · exact htext ▸ hplus _
    · exact htext ▸ minus_not_mem_allMarked _
    · exact not_mem_product (by decide) (by decide) (by decide) fun y hy => by cases hy
  | [(.div, x)], _, hzero, hcut =>
    obtain ⟨hleft, hright⟩ := hcut first x [] [] .div rfl (fun y hy => by cases hy) fun y hy => by cases hy
    have htext := text_allMarked first x [] [] .div
    rw [List.nil_append] at htext
    rw [htext]
    refine evaluateMarked_div hleft hright ?_ ?_ ?_ ?_ (hzero (.div, x) List.mem_cons_self rfl)
    · exact htext ▸ hplus _
    · exact htext ▸ minus_not_mem_allMarked _
    · rw [← MulOp.char.eq_2, ← htext]
      refine not_mem_product (by decide) (by decide) (by decide) fun y hy => ?_
      rw [List.mem_singleton.mp hy]
      exact (by decide : '*' ≠ '/')
    · exact not_mem_product (by decide) (by decide) (by decide) fun y hy => by cases hy
  | (.div, x) :: (.mul, y) :: rest, hfirst, _, hcut =>
    have hrest : ∀ z ∈ rest, z.1 = .mul := fun z hz => hfirst z (List.mem_cons_of_mem _ hz)
    obtain ⟨hleft, hright⟩ := hcut first y [(.div, x)] rest .mul rfl (fun z hz => by cases hz) hrest
    have htext := text_allMarked first y [(.div, x)] rest .mul
    rw [List.singleton_append] at htext
    rw [htext]
    have hvalue : (Product.mk first ((.div, x) :: (.mul, y) :: rest)).value Leaf.value =
        (Product.mk first [(.div, x)]).value Leaf.value * (Product.mk y rest).value Leaf.value :=
      foldl_mul Leaf.value hrest (first.value / x.value) y.value
    rw [hvalue]
    refine evaluateMarked_mul hleft hright ?_ ?_ ?_
    · exact htext ▸ hplus _
    · exact htext ▸ minus_not_mem_allMarked _
    · refine not_mem_product (by decide) (by decide) (by decide) fun z hz => ?_
      rw [List.mem_singleton.mp hz]
      exact (by decide : '*' ≠ '/')
  | (.div, x) :: (.div, y) :: rest, hfirst, _, _ =>
    have hy := hfirst (.div, y) List.mem_cons_self
    cases hy

theorem map_marked (rest : List (AddOp × Product (Leaf a))) :
    ((rest.map fun x => (x.1, x.2.marked)).map fun x => (x.1, x.2.value Leaf.value)) =
      rest.map fun x => (x.1, x.2.value Leaf.value) := by
  rw [List.map_map]
  exact List.map_congr_left fun x _ => congrArg (Prod.mk x.1) (value_marked x.2)

theorem value_of_marked {e : Terms (Leaf a)} {p : Product (Leaf a)}
    (hp : p.value Leaf.value = e.first.value Leaf.value) :
    (Terms.mk p (e.rest.map fun x => (x.1, x.2.marked))).value Leaf.value = e.value Leaf.value := by
  rw [value_eq_sumOf, value_eq_sumOf]
  dsimp only
  rw [map_marked, hp]

theorem dividesFirst_marked {p : Product (Leaf a)} (h : p.DividesFirst) {first : Leaf a} :
    (Product.mk first (p.rest.map fun x => (x.1, x.2.marked))).DividesFirst := by
  intro x hx
  dsimp only at hx
  rw [← List.map_tail] at hx
  obtain ⟨y, hy, rfl⟩ := List.mem_map.mp hx
  exact h y hy

theorem divisorsNonzero_marked {p : Product (Leaf a)} (h : p.DivisorsNonzero Leaf.value) {first : Leaf a} :
    (Product.mk first (p.rest.map fun x => (x.1, x.2.marked))).DivisorsNonzero Leaf.value := by
  intro x hx hdiv
  obtain ⟨y, hy, rfl⟩ := List.mem_map.mp hx
  exact h y hy hdiv

/-- Terms whose factors have marks are as regular as without. -/
theorem regular_marked {e : Terms (Leaf a)} (hregular : e.Regular Leaf.value) (hzero : e.DivisorsNonzero Leaf.value)
    {first : Leaf a} (hfirst : first.value = e.first.first.value) :
    (Terms.mk ⟨first, e.first.marked.rest⟩ (e.rest.map fun x => (x.1, x.2.marked))).Regular Leaf.value ∧
      (Terms.mk ⟨first, e.first.marked.rest⟩ (e.rest.map fun x => (x.1, x.2.marked))).DivisorsNonzero
        Leaf.value := by
  have hvalue : (Product.mk first e.first.marked.rest).value Leaf.value = e.first.value Leaf.value := by
    rw [← value_marked e.first, Product.value, Product.value, hfirst]
    rfl
  refine ⟨⟨fun p hp => ?_, ?_⟩, fun p hp => ?_⟩
  · obtain rfl | hp := List.mem_cons.mp hp
    · exact dividesFirst_marked (hregular.1 e.first List.mem_cons_self)
    · obtain ⟨x, hx, rfl⟩ := List.mem_map.mp hp
      obtain ⟨y, hy, rfl⟩ := List.mem_map.mp hx
      exact dividesFirst_marked (hregular.1 y.2 (List.mem_cons_of_mem _ (List.mem_map_of_mem hy)))
  · dsimp only
    rw [map_marked, hvalue]
    exact hregular.2
  · obtain rfl | hp := List.mem_cons.mp hp
    · exact divisorsNonzero_marked (hzero e.first List.mem_cons_self)
    · obtain ⟨x, hx, rfl⟩ := List.mem_map.mp hp
      obtain ⟨y, hy, rfl⟩ := List.mem_map.mp hx
      exact divisorsNonzero_marked (hzero y.2 (List.mem_cons_of_mem _ (List.mem_map_of_mem hy)))

/-- The rest of a sum behind a `+`, on its own. -/
theorem value_add (first q : Product (Leaf a)) (before rest : List (AddOp × Product (Leaf a))) :
    (Terms.mk first (before ++ (.add, q) :: rest)).value Leaf.value =
      (Terms.mk first before).value Leaf.value + (Terms.mk q rest).value Leaf.value := by
  rw [value_eq_sumOf, value_eq_sumOf, value_eq_sumOf, ← sumOf_add]
  dsimp only
  rw [sumOf, sumOf, sumOf, List.map_append, List.foldl_append]
  rfl

/-- Texts of numbers, labels and operators have no brackets and no spaces. -/
theorem not_mem_terms (e : Terms (Leaf a)) {c : Char} (hc : c ∈ ['(', ')', ' ']) : c ∉ e.text Leaf.text := by
  have hmarks : ∀ c ∈ ['(', ')', ' '], c ∈ marks ∧ c ≠ '-' ∧ c ≠ '#' ∧ (∀ op : MulOp, c ≠ op.char) ∧
      ∀ op : AddOp, c ≠ op.char := by
    intro c hc
    rw [List.mem_cons, List.mem_cons, List.mem_singleton] at hc
    obtain rfl | rfl | rfl := hc <;>
      exact ⟨by decide, by decide, by decide, fun op => by cases op <;> decide, fun op => by cases op <;> decide⟩
  obtain ⟨hmark, hminus, hhash, hmul, hadd⟩ := hmarks c hc
  exact Terms.not_mem_text hmul hadd fun l _ => l.not_mem_text hmark hminus hhash

theorem parseExpression_terms {fuel : ℕ} (e : Terms (Leaf a)) (hlength : (e.text Leaf.text).length < bufferSize)
    (failed : Bool) : a.parseExpression (fuel + 1) (e.text Leaf.text) failed =
      a.evaluateMarked (a.parseExpression fuel) (markSigns true (e.text Leaf.text)) failed :=
  parseExpression_of_not_mem (not_mem_terms e (by decide)) (not_mem_terms e (by decide))
    (not_mem_terms e (by decide)) hlength failed

/-- **A text without brackets is evaluated as usual.** -/
theorem evaluates_terms {fuel : ℕ} {e : Terms (Leaf a)} (hfuel : (e.text Leaf.text).length < fuel)
    (hlength : (e.text Leaf.text).length < bufferSize) (hregular : e.Regular Leaf.value)
    (hzero : e.DivisorsNonzero Leaf.value) : Evaluates fuel e := by
  induction fuel generalizing e with
  | zero => exact absurd hfuel (Nat.not_lt_zero _)
  | succ fuel ih =>
    intro failed
    rw [parseExpression_terms e hlength]
    have hsame := congrArg List.length (markSigns_terms e)
    rw [length_markSigns] at hsame
    rw [markSigns_terms]
    -- the two sides of a cut
    have hleft : ∀ e' : Terms (Leaf a), (e'.marked.text Leaf.text).length < (e.marked.text Leaf.text).length →
        e'.Regular Leaf.value → e'.DivisorsNonzero Leaf.value →
        a.parseExpression fuel (e'.marked.text Leaf.text) failed = some (e'.value Leaf.value, failed) := by
      intro e' hlt hregular' hzero'
      obtain ⟨hregular', hzero'⟩ := @regular_marked _ e' hregular' hzero' e'.first.first.marked rfl
      have hnext := @ih e'.marked (by omega) (by omega) hregular' hzero' failed
      exact hnext.trans (congrArg (fun v => some (v, failed)) (value_of_marked (value_allMarked e'.first)))
    have hright : ∀ e' : Terms (Leaf a), (e'.restMarked.text Leaf.text).length < (e.marked.text Leaf.text).length →
        e'.Regular Leaf.value → e'.DivisorsNonzero Leaf.value →
        a.parseExpression fuel (e'.restMarked.text Leaf.text) failed = some (e'.value Leaf.value, failed) := by
      intro e' hlt hregular' hzero'
      obtain ⟨hregular', hzero'⟩ := @regular_marked _ e' hregular' hzero' e'.first.first rfl
      have hnext := @ih e'.restMarked (by omega) (by omega) hregular' hzero' failed
      exact hnext.trans (congrArg (fun v => some (v, failed)) (value_of_marked (value_marked e'.first)))
    have hcut : ∀ (first q : Product (Leaf a)) (before rest : List (AddOp × Product (Leaf a))) (op : AddOp),
        e = ⟨first, before ++ (op, q) :: rest⟩ →
        SumsFit (first.value Leaf.value) (before.map fun x => (x.1, x.2.value Leaf.value)) →
        SumsFit (q.value Leaf.value) (rest.map fun x => (x.1, x.2.value Leaf.value)) →
        a.parseExpression fuel ((Terms.mk first before).marked.text Leaf.text) failed =
            some ((Terms.mk first before).value Leaf.value, failed) ∧
          a.parseExpression fuel ((Terms.mk q rest).restMarked.text Leaf.text) failed =
            some ((Terms.mk q rest).value Leaf.value, failed) := by
      intro first q before rest op he hbefore hrest
      have htext := congrArg List.length (text_marked first q before rest op)
      rw [← he, List.length_append, List.length_cons] at htext
      have hproducts : ∀ p, p ∈ (Terms.mk first before).products ∨ p ∈ (Terms.mk q rest).products →
          p ∈ e.products := by
        rintro p hp
        rw [he]
        simp only [Terms.products, List.map_append, List.map_cons, List.mem_cons, List.mem_append] at hp ⊢
        tauto
      exact ⟨hleft ⟨first, before⟩ (by omega) ⟨fun p hp => hregular.1 p (hproducts p (Or.inl hp)), hbefore⟩
          fun p hp => hzero p (hproducts p (Or.inl hp)),
        hright ⟨q, rest⟩ (by omega) ⟨fun p hp => hregular.1 p (hproducts p (Or.inr hp)), hrest⟩
          fun p hp => hzero p (hproducts p (Or.inr hp))⟩
    obtain ⟨first, rest⟩ := e
    match rest, hregular, hzero, hleft, hcut with
    | [], hregular, hzero, hleft, _ =>
      have htext : ∀ p : Product (Leaf a), (Terms.mk p []).marked.text Leaf.text = p.allMarked.text Leaf.text :=
        fun p => List.append_nil _
      rw [htext] at hleft ⊢
      refine evaluateMarked_product (hregular.1 first List.mem_cons_self) (hzero first List.mem_cons_self) ?_
      intro q hlt hfirst hzero'
      have hq := hleft ⟨q, []⟩ (by rwa [htext])
        ⟨fun p hp => by rw [List.mem_singleton.mp hp]; exact hfirst, trivial⟩
        fun p hp => by rw [List.mem_singleton.mp hp]; exact hzero'
      rwa [htext] at hq
    | (.add, q) :: rest, hregular, _, _, hcut =>
      obtain ⟨hsum, hfit⟩ := hregular.2
      obtain ⟨hx, hy⟩ := hcut first q [] rest .add rfl trivial hfit
      have htext := text_marked first q [] rest .add
      rw [List.nil_append] at htext
      have hvalue := value_add first q [] rest
      rw [List.nil_append] at hvalue
      have hmsb : ((Terms.mk first []).value Leaf.value + (Terms.mk q rest).value Leaf.value).msb = false := by
        rw [← hvalue, value_eq_sumOf]
        exact hsum
      rw [htext, hvalue]
      exact evaluateMarked_add hx hy (plus_not_mem fun x hx => by cases hx) hmsb
    | [(.sub, q)], hregular, _, _, hcut =>
      obtain ⟨hx, hy⟩ := hcut first q [] [] .sub rfl trivial trivial
      have htext := text_marked first q [] [] .sub
      rw [List.nil_append] at htext
      rw [htext]
      refine evaluateMarked_sub hx hy ?_ ?_ hregular.2
      · have hplus := @plus_not_mem _ (Terms.mk first [(.sub, q)]).marked fun x hx => by
          rw [List.mem_singleton.mp hx]
        rwa [htext] at hplus
      · have hfirst : (Terms.mk first []).marked.text Leaf.text = first.allMarked.text Leaf.text :=
          List.append_nil _
        rw [hfirst]
        exact minus_not_mem_allMarked first
    | (.sub, q) :: (.add, r) :: rest, hregular, _, _, hcut =>
      obtain ⟨hdifference, hsum, hfit⟩ := hregular.2
      obtain ⟨hx, hy⟩ := hcut first r [(.sub, q)] rest .add rfl hdifference hfit
      have htext := text_marked first r [(.sub, q)] rest .add
      rw [List.singleton_append] at htext
      have hvalue := value_add first r [(.sub, q)] rest
      rw [List.singleton_append] at hvalue
      have hmsb : ((Terms.mk first [(.sub, q)]).value Leaf.value +
          (Terms.mk r rest).value Leaf.value).msb = false := by
        rw [← hvalue, value_eq_sumOf]
        exact hsum
      rw [htext, hvalue]
      exact evaluateMarked_add hx hy (plus_not_mem fun x hx => by rw [List.mem_singleton.mp hx]) hmsb
    | (.sub, _) :: (.sub, _) :: _, hregular, _, _, _ => exact hregular.2.elim

end DSPAssembler
