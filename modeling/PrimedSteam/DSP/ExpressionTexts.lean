import PrimedSteam.DSP.AssemblerExpressions
import Mathlib.Data.List.Basic
import Mathlib.Tactic.IntervalCases

/-!
# Texts of expressions

Expressions are products of factors, and sums of products; factors are of any type.

* `parseValue_print`: a printed number is read as it was.
* `findBrackets_eq`: the first bracket of a text whose brackets are closed.
* `Terms`, `Terms.text`, `Terms.value`: expressions, with the usual precedence and from left to right.
* `Terms.text_induction`: what two texts of an expression inherit from those of its factors.
-/

set_option autoImplicit false

namespace DSPAssembler

variable {a : DSPAssembler}

/-! ## Numbers -/

/-- What digits stand for. -/
def numeral (base : ℕ) (digit : Char → Option ℕ) (text : List Char) : ℕ :=
  text.foldl (fun n c => n * base + (digit c).getD 0) 0

/-- The characters that an expression is cut at, or that change how it is read. -/
def marks : List Char := [' ', '(', ')', '+', '-', '*', '/', '%', '|', '&', '#']

theorem parseDigits_eq {base : ℕ} {digit : Char → Option ℕ} {text : List Char}
    (h : ∀ c ∈ text, (digit c).isSome) :
    parseDigits (BitVec.ofNat 32 base) digit text = (BitVec.ofNat 32 (numeral base digit text), false) := by
  have hfold : ∀ n, text.foldl (parseDigit (BitVec.ofNat 32 base) digit) (BitVec.ofNat 32 n, false) =
      (BitVec.ofNat 32 (text.foldl (fun n c => n * base + (digit c).getD 0) n), false) := by
    induction text with
    | nil => exact fun n => rfl
    | cons c text ih =>
      intro n
      obtain ⟨d, hd⟩ := Option.isSome_iff_exists.mp (h c List.mem_cons_self)
      have hstep : parseDigit (BitVec.ofNat 32 base) digit (BitVec.ofNat 32 n, false) c =
          (BitVec.ofNat 32 (n * base + d), false) := by
        rw [parseDigit, hd, BitVec.ofNat_add, BitVec.ofNat_mul]
      rw [List.foldl_cons, List.foldl_cons, hstep, hd, Option.getD_some]
      exact ih (fun c' hc' => h c' (List.mem_cons_of_mem c hc')) _
  exact hfold 0

theorem not_mem_marks_of_digit {c : Char} (h : (decimalDigit c).isSome) : c ∉ marks := by
  have hmarks : marks.all (fun c => decimalDigit c = none) = true := by decide
  intro hc
  rw [of_decide_eq_true (List.all_eq_true.mp hmarks c hc)] at h
  cases h

theorem parseUnsigned_digits {text : List Char} (hne : text ≠ []) (h : ∀ c ∈ text, (decimalDigit c).isSome)
    (negative : Bool) : a.parseUnsigned negative text =
      (if negative then -BitVec.ofNat 32 (numeral 10 decimalDigit text)
        else BitVec.ofNat 32 (numeral 10 decimalDigit text), false) := by
  have hdigits : parseDigits 10 decimalDigit text = _ := parseDigits_eq h
  cases text with
  | nil => exact absurd rfl hne
  | cons c rest =>
    have hnumber : (if c = '0' then parseZero rest
        else parseDigits 10 decimalDigit (c :: rest)) = parseDigits 10 decimalDigit (c :: rest) := by
      split_ifs with hc
      · rw [hc]
        cases rest with
        | nil => rfl
        | cons c' rest =>
          rw [parseZero, if_pos (h c' (List.mem_cons_of_mem c List.mem_cons_self))]
      · rfl
    rw [parseUnsigned]
    dsimp only
    rw [if_pos (h c List.mem_cons_self)]
    rw [← apply_ite (fun val : BitVec 32 × Bool => if negative = true then (-val.1, val.2) else val),
      hnumber, hdigits]
    cases negative <;> rfl

theorem digitChar_spec {d : ℕ} (h : d < 10) : decimalDigit (Nat.digitChar d) = some d := by
  interval_cases d <;> rfl

/-- **The digits of a number.** -/
theorem decimal_spec {k n : ℕ} (hk : 0 < k) (hn : n < 10 ^ k) :
    decimal k n ≠ [] ∧ (∀ c ∈ decimal k n, (decimalDigit c).isSome) ∧
      numeral 10 decimalDigit (decimal k n) = n ∧ (decimal k n).length ≤ k := by
  induction k generalizing n with
  | zero => exact absurd hk (Nat.lt_irrefl 0)
  | succ k ih =>
    rw [decimal]
    split_ifs with hlast
    · have hd := digitChar_spec hlast
      refine ⟨List.cons_ne_nil _ _, fun c hc => ?_, ?_, Nat.succ_le_succ (Nat.zero_le k)⟩
      · rw [List.mem_singleton.mp hc, hd]
        rfl
      · rw [numeral, List.foldl_cons, hd]
        exact Nat.zero_add n
    · have hk' : 0 < k := by
        by_contra hzero
        obtain rfl : k = 0 := by omega
        omega
      have hdiv : n / 10 < 10 ^ k := Nat.div_lt_of_lt_mul (by rwa [← Nat.pow_succ'])
      obtain ⟨-, hdigits, hnumeral, hlength⟩ := ih hk' hdiv
      have hd := digitChar_spec (Nat.mod_lt n (by norm_num : 0 < 10))
      refine ⟨List.append_ne_nil_of_right_ne_nil _ (List.cons_ne_nil _ _), fun c hc => ?_, ?_, ?_⟩
      · obtain hc | hc := List.mem_append.mp hc
        · exact hdigits c hc
        · rw [List.mem_singleton.mp hc, hd]
          rfl
      · rw [numeral] at hnumeral ⊢
        rw [List.foldl_append, hnumeral, List.foldl_cons, List.foldl_nil, hd, Option.getD_some]
        exact Nat.div_add_mod' n 10
      · rw [List.length_append, List.length_singleton]
        omega

/-- The digits that are printed for a number, behind its sign. -/
def printedDigits (val : BitVec 32) : List Char := decimal 10 (if val.msb then -val else val).toNat

theorem print_eq (val : BitVec 32) : print val = (if val.msb then ['-'] else []) ++ printedDigits val := by
  rw [print, printedDigits]
  split_ifs <;> rfl

theorem printedDigits_spec (val : BitVec 32) :
    printedDigits val ≠ [] ∧ (∀ c ∈ printedDigits val, (decimalDigit c).isSome) ∧
      numeral 10 decimalDigit (printedDigits val) = (if val.msb then -val else val).toNat ∧
      (printedDigits val).length ≤ 10 :=
  decimal_spec (by norm_num) ((if val.msb then -val else val).isLt.trans (by norm_num))

theorem dropSign_of_ne {c : Char} {text : List Char} (h : c ∉ text) : dropSign c text = (false, text) := by
  rw [dropSign, if_neg]
  intro hhead
  exact h (List.mem_of_mem_head? hhead)

/-- A mark of a negative number. -/
def IsSign (sign : List Char) : Prop := sign = [] ∨ sign = ['-'] ∨ sign = ['#']

theorem parseValue_sign {sign body : List Char} (hsign : IsSign sign) (hbody : ∀ c ∈ body, c ∉ marks) :
    a.parseValue (sign ++ body) = a.parseUnsigned (decide (sign ≠ [])) body := by
  have hhash : '#' ∉ body := fun hc => hbody _ hc (by decide)
  have hminus : '-' ∉ body := fun hc => hbody _ hc (by decide)
  have hdrop₁ := dropSign_of_ne hhash
  have hdrop₂ := dropSign_of_ne hminus
  rw [parseValue]
  obtain rfl | rfl | rfl := hsign
  · rw [List.nil_append, hdrop₁]
    dsimp only
    rw [hdrop₂]
    rfl
  · have hfirst : dropSign '#' (['-'] ++ body) = (false, '-' :: body) := rfl
    have hsecond : dropSign '-' ('-' :: body) = (true, body) := rfl
    rw [hfirst]
    dsimp only
    rw [hsecond]
    rfl
  · have hfirst : dropSign '#' (['#'] ++ body) = (true, body) := rfl
    rw [hfirst]
    dsimp only
    rw [hdrop₂]
    rfl

/-- **A printed number is read as it was.** -/
theorem parseValue_print (a : DSPAssembler) (val : BitVec 32) : a.parseValue (print val) = (val, false) := by
  obtain ⟨hne, hdigits, hnumeral, -⟩ := printedDigits_spec val
  rw [print_eq, parseValue_sign _ fun c hc => not_mem_marks_of_digit (hdigits c hc),
    parseUnsigned_digits hne hdigits, hnumeral, BitVec.ofNat_toNat, BitVec.setWidth_eq]
  · cases val.msb
    · rfl
    · simp
  · cases val.msb
    · exact Or.inl rfl
    · exact Or.inr (Or.inl rfl)

/-! ## Brackets -/

/-- How many brackets are open behind a text, unless one is closed that has not been opened. -/
def depthAfter : ℕ → List Char → Option ℕ
  | d, [] => some d
  | d, c :: rest =>
    if c = '(' then depthAfter (d + 1) rest
    else if c = ')' then
      if d = 0 then none else depthAfter (d - 1) rest
    else depthAfter d rest

/-- Each bracket is closed. -/
def Balanced (text : List Char) : Prop := ∀ d, depthAfter d text = some d

theorem depthAfter_append (d : ℕ) (s t : List Char) :
    depthAfter d (s ++ t) = (depthAfter d s).bind fun d => depthAfter d t := by
  induction s generalizing d with
  | nil => rfl
  | cons c s ih =>
    rw [List.cons_append, depthAfter, depthAfter]
    split_ifs
    · exact ih (d + 1)
    · rfl
    · exact ih (d - 1)
    · exact ih d

theorem Balanced.append {s t : List Char} (hs : Balanced s) (ht : Balanced t) : Balanced (s ++ t) := by
  intro d
  rw [depthAfter_append, hs, Option.bind_some, ht]

theorem Balanced.brackets {s : List Char} (hs : Balanced s) : Balanced ('(' :: (s ++ [')'])) := by
  intro d
  have hopen : depthAfter d ('(' :: (s ++ [')'])) = depthAfter (d + 1) (s ++ [')']) := rfl
  rw [hopen, depthAfter_append, hs, Option.bind_some]
  rfl

theorem balanced_of_not_mem {s : List Char} (hopen : '(' ∉ s) (hclose : ')' ∉ s) : Balanced s := by
  induction s with
  | nil => exact fun d => rfl
  | cons c s ih =>
    rw [List.mem_cons, not_or] at hopen hclose
    intro d
    rw [depthAfter, if_neg (Ne.symm hopen.1), if_neg (Ne.symm hclose.1)]
    exact ih hopen.2 hclose.2 d

theorem depthAfter_filter (d : ℕ) (s : List Char) :
    depthAfter d (s.filter fun c => c ≠ ' ') = depthAfter d s := by
  induction s generalizing d with
  | nil => rfl
  | cons c s ih =>
    by_cases hc : c = ' '
    · rw [hc]
      exact ih d
    · have hfilter : ((c :: s).filter fun c => c ≠ ' ') = c :: s.filter fun c => c ≠ ' ' :=
        List.filter_cons_of_pos (decide_eq_true hc)
      rw [hfilter, depthAfter, depthAfter]
      split_ifs
      · exact ih (d + 1)
      · rfl
      · exact ih (d - 1)
      · exact ih d

theorem findBracketsFrom_inside {s : List Char} {d d' : ℕ} (h : depthAfter d s = some d')
    (rest src dst : List Char) :
    findBracketsFrom (s ++ rest) src dst true (d + 1) = findBracketsFrom rest src (dst ++ s) true (d' + 1) := by
  induction s generalizing d dst with
  | nil =>
    cases h
    rw [List.nil_append, List.append_nil]
  | cons c s ih =>
    have hdst : dst ++ c :: s = (dst ++ [c]) ++ s := by rw [List.append_assoc]; rfl
    rw [depthAfter] at h
    rw [List.cons_append, findBracketsFrom, hdst]
    by_cases hopen : c = '('
    · rw [if_pos hopen] at h ⊢
      exact_mod_cast ih h (dst ++ [c])
    · by_cases hclose : c = ')'
      · rw [if_neg hopen, if_pos hclose] at h ⊢
        split_ifs at h with hd
        have hcount : (d : ℤ) + 1 - 1 = ((d - 1 : ℕ) : ℤ) + 1 := by omega
        rw [hcount, if_neg (by omega), if_pos rfl]
        exact ih h (dst ++ [c])
      · rw [if_neg hopen, if_neg hclose] at h ⊢
        exact ih h (dst ++ [c])

theorem findBracketsFrom_before {s : List Char} (hopen : '(' ∉ s) (hclose : ')' ∉ s) (rest src : List Char) :
    findBracketsFrom (s ++ rest) src [] false 0 = findBracketsFrom rest (src ++ s) [] false 0 := by
  induction s generalizing src with
  | nil => rw [List.nil_append, List.append_nil]
  | cons c s ih =>
    have hsrc : src ++ c :: s = (src ++ [c]) ++ s := by rw [List.append_assoc]; rfl
    rw [List.mem_cons, not_or] at hopen hclose
    rw [List.cons_append, findBracketsFrom, if_neg (Ne.symm hopen.1), if_neg (Ne.symm hclose.1),
      if_neg Bool.false_ne_true, hsrc]
    exact ih hopen.2 hclose.2 _

theorem findBrackets_of_not_mem {s : List Char} (hopen : '(' ∉ s) (hclose : ')' ∉ s) :
    findBrackets s = ⟨s, none, false⟩ := by
  have hbefore := findBracketsFrom_before hopen hclose [] []
  rw [List.append_nil, List.nil_append] at hbefore
  rw [findBrackets, hbefore]
  rfl

/-- **The first bracket of a text.** -/
theorem findBrackets_eq {s inside : List Char} (hopen : '(' ∉ s) (hclose : ')' ∉ s) (hinside : Balanced inside)
    (after : List Char) :
    findBrackets (s ++ '(' :: (inside ++ ')' :: after)) = ⟨s, some (inside, after), false⟩ := by
  rw [findBrackets, findBracketsFrom_before hopen hclose, List.nil_append]
  have hstart : findBracketsFrom ('(' :: (inside ++ ')' :: after)) s [] false 0 =
      findBracketsFrom (inside ++ ')' :: after) s [] true ((0 : ℕ) + 1) := rfl
  rw [hstart, findBracketsFrom_inside (hinside 0)]
  rfl

/-! ## Expressions -/

inductive AddOp
  | add
  | sub

inductive MulOp
  | mul
  | div
  deriving DecidableEq

namespace AddOp

def char : AddOp → Char
  | add => '+'
  | sub => '-'

def apply : AddOp → BitVec 32 → BitVec 32 → BitVec 32
  | add, x, y => x + y
  | sub, x, y => x - y

end AddOp

namespace MulOp

def char : MulOp → Char
  | mul => '*'
  | div => '/'

def apply : MulOp → BitVec 32 → BitVec 32 → BitVec 32
  | mul, x, y => x * y
  | div, x, y => x / y

end MulOp

/-- Factors with operators of the higher precedence. -/
structure Product (α : Type) where
  first : α
  rest : List (MulOp × α)

/-- Products with operators of the lower precedence. -/
structure Terms (α : Type) where
  first : Product α
  rest : List (AddOp × Product α)

variable {α : Type}

def Product.text (f : α → List Char) (p : Product α) : List Char :=
  f p.first ++ p.rest.flatMap fun x => x.1.char :: f x.2

/-- Operators are applied from left to right. -/
def Product.value (v : α → BitVec 32) (p : Product α) : BitVec 32 :=
  p.rest.foldl (fun y x => x.1.apply y (v x.2)) (v p.first)

def Product.leaves (p : Product α) : List α := p.first :: p.rest.map Prod.snd

def Terms.text (f : α → List Char) (e : Terms α) : List Char :=
  e.first.text f ++ e.rest.flatMap fun x => x.1.char :: x.2.text f

/-- Operators are applied from left to right. -/
def Terms.value (v : α → BitVec 32) (e : Terms α) : BitVec 32 :=
  e.rest.foldl (fun y x => x.1.apply y (x.2.value v)) (e.first.value v)

def Terms.products (e : Terms α) : List (Product α) := e.first :: e.rest.map Prod.snd

def Terms.leaves (e : Terms α) : List α := e.products.flatMap Product.leaves

/-- What the factors and two texts of a product inherit from those of each factor. -/
theorem Product.text_induction {P : List α → List Char → List Char → Prop}
    (happend : ∀ l s t l' s' t', P l s t → P l' s' t' → P (l ++ l') (s ++ s') (t ++ t'))
    (hop : ∀ op : MulOp, P [] [op.char] [op.char]) {f g : α → List Char} {p : Product α}
    (h : ∀ x ∈ p.leaves, P [x] (f x) (g x)) : P p.leaves (p.text f) (p.text g) := by
  obtain ⟨first, rest⟩ := p
  have hall : ∀ l s t, P l s t → P (l ++ rest.map Prod.snd) (s ++ rest.flatMap fun x => x.1.char :: f x.2)
      (t ++ rest.flatMap fun x => x.1.char :: g x.2) := by
    replace h : ∀ x ∈ rest, P [x.2] (f x.2) (g x.2) := fun x hx =>
      h x.2 (List.mem_cons_of_mem first (List.mem_map_of_mem hx))
    induction rest with
    | nil =>
      intro l s t hs
      rwa [List.map_nil, List.flatMap_nil, List.flatMap_nil, List.append_nil, List.append_nil, List.append_nil]
    | cons x rest ih =>
      intro l s t hs
      have hx := happend _ _ _ _ _ _ (hop x.1) (h x List.mem_cons_self)
      rw [List.map_cons, List.flatMap_cons, List.flatMap_cons, ← List.append_assoc, ← List.append_assoc,
        List.append_cons l x.2]
      exact ih (fun y hy => h y (List.mem_cons_of_mem x hy)) _ _ _ (happend l s t _ _ _ hs hx)
  exact hall _ _ _ (h first List.mem_cons_self)

theorem Terms.text_induction {P : List α → List Char → List Char → Prop}
    (happend : ∀ l s t l' s' t', P l s t → P l' s' t' → P (l ++ l') (s ++ s') (t ++ t'))
    (hmul : ∀ op : MulOp, P [] [op.char] [op.char]) (hadd : ∀ op : AddOp, P [] [op.char] [op.char])
    {f g : α → List Char} {e : Terms α} (h : ∀ x ∈ e.leaves, P [x] (f x) (g x)) :
    P e.leaves (e.text f) (e.text g) := by
  obtain ⟨first, rest⟩ := e
  have hproduct : ∀ p ∈ first :: rest.map Prod.snd, P p.leaves (p.text f) (p.text g) := fun p hp =>
    Product.text_induction happend hmul fun x hx => h x (List.mem_flatMap.mpr ⟨p, hp, hx⟩)
  have hall : ∀ l s t, P l s t → P (l ++ (rest.map Prod.snd).flatMap Product.leaves)
      (s ++ rest.flatMap fun x => x.1.char :: x.2.text f) (t ++ rest.flatMap fun x => x.1.char :: x.2.text g) := by
    replace hproduct : ∀ x ∈ rest, P x.2.leaves (x.2.text f) (x.2.text g) := fun x hx =>
      hproduct x.2 (List.mem_cons_of_mem first (List.mem_map_of_mem hx))
    clear h
    induction rest with
    | nil =>
      intro l s t hs
      rwa [List.map_nil, List.flatMap_nil, List.flatMap_nil, List.flatMap_nil, List.append_nil, List.append_nil,
        List.append_nil]
    | cons x rest ih =>
      intro l s t hs
      have hx := happend _ _ _ _ _ _ (hadd x.1) (hproduct x List.mem_cons_self)
      rw [List.map_cons, List.flatMap_cons, List.flatMap_cons, List.flatMap_cons, ← List.append_assoc,
        ← List.append_assoc, ← List.append_assoc]
      exact ih (fun y hy => hproduct y (List.mem_cons_of_mem x hy)) _ _ _ (happend l s t _ _ _ hs hx)
  exact hall _ _ _ (hproduct first List.mem_cons_self)

/-- A character that is in no factor and is no operator. -/
theorem Terms.not_mem_text {c : Char} (hmul : ∀ op : MulOp, c ≠ op.char) (hadd : ∀ op : AddOp, c ≠ op.char)
    {f : α → List Char} {e : Terms α} (h : ∀ x ∈ e.leaves, c ∉ f x) : c ∉ e.text f := by
  refine @Terms.text_induction α (fun _ s _ => c ∉ s) (fun _ s _ _ t _ hs ht hmem => ?_) (fun op => ?_)
    (fun op => ?_) f f e h
  · exact (List.mem_append.mp hmem).elim hs ht
  · rw [List.mem_singleton]
    exact hmul op
  · rw [List.mem_singleton]
    exact hadd op

theorem Terms.balanced_text {f : α → List Char} {e : Terms α} (h : ∀ x ∈ e.leaves, Balanced (f x)) :
    Balanced (e.text f) :=
  @Terms.text_induction α (fun _ s _ => Balanced s) (fun _ _ _ _ _ _ => Balanced.append)
    (fun op => by cases op <;> exact balanced_of_not_mem (by decide) (by decide))
    (fun op => by cases op <;> exact balanced_of_not_mem (by decide) (by decide)) f f e h

end DSPAssembler
