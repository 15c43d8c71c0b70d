import Mathlib.Data.Int.Notation
import Mathlib.Data.List.Count

/-!
# Expressions of the DSP assembler

`ParseExpression` evaluates an expression by rewriting its text: brackets give way to the number that they
stand for, and the rest is cut at its operators.

* `parseValue`: numbers and labels.
* `findBrackets`: the first bracket of a text.
* `parseExpression`: the evaluator, with the flag that an error sets. `none` means that the fuel is used up, a
  division by zero, or a text that a buffer does not hold.
-/

set_option autoImplicit false

/-- A label; `GetLabelValue` is called for labels of any type. -/
structure DSPLabel where
  name : List Char
  addr : BitVec 32

/-- What an expression is evaluated with. -/
structure DSPAssembler where
  labels : List DSPLabel
  curPass : ℕ
  force : Bool

namespace DSPAssembler

variable (a : DSPAssembler)

def getLabelValue (name : List Char) : Option (BitVec 16) :=
  (a.labels.find? fun label => label.name = name).map fun label => label.addr.setWidth 16

/-- The flag `m_failed` after `ShowError`. -/
def showError (shown failed : Bool) : Bool := failed || (shown && !a.force)

/-! ## Numbers and labels -/

def decimalDigit (c : Char) : Option ℕ :=
  if '0' ≤ c ∧ c ≤ '9' then some (c.toNat - '0'.toNat) else none

def hexDigit (c : Char) : Option ℕ :=
  if 'a' ≤ c ∧ c ≤ 'f' then some (c.toNat - 'a'.toNat + 10)
  else if 'A' ≤ c ∧ c ≤ 'F' then some (c.toNat - 'A'.toNat + 10)
  else decimalDigit c

def binaryDigit (c : Char) : Option ℕ :=
  if '0' ≤ c ∧ c ≤ '1' then some (c.toNat - '0'.toNat) else none

/-- A digit of the loops of `ParseValue`: the value, and whether an error has been shown. -/
def parseDigit (base : BitVec 32) (digit : Char → Option ℕ) (s : BitVec 32 × Bool) (c : Char) :
    BitVec 32 × Bool :=
  match digit c with
  | some d => (s.1 * base + BitVec.ofNat 32 d, s.2)
  | none => (s.1 * base, true)

def parseDigits (base : BitVec 32) (digit : Char → Option ℕ) (text : List Char) : BitVec 32 × Bool :=
  text.foldl (parseDigit base digit) (0, false)

/-- What stands after a `0`. -/
def parseZero (rest : List Char) : BitVec 32 × Bool :=
  match rest with
  | [] => (0, false)
  | c :: digits =>
    if (decimalDigit c).isSome then parseDigits 10 decimalDigit ('0' :: c :: digits)
    else if c = 'X' then parseDigits 16 hexDigit digits
    else if c = Char.ofNat 39 then parseDigits 2 binaryDigit digits
    else (0, false)

/-- A number or a label, which is not negated. -/
def parseUnsigned (negative : Bool) (ptr : List Char) : BitVec 32 × Bool :=
  let number (val : BitVec 32 × Bool) := if negative then (-val.1, val.2) else val
  match ptr with
  | [] => label number []
  | c :: rest =>
    if c = '0' then number (parseZero rest)
    else if (decimalDigit c).isSome then number (parseDigits 10 decimalDigit (c :: rest))
    else label number (c :: rest)
where
  label (number : BitVec 32 × Bool → BitVec 32 × Bool) (ptr : List Char) : BitVec 32 × Bool :=
    match a.getLabelValue ptr with
    | some value => (value.setWidth 32, false)
    | none => number (0, a.curPass = 2)

/-- Whether a text begins with a character, and what follows. -/
def dropSign (c : Char) (ptr : List Char) : Bool × List Char :=
  if ptr.head? = some c then (true, ptr.tail) else (false, ptr)

/-- `ParseValue`: the value, and whether an error has been shown. -/
def parseValue (str : List Char) : BitVec 32 × Bool :=
  let (hash, ptr) := dropSign '#' str
  let (minus, ptr) := dropSign '-' ptr
  a.parseUnsigned (hash || minus) ptr

/-- The digits of a number of at most `k` of them. -/
def decimal : ℕ → ℕ → List Char
  | 0, _ => []
  | k + 1, n => if n < 10 then [Nat.digitChar n] else decimal k (n / 10) ++ [Nat.digitChar (n % 10)]

/-- `%d` -/
def print (val : BitVec 32) : List Char :=
  if val.msb then '-' :: decimal 10 (-val).toNat else decimal 10 val.toNat

/-! ## Brackets -/

/-- What `FindBrackets` leaves in `src`, what it finds in the brackets and behind them, and whether it shows an
error. -/
structure Brackets where
  src : List Char
  found : Option (List Char × List Char)
  mismatch : Bool

/-- The loop of `FindBrackets`; `opened` stands for `first >= 0`. -/
def findBracketsFrom : List Char → (src dst : List Char) → (opened : Bool) → (count : ℤ) → Brackets
  | [], src, _, _, count => ⟨src, none, count ≠ 0⟩
  | c :: rest, src, dst, opened, count =>
    if c = '(' then
      if opened then findBracketsFrom rest src (dst ++ [c]) true (count + 1)
      else findBracketsFrom rest src dst true 1
    else if c = ')' then
      if count - 1 = 0 then ⟨src, some (dst, rest), false⟩
      else findBracketsFrom rest (if opened then src else src ++ [c]) (dst ++ [c]) opened (count - 1)
    else if opened then findBracketsFrom rest src (dst ++ [c]) opened count
    else findBracketsFrom rest (src ++ [c]) dst opened count

def findBrackets (src : List Char) : Brackets := findBracketsFrom src [] [] false 0

/-! ## Expressions -/

/-- The size of the buffers. -/
def bufferSize : ℕ := 1024

/-- An evaluator of shorter texts: the value, and the flag. -/
abbrev Evaluator := List Char → Bool → Option (BitVec 32 × Bool)

/-- The loop that replaces brackets. Each of them has an opening one, and numbers have none. -/
def bracketLoop (eval : Evaluator) : ℕ → List Char → Bool → Option (List Char × Bool)
  | 0, _, _ => none
  | n + 1, s, failed =>
    let brackets := findBrackets s
    match brackets.found with
    | none => some (brackets.src, a.showError brackets.mismatch failed)
    | some (dst, after) => do
      let (val, failed) ← eval dst failed
      let s := brackets.src ++ print val ++ after
      if s.length < bufferSize then bracketLoop eval n s failed else none

/-- The marks of negative numbers: `sign` tells whether a `-` is one, for what stands before it. -/
def markSigns : (sign : Bool) → List Char → List Char
  | _, [] => []
  | sign, c :: rest => (if c = '-' ∧ sign then '#' else c) :: markSigns (c = '/' ∨ c = '%' ∨ c = '*') rest

/-- `strstr`: what stands before and behind the first operator. -/
def splitFirst (op : Char) : List Char → Option (List Char × List Char)
  | [] => none
  | c :: rest =>
    if c = op then some ([], rest)
    else (splitFirst op rest).map fun parts => (c :: parts.1, parts.2)

/-- The loop of an operator. -/
def operatorLoop (eval : Evaluator) (op : Char) (combine : BitVec 32 → BitVec 32 → Option (BitVec 32)) :
    ℕ → List Char → Bool → Option (List Char × Bool)
  | 0, _, _ => none
  | n + 1, d, failed =>
    match splitFirst op d with
    | none => some (d, failed)
    | some (left, right) => do
      let (x, failed) ← eval left failed
      let (y, failed) ← eval right failed
      let val ← combine x y
      operatorLoop eval op combine n (print val) failed

/-- A difference; one below zero is not printed as it is. -/
def difference (x y : BitVec 32) : BitVec 32 :=
  let val := x - y
  if val.msb then 0x10000#32 + (val &&& 0xffff#32) else val

/-- A quotient; dividing by zero ends the program. -/
def quotient (x y : BitVec 32) : Option (BitVec 32) := if y = 0 then none else some (x / y)

/-- A second turn of a loop finds no operator: no printed number contains one other than a `-`, and those of
the loop for `-` are not negative. -/
def turns : ℕ := 2

/-- What `ParseExpression` makes of a text without brackets and spaces, in which negative numbers are marked. -/
def evaluateMarked (eval : Evaluator) (d : List Char) (failed : Bool) : Option (BitVec 32 × Bool) := do
  let (d, failed) ← operatorLoop eval '+' (fun x y => some (x + y)) turns d failed
  let (d, failed) ← operatorLoop eval '-' (fun x y => some (difference x y)) turns d failed
  let (d, failed) ← operatorLoop eval '*' (fun x y => some (x * y)) turns d failed
  let (d, failed) ← operatorLoop eval '/' quotient turns d failed
  let (d, failed) ← operatorLoop eval '|' (fun x y => some (x ||| y)) turns d failed
  let (d, failed) ← operatorLoop eval '&' (fun x y => some (x &&& y)) turns d failed
  let (val, shown) := a.parseValue d
  some (val, a.showError shown failed)

/-- `ParseExpression` -/
def parseExpression : ℕ → Evaluator
  | 0, _, _ => none
  | fuel + 1, ptr, failed =>
    if bufferSize ≤ ptr.length then none
    else do
      let (s, failed) ← a.bracketLoop (parseExpression fuel) (ptr.count '(' + 1) ptr failed
      a.evaluateMarked (parseExpression fuel) (markSigns true (s.filter fun c => c ≠ ' ')) failed

end DSPAssembler
