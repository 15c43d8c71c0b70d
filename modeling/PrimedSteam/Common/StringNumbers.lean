import Mathlib.Algebra.Order.Field.Rat
import Mathlib.Algebra.Order.Group.Unbundled.Abs
import Mathlib.Data.Nat.Digits.Lemmas
import PrimedSteam.Common.StringUtil

/-!
# Numbers in strings

`ValueToString` and `TryParse`, of which the second reads what the first one writes.
-/

set_option autoImplicit false

namespace StringUtil

/-! ## Digits -/

/-- 36 of a character that is no digit in any base. -/
def digitValue (c : Char) : ℕ :=
  if '0' ≤ c ∧ c ≤ '9' then c.toNat - '0'.toNat
  else if 'a' ≤ c ∧ c ≤ 'z' then c.toNat - 'a'.toNat + 10
  else if 'A' ≤ c ∧ c ≤ 'Z' then c.toNat - 'A'.toNat + 10
  else 36

/-- The number that a text of digits is. -/
def readDigits (base : ℕ) (s : Text) : Option ℕ :=
  if s ≠ [] ∧ s.all fun c => digitValue c < base then
    some (Nat.ofDigits base (s.map digitValue).reverse)
  else none

/-- A number with at least `width` digits. -/
def formatNumber (base width v : ℕ) : Text :=
  let digits := Nat.digits base v
  ((digits ++ List.replicate (width - digits.length) 0).map Nat.digitChar).reverse

/-! ## `TryParse` -/

/-- The character is one that `strtoull` and `>>` skip. -/
def isSpace (c : Char) : Bool := c ∈ [' ', '\t', '\n', '\x0b', '\x0c', '\r']

def takeSign : Text → Bool × Text
  | '-' :: s => (true, s)
  | '+' :: s => (false, s)
  | s => (false, s)

/-- A number in the base that its first characters give. -/
def readMagnitude : Text → Option ℕ
  | '0' :: x :: s => if x = 'x' ∨ x = 'X' then readDigits 16 s else readDigits 8 (x :: s)
  | s => readDigits 10 s

/-- What `strtoull` and `strtoll` read from a text to its end: a sign and a magnitude. -/
def readNumber (s : Text) : Option (Bool × ℕ) :=
  let signed := takeSign (s.dropWhile isSpace)
  (readMagnitude signed.2).map fun v => (signed.1, v)

/-- The text up to the end of a C string. -/
def cString (str : Text) : Text := str.takeWhile (· ≠ '\x00')

/-- `TryParse` into an unsigned type with `bits` bits. -/
def tryParseUnsigned (bits : ℕ) (str : Text) : Option ℕ :=
  if cString str = [] then some 0
  else
    match readNumber (cString str) with
    | none => none
    | some (negative, magnitude) =>
      if magnitude ≥ 2 ^ 64 then none
      else
        let value := if negative then (2 ^ 64 - magnitude) % 2 ^ 64 else magnitude
        if value < 2 ^ bits then some value else none

/-- `TryParse` into a `u32` -/
def tryParseU32 (str : Text) : Option UInt32 := (tryParseUnsigned 32 str).map UInt32.ofNat

/-- `TryParse` into a `u64` -/
def tryParseU64 (str : Text) : Option UInt64 := (tryParseUnsigned 64 str).map UInt64.ofNat

/-- `TryParse` into an `int` -/
def tryParseInt (str : Text) : Option Int32 :=
  if cString str = [] then some 0
  else
    match readNumber (cString str) with
    | none => none
    | some (negative, magnitude) =>
      let value : ℤ := if negative then -magnitude else magnitude
      if -2 ^ 31 ≤ value ∧ value < 2 ^ 31 then some (Int32.ofInt value) else none

def isDigit (c : Char) : Bool := digitValue c < 10

def readExponent : Text → Option ℤ
  | [] => some 0
  | c :: s =>
    if c = 'e' ∨ c = 'E' then
      (readDigits 10 (takeSign s).2).map fun v => if (takeSign s).1 then -(v : ℤ) else v
    else none

/-- The number that `>>` reads into a `float` from a text that it reads to its end, before it is
rounded. -/
def readFloat (s : Text) : Option ℚ :=
  let signed := takeSign (s.dropWhile isSpace)
  let whole := signed.2.takeWhile isDigit
  let rest := signed.2.dropWhile isDigit
  let fraction := if rest.head? = some '.' then rest.tail.takeWhile isDigit else []
  let rest := if rest.head? = some '.' then rest.tail.dropWhile isDigit else rest
  match readDigits 10 (whole ++ fraction), readExponent rest with
  | some mantissa, some exponent =>
    let value : ℚ := mantissa * 10 ^ (exponent - fraction.length)
    some (if signed.1 then -value else value)
  | _, _ => none

/-- The number is rounded to the `float` 1. -/
def roundsToOne (q : ℚ) : Bool := 1 - 1 / 2 ^ 25 ≤ q ∧ q ≤ 1 + 1 / 2 ^ 24

/-- The number is rounded to the `float` 0. -/
def roundsToZero (q : ℚ) : Bool := |q| ≤ 1 / 2 ^ 150

/-- `TryParse` into a `bool` -/
def tryParseBool (str : Text) : Option Bool :=
  let value := readFloat (str.map fun c => if c = ',' then '.' else c)
  if value.any roundsToOne ∨ caseInsensitiveEquals "true".toList (cString str) then some true
  else if value.any roundsToZero ∨ caseInsensitiveEquals "false".toList (cString str) then some false
  else none

/-! ## `ValueToString` -/

def u32ToString (value : UInt32) : Text := '0' :: 'x' :: formatNumber 16 8 value.toNat

def u64ToString (value : UInt64) : Text := '0' :: 'x' :: formatNumber 16 16 value.toNat

def intToString (value : Int32) : Text :=
  if value.toInt < 0 then '-' :: formatNumber 10 1 value.toInt.natAbs
  else formatNumber 10 1 value.toInt.natAbs

def boolToString (value : Bool) : Text := if value then "True".toList else "False".toList

/-! ## What is written is read -/

theorem digitValue_digitChar {d : ℕ} (hd : d < 16) : digitValue (Nat.digitChar d) = d := by
  have hall : ∀ d < 16, digitValue (Nat.digitChar d) = d := by decide
  exact hall d hd

section Format

variable {base : ℕ} (width v : ℕ)

theorem lt_of_mem_padded (hb : 1 < base) {d : ℕ}
    (hd : d ∈ Nat.digits base v ++ List.replicate (width - (Nat.digits base v).length) 0) : d < base := by
  rcases List.mem_append.mp hd with hd | hd
  · exact Nat.digits_lt_base hb hd
  · rw [(List.mem_replicate.mp hd).2]
    omega

theorem mem_formatNumber (hb : 1 < base) {c : Char} (hc : c ∈ formatNumber base width v) :
    ∃ d < base, Nat.digitChar d = c := by
  rw [formatNumber, List.mem_reverse, List.mem_map] at hc
  obtain ⟨d, hd, rfl⟩ := hc
  exact ⟨d, lt_of_mem_padded width v hb hd, rfl⟩

theorem formatNumber_ne_nil (hw : 0 < width) : formatNumber base width v ≠ [] := by
  intro hnil
  have hlen := congrArg List.length hnil
  simp only [formatNumber, List.length_reverse, List.length_map, List.length_append,
    List.length_replicate, List.length_nil] at hlen
  omega

theorem readDigits_formatNumber (hb : 1 < base) (hb' : base ≤ 16) (hw : 0 < width) :
    readDigits base (formatNumber base width v) = some v := by
  have hall : (formatNumber base width v).all (fun c => digitValue c < base) = true := by
    rw [List.all_eq_true]
    intro c hc
    obtain ⟨d, hd, rfl⟩ := mem_formatNumber width v hb hc
    rw [digitValue_digitChar (hd.trans_le hb')]
    exact decide_eq_true hd
  have hdigits : ((formatNumber base width v).map digitValue).reverse =
      Nat.digits base v ++ List.replicate (width - (Nat.digits base v).length) 0 := by
    rw [formatNumber, List.map_reverse, List.reverse_reverse, List.map_map]
    refine (List.map_congr_left fun d hd => ?_).trans (List.map_id _)
    exact digitValue_digitChar ((lt_of_mem_padded width v hb hd).trans_le hb')
  rw [readDigits, if_pos ⟨formatNumber_ne_nil width v hw, hall⟩, hdigits,
    Nat.ofDigits_append_replicate_zero, Nat.ofDigits_digits]

end Format

/-- A character of a number is neither a blank nor a mark. -/
theorem digitChar_spec {d : ℕ} (hd : d < 16) :
    (Nat.digitChar d).isAlphanum = true ∧ isSpace (Nat.digitChar d) = false ∧
      Nat.digitChar d ≠ '\x00' := by
  have hall : ∀ d < 16, (Nat.digitChar d).isAlphanum = true ∧ isSpace (Nat.digitChar d) = false ∧
      Nat.digitChar d ≠ '\x00' := by decide
  exact hall d hd

theorem cString_of_forall {s : Text} (h : ∀ c ∈ s, c ≠ '\x00') : cString s = s :=
  List.takeWhile_eq_self_iff.mpr fun c hc => decide_eq_true (h c hc)

theorem ne_null_of_mem_formatNumber {base width v : ℕ} (hb : 1 < base) (hb' : base ≤ 16) {c : Char}
    (hc : c ∈ formatNumber base width v) : c ≠ '\x00' := by
  obtain ⟨d, hd, rfl⟩ := mem_formatNumber width v hb hc
  exact (digitChar_spec (hd.trans_le hb')).2.2

theorem tryParseUnsigned_hex {bits width v : ℕ} (hbits : bits ≤ 64) (hw : 0 < width) (hv : v < 2 ^ bits) :
    tryParseUnsigned bits ('0' :: 'x' :: formatNumber 16 width v) = some v := by
  have hc : cString ('0' :: 'x' :: formatNumber 16 width v) = '0' :: 'x' :: formatNumber 16 width v := by
    refine cString_of_forall (List.forall_mem_cons.mpr ⟨by decide, List.forall_mem_cons.mpr ⟨by decide, ?_⟩⟩)
    exact fun c hc => ne_null_of_mem_formatNumber (by norm_num) (by norm_num) hc
  have hread : readNumber ('0' :: 'x' :: formatNumber 16 width v) = some (false, v) := by
    rw [readNumber, List.dropWhile_cons_of_neg (by decide)]
    simp [takeSign, readMagnitude, readDigits_formatNumber width v (by norm_num : 1 < 16) le_rfl hw]
  have h64 : v < 2 ^ 64 := hv.trans_le (Nat.pow_le_pow_right (by norm_num) hbits)
  rw [tryParseUnsigned, hc, if_neg (List.cons_ne_nil _ _), hread]
  simp only [ge_iff_le, Bool.false_eq_true, if_false, if_pos hv, if_neg (not_le.mpr h64)]

theorem tryParseU32_u32ToString (value : UInt32) : tryParseU32 (u32ToString value) = some value := by
  rw [tryParseU32, u32ToString, tryParseUnsigned_hex (by norm_num) (by norm_num) value.toNat_lt]
  simp

theorem tryParseU64_u64ToString (value : UInt64) : tryParseU64 (u64ToString value) = some value := by
  rw [tryParseU64, u64ToString, tryParseUnsigned_hex le_rfl (by norm_num) value.toNat_lt]
  simp

/-- A decimal number does not begin as one in another base. -/
theorem readMagnitude_decimal (v : ℕ) : readMagnitude (formatNumber 10 1 v) = some v := by
  have hread := readDigits_formatNumber 1 v (by norm_num : 1 < 10) (by norm_num) (by norm_num)
  rcases Nat.eq_zero_or_pos v with rfl | hpos
  · rfl
  have hne : Nat.digits 10 v ≠ [] := Nat.digits_ne_nil_iff_ne_zero.mpr hpos.ne'
  have hlen : 1 - (Nat.digits 10 v).length = 0 := by
    have := List.length_pos_iff.mpr hne
    omega
  have hform : formatNumber 10 1 v =
      Nat.digitChar ((Nat.digits 10 v).getLast hne) ::
        ((Nat.digits 10 v).dropLast.map Nat.digitChar).reverse := by
    rw [formatNumber, hlen, List.replicate_zero, List.append_nil]
    conv_lhs => rw [← List.dropLast_append_getLast hne]
    rw [List.map_append, List.reverse_append]
    rfl
  have hlast : (Nat.digits 10 v).getLast hne < 10 :=
    Nat.digits_lt_base (by norm_num) (List.getLast_mem hne)
  have hhead : Nat.digitChar ((Nat.digits 10 v).getLast hne) ≠ '0' := by
    have hall : ∀ d < 10, d ≠ 0 → Nat.digitChar d ≠ '0' := by decide
    exact hall _ hlast (Nat.getLast_digit_ne_zero 10 hpos.ne')
  rw [hform] at hread ⊢
  rw [readMagnitude]
  · exact hread
  · intro x s heq
    exact hhead (List.cons.inj heq).1

theorem readNumber_decimal (v : ℕ) : readNumber (formatNumber 10 1 v) = some (false, v) := by
  cases hform : formatNumber 10 1 v with
  | nil => exact absurd hform (formatNumber_ne_nil 1 v (by norm_num))
  | cons c s =>
    have hc : c ∈ formatNumber 10 1 v := hform ▸ List.mem_cons_self
    obtain ⟨d, hd, hdc⟩ := mem_formatNumber 1 v (by norm_num) hc
    have hspec := digitChar_spec (hd.trans (by norm_num))
    rw [hdc] at hspec
    have hsign : takeSign (c :: s) = (false, c :: s) := by
      rw [takeSign]
      · intro s' heq
        rw [(List.cons.inj heq).1] at hspec
        exact absurd hspec.1 (by decide)
      · intro s' heq
        rw [(List.cons.inj heq).1] at hspec
        exact absurd hspec.1 (by decide)
    rw [readNumber, List.dropWhile_cons_of_neg (by simp [hspec.2.1]), hsign, ← hform,
      readMagnitude_decimal]
    rfl

theorem readNumber_negative (v : ℕ) : readNumber ('-' :: formatNumber 10 1 v) = some (true, v) := by
  rw [readNumber, List.dropWhile_cons_of_neg (by decide), takeSign, readMagnitude_decimal]
  rfl

theorem tryParseInt_intToString (value : Int32) : tryParseInt (intToString value) = some value := by
  have hlo := value.le_toInt
  have hhi := value.toInt_lt
  have hnull : ∀ c ∈ formatNumber 10 1 value.toInt.natAbs, c ≠ '\x00' := fun c hc =>
    ne_null_of_mem_formatNumber (by norm_num) (by norm_num) hc
  have hne := @formatNumber_ne_nil 10 1 value.toInt.natAbs (by norm_num)
  rw [intToString]
  split
  · next hneg =>
    have hc : cString ('-' :: formatNumber 10 1 value.toInt.natAbs) =
        '-' :: formatNumber 10 1 value.toInt.natAbs :=
      cString_of_forall (List.forall_mem_cons.mpr ⟨by decide, hnull⟩)
    have hvalue : (-(value.toInt.natAbs : ℤ)) = value.toInt := by omega
    rw [tryParseInt, hc, if_neg (List.cons_ne_nil _ _), readNumber_negative]
    simp only [if_true, hvalue, if_pos (And.intro hlo hhi), Int32.ofInt_toInt]
  · next hpos =>
    have hvalue : ((value.toInt.natAbs : ℕ) : ℤ) = value.toInt := by omega
    rw [tryParseInt, cString_of_forall hnull, if_neg hne, readNumber_decimal]
    simp only [Bool.false_eq_true, if_false, hvalue, if_pos (And.intro hlo hhi), Int32.ofInt_toInt]

theorem tryParseBool_boolToString (value : Bool) : tryParseBool (boolToString value) = some value := by
  cases value <;> decide +kernel

end StringUtil
