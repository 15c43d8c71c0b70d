import Mathlib.Data.List.Nodup
import PrimedSteam.VideoCommon.HideObjectEngine
import PrimedSteam.Lib.TextLines

/-!
# The file of the hide-object codes

* `loadFromINIFile`: the names of the enabled codes in one pass, the codes in another one.
* `saveToINI`: the two sections are cut out of the file and written again at its end.
* `outside`: the lines that stand in neither section; `outside_some`: the loop keeps just these.
* `EndsInHeader`: what is left of the old file ends in a line that is the header of one of the two
  sections once the blanks behind it are gone.
* `loadFromINIFile_saveToINI`: the round trip, when this is not so.
* **`saveToINI_persists_iff`**: the codes persist exactly then.
-/

set_option autoImplicit false

namespace HideObjectEngine

open TextLines

/-! ## Numbers and names -/

/-- The names of the types, in the order of their numbers. -/
def typeNames : List Text :=
  ["8bits", "16bits", "24bits", "32bits", "40bits", "48bits", "56bits", "64bits", "72bits", "80bits",
    "88bits", "96bits", "104bits", "112bits", "120bits", "128bits"].map String.toList

/-- `GetTypeName` -/
def getTypeName (type : HideObjectType) : Text := typeNames.getD type.index "16bits".toList

/-- `ParseTypeName` -/
def parseTypeName (name : Text) : HideObjectType :=
  if typeNames.contains name then .ofIndex (typeNames.idxOf name) else .bits16

/-- The digits of `{:X}`. -/
def hexDigit (n : ℕ) : Char := "0123456789ABCDEF".toList.getD n '0'

/-- `fmt::format("{:016X}", value)` -/
def formatHex16 (value : BitVec 64) : Text :=
  (List.range 16).map fun i => hexDigit (value.toNat / 16 ^ (15 - i) % 16)

/-- The value of a digit of a number in base 16. -/
def hexValue? (c : Char) : Option ℕ :=
  if '0' ≤ c ∧ c ≤ '9' then some (c.toNat - '0'.toNat)
  else if 'a' ≤ c ∧ c ≤ 'f' then some (c.toNat - 'a'.toNat + 10)
  else if 'A' ≤ c ∧ c ≤ 'F' then some (c.toNat - 'A'.toNat + 10)
  else none

/-- The number at the start of a text, as many digits as there are. -/
def hexNumber (value : ℕ) : Text → ℕ
  | [] => value
  | c :: s =>
    match hexValue? c with
    | some digit => hexNumber (value * 16 + digit) s
    | none => value

def isSpace (c : Char) : Bool :=
  c = ' ' || c = '\t' || c = '\n' || c = '\x0b' || c = '\x0c' || c = '\r'

/-- `strtoull(s, nullptr, 16)` -/
def strtoull (s : Text) : BitVec 64 :=
  let s := s.dropWhile isSpace
  let negative := s.head? = some '-'
  let s := if s.head? = some '-' ∨ s.head? = some '+' then s.tail else s
  let s :=
    match s with
    | '0' :: x :: c :: rest => if (x = 'x' ∨ x = 'X') ∧ (hexValue? c).isSome then c :: rest else s
    | _ => s
  let value := hexNumber 0 s
  if 2 ^ 64 ≤ value then BitVec.allOnes 64
  else if negative then -BitVec.ofNat 64 value
  else BitVec.ofNat 64 value

/-! ## Reading -/

def enabledHeader : Text := "[HideObjectCodes_Enabled]".toList

def codesHeader : Text := "[HideObjectCodes]".toList

/-- A line without the carriage return at its end. -/
def dropCarriageReturn (line : Text) : Text :=
  if line.getLast? = some '\r' then line.dropLast else line

/-- `ParseKeyValue` -/
def parseKeyValue (line : Text) : Option (Text × Text) :=
  if '=' ∈ line then
    let key := line.takeWhile (· ≠ '=')
    let value := (line.dropWhile (· ≠ '=')).tail
    some (key.rdropWhile (· = ' '), value.dropWhile (· = ' '))
  else none

/-- The first pass: whether there is a section of the enabled names, and its names. -/
def readEnabled (inSection : Bool) (found : Bool × List Text) : List Text → Bool × List Text
  | [] => found
  | raw :: lines =>
    let line := dropCarriageReturn raw
    if line = enabledHeader then readEnabled true (true, found.2) lines
    else if inSection ∧ line.head? = some '[' then found
    else if !inSection ∨ line = [] then readEnabled inSection found lines
    else if line.head? = some '$' then readEnabled inSection (found.1, found.2 ++ [line.tail]) lines
    else readEnabled inSection found lines

/-- The variables of the second pass. -/
structure Reader where
  parsed : List HideObject
  current : HideObject
  currentEntry : HideObjectEntry
  hasCode : Bool
  hasEntry : Bool

def Reader.start : Reader := ⟨[], ⟨[], [], true, true⟩, .default, false, false⟩

/-- `commit_entry` -/
def Reader.commitEntry (r : Reader) : Reader :=
  let current := if r.hasEntry then { r.current with entries := r.current.entries ++ [r.currentEntry] }
    else r.current
  { r with current := current, hasEntry := false, currentEntry := .default }

/-- `commit_code` -/
def Reader.commitCode (enabledNames : List Text) (r : Reader) : Reader :=
  let r := r.commitEntry
  if !r.hasCode ∨ r.current.name = [] then r
  else
    let current : HideObject := { r.current with active := enabledNames.contains r.current.name }
    if current.entries = [] then { r with current := current }
    else { r with current := current, parsed := r.parsed ++ [current] }

/-- A line of the form `type:upper:lower`, an entry of its own. -/
def Reader.legacyLine (r : Reader) (dataLine : Text) : Reader :=
  match getlines ':' dataLine with
  | type :: upper :: lower :: _ =>
    let legacyEntry := ⟨parseTypeName type, strtoull upper, strtoull lower⟩
    { r with current := { r.current with entries := r.current.entries ++ [legacyEntry] } }
  | _ => r

/-- A line of a code behind its name. -/
def Reader.dataLine (r : Reader) (line : Text) : Reader :=
  let dataLine := if line.head? = some '+' then line.tail else line
  match parseKeyValue dataLine with
  | none => r.legacyLine dataLine
  | some (key, value) =>
    if key = "Type".toList then
      let r := if r.hasEntry then r.commitEntry else r
      { r with currentEntry := { r.currentEntry with type := parseTypeName value }, hasEntry := true }
    else if key = "Upper".toList then
      { r with currentEntry := { r.currentEntry with valueUpper := strtoull value } }
    else if key = "Lower".toList then
      { r with currentEntry := { r.currentEntry with valueLower := strtoull value } }
    else r

/-- The second pass. -/
def readCodes (enabledNames : List Text) (inSection : Bool) (r : Reader) : List Text → Reader
  | [] => r
  | raw :: lines =>
    let line := dropCarriageReturn raw
    if line = codesHeader then readCodes enabledNames true r lines
    else if inSection ∧ line.head? = some '[' then r
    else if !inSection ∨ line = [] then readCodes enabledNames inSection r lines
    else if line.head? = some '$' then
      let r := r.commitCode enabledNames
      readCodes enabledNames inSection { r with current := ⟨line.tail, [], true, true⟩, hasCode := true } lines
    else if r.hasCode then readCodes enabledNames inSection (r.dataLine line) lines
    else readCodes enabledNames inSection r lines

structure ParsedHideObjectFile where
  entries : List HideObject
  hasEnableSection : Bool
  enabledNames : List Text

/-- `LoadFromINIFile`; there may be no file. -/
def loadFromINIFile (file : Option Text) : ParsedHideObjectFile :=
  match file with
  | none => ⟨[], false, []⟩
  | some content =>
    let lines := getlines '\n' content
    let enabled := readEnabled false (false, []) lines
    let r := (readCodes enabled.2 false .start lines).commitCode enabled.2
    ⟨r.parsed, enabled.1, enabled.2⟩

/-! ## Writing -/

/-- The lines outside the two sections. -/
def linesOutside (skipping : Bool) : List Text → List Text
  | [] => []
  | line :: lines =>
    let trimmed := dropCarriageReturn line
    if trimmed = enabledHeader ∨ trimmed = codesHeader then linesOutside true lines
    else if skipping ∧ trimmed.head? ≠ some '[' then linesOutside true lines
    else line :: linesOutside false lines

/-- `ReadFileWithoutHideObjectSections` -/
def readFileWithoutHideObjectSections (file : Option Text) : Text :=
  match file with
  | none => []
  | some content => unlines '\n' (linesOutside false (getlines '\n' content))

def isBlank (c : Char) : Bool := c = '\n' || c = '\r' || c = ' '

/-- The lines of an entry. -/
def entryLines (entry : HideObjectEntry) : List Text :=
  ["Type=".toList ++ getTypeName entry.type, "Upper=0x".toList ++ formatHex16 entry.valueUpper,
    "Lower=0x".toList ++ formatHex16 entry.valueLower]

/-- The lines of a code. -/
def codeLines (code : HideObject) : List Text :=
  ('$' :: code.name) :: (code.entries.flatMap entryLines ++ [[]])

/-- The lines of the two sections. -/
def sectionLines (codes : List HideObject) : List Text :=
  enabledHeader :: ((codes.filter (·.active)).map fun code => '$' :: code.name) ++
    codesHeader :: codes.flatMap codeLines

/-- `SaveToINI`: the new content of the file. -/
def saveToINI (file : Option Text) (codes : List HideObject) : Text :=
  let base := (readFileWithoutHideObjectSections file).rdropWhile isBlank
  let base := if base = [] then [] else base ++ ['\n']
  base ++ unlines '\n' (sectionLines codes)

/-! ## Numbers and names are read as they were written -/

theorem parseTypeName_getTypeName (type : HideObjectType) :
    parseTypeName (getTypeName type) = type := by
  cases type <;> rfl

theorem hexValue?_hexDigit {n : ℕ} (hn : n < 16) : hexValue? (hexDigit n) = some n := by
  have hall : ∀ m < 16, hexValue? (hexDigit m) = some m := by decide
  exact hall n hn

/-- The digits of a number in base 16 are read one after the other. -/
theorem hexNumber_map (f : ℕ → ℕ) (hf : ∀ i, f i < 16) (l : List ℕ) (value : ℕ) :
    hexNumber value (l.map fun i => hexDigit (f i)) = l.foldl (fun acc i => acc * 16 + f i) value := by
  induction l generalizing value with
  | nil => rfl
  | cons i l ih =>
    rw [List.map_cons, hexNumber, hexValue?_hexDigit (hf i), List.foldl_cons]
    exact ih _

theorem foldl_digits (v n value : ℕ) :
    (List.range n).foldl (fun acc i => acc * 16 + v / 16 ^ (n - 1 - i) % 16) value =
      value * 16 ^ n + v % 16 ^ n := by
  induction n generalizing value with
  | zero => rw [List.range_zero, List.foldl_nil, Nat.pow_zero, Nat.mul_one, Nat.mod_one, Nat.add_zero]
  | succ n ih =>
    have hrest : (fun acc i => acc * 16 + v / 16 ^ (n + 1 - 1 - Nat.succ i) % 16) =
        fun acc i => acc * 16 + v / 16 ^ (n - 1 - i) % 16 := by
      funext acc i
      rw [show n + 1 - 1 - Nat.succ i = n - 1 - i by omega]
    have hsplit : v % 16 ^ (n + 1) = v % 16 ^ n + 16 ^ n * (v / 16 ^ n % 16) := by
      rw [Nat.pow_succ, Nat.mod_mul]
    rw [List.range_succ_eq_map, List.foldl_cons, List.foldl_map, hrest, ih, hsplit, Nat.sub_zero,
      Nat.add_sub_cancel, Nat.add_mul, Nat.pow_succ, Nat.mul_assoc value, Nat.mul_comm 16 (16 ^ n),
      Nat.mul_comm (v / 16 ^ n % 16), Nat.add_assoc, Nat.add_comm (16 ^ n * _)]

theorem hexNumber_formatHex16 (value : BitVec 64) : hexNumber 0 (formatHex16 value) = value.toNat := by
  have hlt : value.toNat < 16 ^ 16 := value.isLt
  rw [formatHex16, hexNumber_map _ fun i => Nat.mod_lt _ (by omega)]
  have hdigits := foldl_digits value.toNat 16 0
  rw [Nat.zero_mul, Nat.zero_add, Nat.mod_eq_of_lt hlt] at hdigits
  exact hdigits

theorem strtoull_formatHex16 (value : BitVec 64) :
    strtoull ('0' :: 'x' :: formatHex16 value) = value := by
  obtain ⟨c, rest, heq, hc⟩ : ∃ c rest, formatHex16 value = c :: rest ∧ (hexValue? c).isSome := by
    refine ⟨_, _, rfl, ?_⟩
    rw [hexValue?_hexDigit (Nat.mod_lt _ (by omega))]
    rfl
  have hnumber := hexNumber_formatHex16 value
  have hlt : ¬2 ^ 64 ≤ value.toNat := Nat.not_le.mpr value.isLt
  have hspaces : ('0' :: 'x' :: c :: rest).dropWhile isSpace = '0' :: 'x' :: c :: rest := rfl
  have hsign : ¬(('0' :: 'x' :: c :: rest).head? = some '-' ∨
      ('0' :: 'x' :: c :: rest).head? = some '+') := by
    rw [List.head?_cons]
    decide
  rw [heq] at hnumber ⊢
  rw [strtoull, hspaces]
  simp only [if_neg hsign, hc, true_or, true_and, if_true, hnumber, if_neg hlt]
  rw [if_neg (not_or.mp hsign).1, BitVec.ofNat_toNat, BitVec.setWidth_eq]

theorem notMem_formatHex16 {c : Char} (hc : hexValue? c = none) (value : BitVec 64) :
    c ∉ formatHex16 value := by
  intro h
  obtain ⟨i, _, rfl⟩ := List.mem_map.mp h
  rw [hexValue?_hexDigit (Nat.mod_lt _ (by omega))] at hc
  exact Option.some_ne_none _ hc

/-- A key and a value without blanks around them are read as they are. -/
theorem parseKeyValue_append {key value : Text} {c : Char} (hkey : '=' ∉ key)
    (hend : key.rdropWhile (· = ' ') = key) (hc : c ≠ ' ') :
    parseKeyValue (key ++ '=' :: c :: value) = some (key, c :: value) := by
  have hall : ∀ c ∈ key, decide (c ≠ '=') = true :=
    fun c hc => decide_eq_true fun heq => hkey (heq ▸ hc)
  rw [parseKeyValue, if_pos (List.mem_append_right key List.mem_cons_self)]
  dsimp only
  rw [List.takeWhile_append_of_pos hall, List.dropWhile_append_of_pos hall,
    List.takeWhile_cons_of_neg (by decide), List.dropWhile_cons_of_neg (by decide), List.append_nil,
    List.tail_cons, hend, List.dropWhile_cons_of_neg (by simpa using hc)]

theorem exists_getTypeName (type : HideObjectType) :
    ∃ c value, getTypeName type = c :: value ∧ c ≠ ' ' := by
  cases type <;> exact ⟨_, _, rfl, by decide⟩

/-! ## Reading the sections -/

theorem dropCarriageReturn_of_ne {line : Text} (h : line.getLast? ≠ some '\r') :
    dropCarriageReturn line = line := if_neg h

theorem dropCarriageReturn_of_notMem {line : Text} (h : '\r' ∉ line) :
    dropCarriageReturn line = line :=
  dropCarriageReturn_of_ne fun hlast => h (List.mem_of_getLast? hlast)

variable (enabledNames : List Text)

theorem readEnabled_outside {lines : List Text} (hlines : ∀ l ∈ lines, dropCarriageReturn l ≠ enabledHeader)
    (found : Bool × List Text) (rest : List Text) :
    readEnabled false found (lines ++ rest) = readEnabled false found rest := by
  induction lines with
  | nil => rfl
  | cons line lines ih =>
    rw [List.forall_mem_cons] at hlines
    rw [List.cons_append, readEnabled, if_neg hlines.1, if_neg (by simp), if_pos (by simp)]
    exact ih hlines.2

theorem readCodes_outside {lines : List Text} (hlines : ∀ l ∈ lines, dropCarriageReturn l ≠ codesHeader)
    (r : Reader) (rest : List Text) :
    readCodes enabledNames false r (lines ++ rest) = readCodes enabledNames false r rest := by
  induction lines with
  | nil => rfl
  | cons line lines ih =>
    rw [List.forall_mem_cons] at hlines
    rw [List.cons_append, readCodes, if_neg hlines.1, if_neg (by simp), if_pos (by simp)]
    exact ih hlines.2

theorem cons_ne_header {c : Char} (hc : c ≠ '[') (line : Text) :
    c :: line ≠ enabledHeader ∧ c :: line ≠ codesHeader :=
  ⟨fun h => hc (List.head_eq_of_cons_eq h), fun h => hc (List.head_eq_of_cons_eq h)⟩

theorem readEnabled_names {names : List Text} (hnames : ∀ n ∈ names, n.getLast? ≠ some '\r')
    (hne : ∀ n ∈ names, n ≠ []) (found : List Text) (rest : List Text) :
    readEnabled true (true, found) (names.map ('$' :: ·) ++ rest) =
      readEnabled true (true, found ++ names) rest := by
  induction names generalizing found with
  | nil => rw [List.map_nil, List.nil_append, List.append_nil]
  | cons name names ih =>
    rw [List.forall_mem_cons] at hnames hne
    have hlast : ('$' :: name).getLast? ≠ some '\r' := by
      rw [List.getLast?_cons_of_ne_nil hne.1]
      exact hnames.1
    rw [List.map_cons, List.cons_append, readEnabled, dropCarriageReturn_of_ne hlast,
      if_neg (cons_ne_header (by decide) name).1, List.head?_cons, if_neg (by simp), if_neg (by simp),
      if_pos rfl, List.tail_cons, ih hnames.2 hne.2, List.append_assoc, List.singleton_append]

/-- The names of the enabled codes are read from their section. -/
theorem readEnabled_sectionLines {codes : List HideObject}
    (hnames : ∀ c ∈ codes, c.name.getLast? ≠ some '\r') (hne : ∀ c ∈ codes, c.name ≠ []) :
    readEnabled false (false, []) (sectionLines codes) =
      (true, (codes.filter (·.active)).map (·.name)) := by
  have hsub : ∀ n ∈ (codes.filter (·.active)).map (·.name), n.getLast? ≠ some '\r' ∧ n ≠ [] := by
    intro n hn
    obtain ⟨c, hc, rfl⟩ := List.mem_map.mp hn
    have hc := (List.mem_filter.mp hc).1
    exact ⟨hnames c hc, hne c hc⟩
  have hmap : (codes.filter (·.active)).map (fun code => '$' :: code.name) =
      ((codes.filter (·.active)).map (·.name)).map ('$' :: ·) := by
    rw [List.map_map]
    rfl
  rw [sectionLines, List.cons_append, readEnabled, dropCarriageReturn_of_notMem (by decide), if_pos rfl,
    hmap, readEnabled_names (fun n hn => (hsub n hn).1) (fun n hn => (hsub n hn).2), List.nil_append,
    readEnabled, dropCarriageReturn_of_notMem (by decide), if_neg (by decide), if_pos (by decide)]

theorem readCodes_dataLine {r : Reader} {c : Char} {line : Text} (hcode : r.hasCode = true)
    (hline : '\r' ∉ c :: line) (hc : c ≠ '[' ∧ c ≠ '$') (rest : List Text) :
    readCodes enabledNames true r ((c :: line) :: rest) =
      readCodes enabledNames true (r.dataLine (c :: line)) rest := by
  rw [readCodes, dropCarriageReturn_of_notMem hline, if_neg (cons_ne_header hc.1 line).2, List.head?_cons,
    if_neg (by simp [hc.1]), if_neg (by simp), if_neg (by simp [hc.2]), if_pos hcode]

theorem dataLine_type (r : Reader) (type : HideObjectType) :
    r.dataLine ("Type=".toList ++ getTypeName type) =
      let r := if r.hasEntry then r.commitEntry else r
      { r with currentEntry := { r.currentEntry with type := type }, hasEntry := true } := by
  obtain ⟨c, value, heq, hc⟩ := exists_getTypeName type
  have hread : parseKeyValue ("Type=".toList ++ getTypeName type) =
      some ("Type".toList, getTypeName type) := by
    rw [heq]
    exact @parseKeyValue_append "Type".toList value c (by decide) rfl hc
  have hplus : ¬("Type=".toList ++ getTypeName type).head? = some '+' := (by decide : ¬some 'T' = some '+')
  rw [Reader.dataLine, if_neg hplus, hread]
  dsimp only
  rw [if_pos rfl, parseTypeName_getTypeName]

theorem parseKeyValue_number (key : Text) (hkey : '=' ∉ key) (hend : key.rdropWhile (· = ' ') = key)
    (value : BitVec 64) :
    parseKeyValue (key ++ "=0x".toList ++ formatHex16 value) =
      some (key, '0' :: 'x' :: formatHex16 value) := by
  rw [List.append_assoc]
  exact @parseKeyValue_append key ('x' :: formatHex16 value) '0' hkey hend (by decide)

theorem dataLine_upper (r : Reader) (value : BitVec 64) :
    r.dataLine ("Upper=0x".toList ++ formatHex16 value) =
      { r with currentEntry := { r.currentEntry with valueUpper := value } } := by
  have hread : parseKeyValue ("Upper=0x".toList ++ formatHex16 value) = _ :=
    parseKeyValue_number "Upper".toList (by decide) rfl value
  have hplus : ¬("Upper=0x".toList ++ formatHex16 value).head? = some '+' :=
    (by decide : ¬some 'U' = some '+')
  rw [Reader.dataLine, if_neg hplus, hread]
  dsimp only
  rw [if_neg (by decide), if_pos rfl, strtoull_formatHex16]

theorem dataLine_lower (r : Reader) (value : BitVec 64) :
    r.dataLine ("Lower=0x".toList ++ formatHex16 value) =
      { r with currentEntry := { r.currentEntry with valueLower := value } } := by
  have hread : parseKeyValue ("Lower=0x".toList ++ formatHex16 value) = _ :=
    parseKeyValue_number "Lower".toList (by decide) rfl value
  have hplus : ¬("Lower=0x".toList ++ formatHex16 value).head? = some '+' :=
    (by decide : ¬some 'L' = some '+')
  rw [Reader.dataLine, if_neg hplus, hread]
  dsimp only
  rw [if_neg (by decide), if_neg (by decide), if_pos rfl, strtoull_formatHex16]

/-- What the three lines of an entry do. -/
def Reader.afterEntry (r : Reader) (entry : HideObjectEntry) : Reader :=
  { r.commitEntry with currentEntry := entry, hasEntry := true }

/-- The current code with further entries. -/
def Reader.addEntries (r : Reader) (entries : List HideObjectEntry) : Reader :=
  { r with current := { r.current with entries := r.current.entries ++ entries } }

theorem dataLine_entry (r : Reader) (entry : HideObjectEntry) :
    (((r.dataLine ("Type=".toList ++ getTypeName entry.type)).dataLine
      ("Upper=0x".toList ++ formatHex16 entry.valueUpper)).dataLine
      ("Lower=0x".toList ++ formatHex16 entry.valueLower)) = r.afterEntry entry := by
  rw [dataLine_type, dataLine_upper, dataLine_lower, Reader.afterEntry]
  cases h : r.hasEntry
  · simp only [Reader.commitEntry, h, Bool.false_eq_true, if_false]
  · simp only [Reader.commitEntry, if_true]

theorem commitEntry_foldl_afterEntry (entries : List HideObjectEntry) (r : Reader) :
    (entries.foldl Reader.afterEntry r).commitEntry = r.commitEntry.addEntries entries := by
  induction entries generalizing r with
  | nil => rw [List.foldl_nil, Reader.addEntries, List.append_nil]
  | cons entry entries ih =>
    have hfirst : (r.afterEntry entry).commitEntry = r.commitEntry.addEntries [entry] := rfl
    rw [List.foldl_cons, ih, hfirst, Reader.addEntries, Reader.addEntries, Reader.addEntries,
      List.append_assoc, List.singleton_append]

theorem notMem_getTypeName (type : HideObjectType) :
    '\r' ∉ getTypeName type ∧ '\n' ∉ getTypeName type := by
  cases type <;> decide

/-- The lines of an entry have no ends of lines in them. -/
theorem notMem_entryLines {entry : HideObjectEntry} {line : Text} (h : line ∈ entryLines entry) :
    '\r' ∉ line ∧ '\n' ∉ line := by
  have hnumber : ∀ c, hexValue? c = none → ∀ key : Text, c ∉ key → ∀ value,
      c ∉ key ++ formatHex16 value := by
    intro c hc key hkey value hmem
    rcases List.mem_append.mp hmem with hmem | hmem
    · exact hkey hmem
    · exact notMem_formatHex16 hc value hmem
  rcases List.mem_cons.mp h with rfl | h
  · have hname := notMem_getTypeName entry.type
    refine ⟨fun hmem => ?_, fun hmem => ?_⟩
    · exact (List.mem_append.mp hmem).elim (by decide) hname.1
    · exact (List.mem_append.mp hmem).elim (by decide) hname.2
  rcases List.mem_cons.mp h with rfl | h
  · exact ⟨hnumber _ (by decide) _ (by decide) _, hnumber _ (by decide) _ (by decide) _⟩
  · rw [List.mem_singleton.mp h]
    exact ⟨hnumber _ (by decide) _ (by decide) _, hnumber _ (by decide) _ (by decide) _⟩

theorem readCodes_entryLines {r : Reader} (hcode : r.hasCode = true) (entry : HideObjectEntry)
    (rest : List Text) :
    readCodes enabledNames true r (entryLines entry ++ rest) =
      readCodes enabledNames true (r.afterEntry entry) rest := by
  have hlines : ∀ line ∈ entryLines entry, '\r' ∉ line := fun line h => (notMem_entryLines h).1
  rw [entryLines, List.forall_mem_cons, List.forall_mem_cons, List.forall_mem_singleton] at hlines
  have htype : (r.dataLine ("Type=".toList ++ getTypeName entry.type)).hasCode = true := by
    rw [dataLine_type]
    dsimp only
    split <;> exact hcode
  have hupper : ((r.dataLine ("Type=".toList ++ getTypeName entry.type)).dataLine
      ("Upper=0x".toList ++ formatHex16 entry.valueUpper)).hasCode = true := by
    rw [dataLine_upper]
    exact htype
  rw [← dataLine_entry]
  exact (readCodes_dataLine enabledNames hcode hlines.1 (by decide) _).trans
    ((readCodes_dataLine enabledNames htype hlines.2.1 (by decide) _).trans
      (readCodes_dataLine enabledNames hupper hlines.2.2 (by decide) _))

theorem readCodes_entries (entries : List HideObjectEntry) {r : Reader} (hcode : r.hasCode = true)
    (rest : List Text) :
    readCodes enabledNames true r (entries.flatMap entryLines ++ rest) =
      readCodes enabledNames true (entries.foldl Reader.afterEntry r) rest := by
  induction entries generalizing r with
  | nil => rfl
  | cons entry entries ih =>
    rw [List.flatMap_cons, List.append_assoc, readCodes_entryLines enabledNames hcode, List.foldl_cons]
    exact ih hcode

/-- A code as it is read. -/
def loaded (code : HideObject) : HideObject :=
  ⟨code.name, code.entries, enabledNames.contains code.name, true⟩

theorem readCodes_codeLines {code : HideObject} (hname : code.name ≠ [])
    (hlast : code.name.getLast? ≠ some '\r') (hentries : code.entries ≠ []) (r : Reader)
    (rest : List Text) :
    ∃ r', readCodes enabledNames true r (codeLines code ++ rest) = readCodes enabledNames true r' rest ∧
      (r'.commitCode enabledNames).parsed =
        (r.commitCode enabledNames).parsed ++ [loaded enabledNames code] := by
  have hline : ('$' :: code.name).getLast? ≠ some '\r' := by
    rw [List.getLast?_cons_of_ne_nil hname]
    exact hlast
  set start : Reader :=
    { r.commitCode enabledNames with current := ⟨code.name, [], true, true⟩, hasCode := true } with hstart
  have hread : readCodes enabledNames true r (codeLines code ++ rest) =
      readCodes enabledNames true (code.entries.foldl Reader.afterEntry start) rest := by
    rw [codeLines, List.cons_append, List.append_assoc, readCodes, dropCarriageReturn_of_ne hline,
      if_neg (cons_ne_header (by decide) _).2, List.head?_cons, if_neg (by simp), if_neg (by simp),
      if_pos rfl, List.tail_cons]
    dsimp only
    rw [readCodes_entries enabledNames code.entries rfl, List.cons_append, readCodes, if_neg (by decide),
      if_neg (by decide), if_pos (by decide)]
    rfl
  have hnone : start.hasEntry = false := by
    rw [hstart, Reader.commitCode]
    dsimp only
    split
    · rfl
    · split <;> rfl
  have hcommit : (code.entries.foldl Reader.afterEntry start).commitEntry =
      { start with current := ⟨code.name, code.entries, true, true⟩, currentEntry := .default } := by
    rw [commitEntry_foldl_afterEntry, Reader.commitEntry, hnone]
    rfl
  refine ⟨_, hread, ?_⟩
  rw [Reader.commitCode, hcommit]
  dsimp only
  rw [if_neg (by simp [hstart, hname]), if_neg hentries]
  rfl

theorem readCodes_codes (codes : List HideObject) (hnames : ∀ c ∈ codes, c.name ≠ [])
    (hlast : ∀ c ∈ codes, c.name.getLast? ≠ some '\r') (hentries : ∀ c ∈ codes, c.entries ≠ [])
    (r : Reader) :
    ((readCodes enabledNames true r (codes.flatMap codeLines)).commitCode enabledNames).parsed =
      (r.commitCode enabledNames).parsed ++ codes.map (loaded enabledNames) := by
  induction codes generalizing r with
  | nil => rw [List.map_nil, List.append_nil]; rfl
  | cons code codes ih =>
    rw [List.forall_mem_cons] at hnames hlast hentries
    obtain ⟨r', hread, hparsed⟩ := readCodes_codeLines enabledNames hnames.1 hlast.1 hentries.1 r
      (codes.flatMap codeLines)
    rw [List.flatMap_cons, hread, ih hnames.2 hlast.2 hentries.2, hparsed, List.map_cons,
      List.append_assoc, List.singleton_append]

/-! ## The lines outside the sections -/

/-- No line begins one of the two sections. -/
def NoHeader (lines : List Text) : Prop :=
  ∀ line ∈ lines, dropCarriageReturn line ≠ enabledHeader ∧ dropCarriageReturn line ≠ codesHeader

theorem noHeader_linesOutside (skipping : Bool) (lines : List Text) :
    NoHeader (linesOutside skipping lines) := by
  induction lines generalizing skipping with
  | nil => exact fun _ h => absurd h List.not_mem_nil
  | cons line lines ih =>
    rw [linesOutside]
    split
    · exact ih true
    next hheader =>
      split
      · exact ih true
      · exact List.forall_mem_cons.mpr ⟨not_or.mp hheader, ih false⟩

theorem mem_of_mem_linesOutside {skipping : Bool} {line : Text} {lines : List Text}
    (h : line ∈ linesOutside skipping lines) : line ∈ lines := by
  induction lines generalizing skipping with
  | nil => exact absurd h List.not_mem_nil
  | cons first lines ih =>
    rw [linesOutside] at h
    split at h
    · exact List.mem_cons_of_mem first (ih h)
    · split at h
      · exact List.mem_cons_of_mem first (ih h)
      · rcases List.mem_cons.mp h with rfl | h
        · exact List.mem_cons_self
        · exact List.mem_cons_of_mem first (ih h)

theorem linesOutside_append {lines : List Text} (h : NoHeader lines) (rest : List Text) :
    linesOutside false (lines ++ rest) = lines ++ linesOutside false rest := by
  induction lines with
  | nil => rfl
  | cons line lines ih =>
    obtain ⟨hfirst, hlines⟩ := List.forall_mem_cons.mp h
    rw [List.cons_append, linesOutside, if_neg (not_or.mpr hfirst), if_neg (by simp), ih hlines,
      List.cons_append]

/-- Nothing is outside as long as only the two headers begin with a bracket. -/
theorem linesOutside_eq_nil {lines : List Text}
    (h : ∀ line ∈ lines, line = enabledHeader ∨ line = codesHeader ∨
      (dropCarriageReturn line).head? ≠ some '[') :
    linesOutside true lines = [] := by
  induction lines with
  | nil => rfl
  | cons line lines ih =>
    obtain ⟨hfirst, hlines⟩ := List.forall_mem_cons.mp h
    rw [linesOutside]
    rcases hfirst with rfl | rfl | hhead
    · rw [if_pos (by decide)]
      exact ih hlines
    · rw [if_pos (by decide)]
      exact ih hlines
    · split
      · exact ih hlines
      · rw [if_pos ⟨rfl, hhead⟩]
        exact ih hlines

theorem head?_dropCarriageReturn {c : Char} {line : Text} (hc : c ≠ '[') :
    (dropCarriageReturn (c :: line)).head? ≠ some '[' := by
  rw [dropCarriageReturn]
  split
  · cases line <;> simp [hc]
  · simp [hc]

/-- The lines of the sections: the two headers, and lines that do not begin with a bracket. -/
theorem mem_sectionLines {codes : List HideObject} {line : Text} (h : line ∈ sectionLines codes) :
    line = enabledHeader ∨ line = codesHeader ∨ line = [] ∨
      (∃ code ∈ codes, line = '$' :: code.name) ∨
      ∃ code ∈ codes, ∃ entry ∈ code.entries, line ∈ entryLines entry := by
  rw [sectionLines, List.cons_append, List.mem_cons, List.mem_append, List.mem_cons] at h
  rcases h with rfl | h | rfl | h
  · exact Or.inl rfl
  · obtain ⟨code, hcode, rfl⟩ := List.mem_map.mp h
    exact Or.inr (Or.inr (Or.inr (Or.inl ⟨code, (List.mem_filter.mp hcode).1, rfl⟩)))
  · exact Or.inr (Or.inl rfl)
  · obtain ⟨code, hcode, h⟩ := List.mem_flatMap.mp h
    rw [codeLines, List.mem_cons, List.mem_append, List.mem_singleton] at h
    rcases h with rfl | h | rfl
    · exact Or.inr (Or.inr (Or.inr (Or.inl ⟨code, hcode, rfl⟩)))
    · exact Or.inr (Or.inr (Or.inr (Or.inr ⟨code, hcode, List.mem_flatMap.mp h⟩)))
    · exact Or.inr (Or.inr (Or.inl rfl))

theorem linesOutside_sectionLines (skipping : Bool) (codes : List HideObject) :
    linesOutside skipping (sectionLines codes) = [] := by
  have hall : linesOutside true (sectionLines codes) = [] := by
    refine linesOutside_eq_nil fun line h => ?_
    rcases mem_sectionLines h with rfl | rfl | rfl | ⟨code, _, rfl⟩ | ⟨code, _, entry, _, h⟩
    · exact Or.inl rfl
    · exact Or.inr (Or.inl rfl)
    · exact Or.inr (Or.inr (by decide))
    · exact Or.inr (Or.inr (head?_dropCarriageReturn (by decide)))
    · rw [entryLines, List.mem_cons, List.mem_cons, List.mem_singleton] at h
      rcases h with rfl | rfl | rfl <;> exact Or.inr (Or.inr (head?_dropCarriageReturn (by decide)))
  have hheader : dropCarriageReturn enabledHeader = enabledHeader := by decide
  rw [sectionLines, List.cons_append, linesOutside, hheader, if_pos (Or.inl rfl)] at hall ⊢
  exact hall

/-! ## The saved file -/

/-- The lines end in one of the two sections: the last of them that begins with a bracket is its header. -/
def inSection (lines : List Text) : Bool :=
  ((lines.map dropCarriageReturn).filter fun line => line.head? = some '[').getLast?.any fun header =>
    header = enabledHeader || header = codesHeader

/-- The lines of a file that stand in neither section. -/
def outside (file : Option Text) : List Text :=
  match file with
  | none => []
  | some content => ((getlines '\n' content).inits.filter fun lines => !inSection lines).filterMap List.getLast?

theorem inSection_concat (lines : List Text) (line : Text) : inSection (lines ++ [line]) =
    if (dropCarriageReturn line).head? = some '[' then
      dropCarriageReturn line = enabledHeader || dropCarriageReturn line = codesHeader
    else inSection lines := by
  rw [inSection, List.map_append, List.filter_append, List.map_singleton]
  by_cases hbracket : (dropCarriageReturn line).head? = some '['
  · rw [if_pos hbracket, List.filter_cons_of_pos (by simpa using hbracket), List.filter_nil,
      List.getLast?_concat, Option.any_some]
  · rw [if_neg hbracket, List.filter_cons_of_neg (by simpa using hbracket), List.filter_nil, List.append_nil]
    rfl

/-- The line after some others is left out if it stands in a section, and so is what comes next. -/
theorem linesOutside_cons (before : List Text) (line : Text) (lines : List Text) :
    linesOutside (inSection before) (line :: lines) =
      (if inSection (before ++ [line]) then [] else [line]) ++
        linesOutside (inSection (before ++ [line])) lines := by
  rw [inSection_concat, linesOutside]
  by_cases hheader : dropCarriageReturn line = enabledHeader ∨ dropCarriageReturn line = codesHeader
  · have hbracket : (dropCarriageReturn line).head? = some '[' := by
      rcases hheader with h | h <;> rw [h] <;> rfl
    have hin : (decide (dropCarriageReturn line = enabledHeader) ||
        decide (dropCarriageReturn line = codesHeader)) = true := by
      rwa [Bool.or_eq_true, decide_eq_true_iff, decide_eq_true_iff]
    rw [if_pos hheader, if_pos hbracket, hin]
    rfl
  · have hout : (decide (dropCarriageReturn line = enabledHeader) ||
        decide (dropCarriageReturn line = codesHeader)) = false := by
      rwa [Bool.or_eq_false_iff, decide_eq_false_iff_not, decide_eq_false_iff_not, ← not_or]
    rw [if_neg hheader, hout]
    by_cases hbracket : (dropCarriageReturn line).head? = some '['
    · rw [if_neg fun h => h.2 hbracket, if_pos hbracket]
      rfl
    · rw [if_neg hbracket]
      cases inSection before with
      | true => exact if_pos ⟨rfl, hbracket⟩
      | false => exact if_neg fun h => Bool.false_ne_true h.1

theorem filterMap_inits (before lines : List Text) :
    ((lines.inits.map (before ++ ·)).filter fun lines => !inSection lines).filterMap List.getLast? =
      (([before].filter fun lines => !inSection lines).filterMap List.getLast?) ++
        linesOutside (inSection before) lines := by
  induction lines generalizing before with
  | nil =>
    rw [linesOutside, List.append_nil, List.inits, List.map_singleton, List.append_nil]
  | cons line lines ih =>
    have hstep : (line :: lines).inits.map (before ++ ·) =
        [before] ++ lines.inits.map ((before ++ [line]) ++ ·) := by
      rw [List.inits, List.map_cons, List.append_nil, List.map_map]
      refine congrArg (before :: ·) (List.map_congr_left fun rest _ => ?_)
      rw [Function.comp_apply, List.append_assoc, List.singleton_append]
    rw [hstep, List.filter_append, List.filterMap_append, ih, linesOutside_cons]
    refine congrArg _ (congrArg (· ++ _) ?_)
    cases hin : inSection (before ++ [line]) with
    | true =>
      rw [List.filter_cons_of_neg (by simp [hin])]
      rfl
    | false =>
      rw [List.filter_cons_of_pos (by simp [hin]), List.filter_nil, List.filterMap_cons_some List.getLast?_concat]
      rfl

/-- **The loop keeps the lines that stand in neither section.** -/
theorem outside_some (content : Text) : outside (some content) = linesOutside false (getlines '\n' content) := by
  have h := filterMap_inits [] (getlines '\n' content)
  simp only [List.nil_append, List.map_id'] at h
  exact h

/-- What is kept of a file: its lines outside the sections, without the blanks at the end. -/
def keptLines (file : Option Text) : List Text := stripEnd isBlank (outside file)

/-- The last line that is kept is the header of one of the sections. -/
def EndsInHeader (file : Option Text) : Prop :=
  (keptLines file).getLast? = some enabledHeader ∨ (keptLines file).getLast? = some codesHeader

instance (file : Option Text) : Decidable (EndsInHeader file) := inferInstanceAs (Decidable (_ ∨ _))

theorem readFileWithoutHideObjectSections_eq (file : Option Text) :
    readFileWithoutHideObjectSections file = unlines '\n' (outside file) := by
  cases file with
  | none => rfl
  | some content => rw [outside_some, readFileWithoutHideObjectSections]

theorem saveToINI_eq (file : Option Text) (codes : List HideObject) :
    saveToINI file codes = unlines '\n' (keptLines file ++ sectionLines codes) := by
  rw [saveToINI, readFileWithoutHideObjectSections_eq, unlines_append]
  exact congrArg (· ++ _) (rdropWhile_unlines rfl (outside file))

theorem notMem_keptLines {file : Option Text} {line : Text} (h : line ∈ keptLines file) :
    '\n' ∉ line := by
  obtain ⟨l, hl, hstart⟩ := exists_prefix_of_mem_stripEnd h
  cases file with
  | none => exact absurd hl List.not_mem_nil
  | some content =>
    rw [outside_some] at hl
    exact fun hmem => notMem_of_mem_getlines (mem_of_mem_linesOutside hl) (hstart.mem hmem)

/-- The codes that a file keeps: their names are different, not empty and one line each, without a
carriage return at the end, and each code has an entry. -/
structure Saveable (codes : List HideObject) : Prop where
  nodup : (codes.map (·.name)).Nodup
  name_ne_nil : ∀ code ∈ codes, code.name ≠ []
  notMem_name : ∀ code ∈ codes, '\n' ∉ code.name
  getLast_name : ∀ code ∈ codes, code.name.getLast? ≠ some '\r'
  entries_ne_nil : ∀ code ∈ codes, code.entries ≠ []

variable {file : Option Text} {codes : List HideObject}

theorem getlines_saveToINI (hcodes : Saveable codes) :
    getlines '\n' (saveToINI file codes) = keptLines file ++ sectionLines codes := by
  rw [saveToINI_eq]
  refine getlines_unlines fun line h => ?_
  rcases List.mem_append.mp h with h | h
  · exact notMem_keptLines h
  rcases mem_sectionLines h with rfl | rfl | rfl | ⟨code, hcode, rfl⟩ | ⟨code, _, entry, _, h⟩
  · decide
  · decide
  · exact List.not_mem_nil
  · exact List.not_mem_cons_of_ne_of_not_mem (by decide) (hcodes.notMem_name code hcode)
  · exact (notMem_entryLines h).2

theorem dropCarriageReturn_of_stripped {line : Text} (h : line.rdropWhile isBlank = line) :
    dropCarriageReturn line = line := by
  refine dropCarriageReturn_of_ne fun hlast => ?_
  obtain ⟨init, rfl⟩ := List.getLast?_eq_some_iff.mp hlast
  rw [List.rdropWhile_concat_pos _ _ _ (by decide)] at h
  have hlen := ( List.rdropWhile_prefix isBlank init).length_le
  rw [h, List.length_append, List.length_singleton] at hlen
  omega

theorem noHeader_dropLast (file : Option Text) : NoHeader (keptLines file).dropLast := by
  intro line h
  cases file with
  | none => exact absurd h List.not_mem_nil
  | some content =>
    have hline := mem_of_mem_dropLast h
    rw [outside_some] at hline
    exact noHeader_linesOutside false _ line hline

/-- Only the last line that is kept can be a header. -/
theorem noHeader_keptLines_iff (file : Option Text) :
    NoHeader (keptLines file) ↔ ¬EndsInHeader file := by
  rcases List.eq_nil_or_concat' (keptLines file) with hnil | ⟨init, last, hconcat⟩
  · rw [EndsInHeader, hnil]
    exact iff_of_true (fun _ h => absurd h List.not_mem_nil) (by simp)
  have hlast : (keptLines file).getLast? = some last := by rw [hconcat, List.getLast?_concat]
  have hinit : NoHeader init := by
    have hdrop := noHeader_dropLast file
    rwa [hconcat, List.dropLast_concat] at hdrop
  have hsame : dropCarriageReturn last = last :=
    dropCarriageReturn_of_stripped (rdropWhile_of_mem_getLast hlast)
  rw [EndsInHeader, hlast, Option.some_inj, Option.some_inj, not_or, hconcat]
  constructor
  · intro h
    rw [← hsame]
    exact h last (List.mem_append_right init (List.mem_singleton_self last))
  · intro h line hmem
    rcases List.mem_append.mp hmem with hmem | hmem
    · exact hinit line hmem
    · rw [List.mem_singleton.mp hmem, hsame]
      exact h

/-! ## Persistence -/

/-- What a code says: its name, whether it is active, and its entries. -/
def HideObject.content (code : HideObject) : Text × Bool × List HideObjectEntry :=
  (code.name, code.active, code.entries)

/-- The codes are loaded as they were saved, the lines outside the sections keep their text up to
blanks at the end, and a second time the file stays as it is. -/
structure Persists (file : Option Text) (codes : List HideObject) : Prop where
  loads : (loadFromINIFile (some (saveToINI file codes))).entries.map HideObject.content =
    codes.map HideObject.content
  keeps : keptLines (some (saveToINI file codes)) = keptLines file
  stays : saveToINI (some (saveToINI file codes)) codes = saveToINI file codes

/-- The names of the active codes say which codes are active. -/
theorem mem_enabledNames_iff (hnodup : (codes.map (·.name)).Nodup) {code : HideObject}
    (hcode : code ∈ codes) :
    code.name ∈ (codes.filter (·.active)).map (·.name) ↔ code.active = true := by
  constructor
  · intro h
    obtain ⟨other, hother, hname⟩ := List.mem_map.mp h
    obtain ⟨hother, hactive⟩ := List.mem_filter.mp hother
    rwa [← List.inj_on_of_nodup_map hnodup hother hcode hname]
  · exact fun h => List.mem_map_of_mem (List.mem_filter.mpr ⟨hcode, h⟩)

theorem loadFromINIFile_saveToINI (hcodes : Saveable codes) (hfile : NoHeader (keptLines file)) :
    (loadFromINIFile (some (saveToINI file codes))).entries.map HideObject.content =
      codes.map HideObject.content := by
  have henabled : readEnabled false (false, []) (getlines '\n' (saveToINI file codes)) =
      (true, (codes.filter (·.active)).map (·.name)) := by
    rw [getlines_saveToINI hcodes, readEnabled_outside fun l hl => (hfile l hl).1]
    exact readEnabled_sectionLines hcodes.getLast_name hcodes.name_ne_nil
  have hbefore : ∀ l ∈ enabledHeader :: (codes.filter (·.active)).map (fun code => '$' :: code.name),
      dropCarriageReturn l ≠ codesHeader := by
    rw [List.forall_mem_cons]
    refine ⟨by decide, fun l hl => ?_⟩
    obtain ⟨code, _, rfl⟩ := List.mem_map.mp hl
    have hhead := @head?_dropCarriageReturn '$' code.name (by decide)
    intro heq
    rw [heq] at hhead
    exact hhead rfl
  have hparsed : (loadFromINIFile (some (saveToINI file codes))).entries =
      codes.map (loaded ((codes.filter (·.active)).map (·.name))) := by
    rw [loadFromINIFile]
    dsimp only
    rw [henabled, getlines_saveToINI hcodes, readCodes_outside _ fun l hl => (hfile l hl).2, sectionLines,
      readCodes_outside _ hbefore, readCodes, dropCarriageReturn_of_notMem (by decide), if_pos rfl,
      readCodes_codes _ codes hcodes.name_ne_nil hcodes.getLast_name hcodes.entries_ne_nil]
    rfl
  rw [hparsed, List.map_map]
  refine List.map_congr_left fun code hcode => ?_
  have hactive : ((codes.filter (·.active)).map (·.name)).contains code.name = code.active := by
    rw [Bool.eq_iff_iff, List.contains_iff_mem]
    exact mem_enabledNames_iff hcodes.nodup hcode
  rw [Function.comp_apply, loaded, HideObject.content, HideObject.content, hactive]

theorem outside_saveToINI (hcodes : Saveable codes) (hfile : NoHeader (keptLines file)) :
    outside (some (saveToINI file codes)) = keptLines file := by
  rw [outside_some, getlines_saveToINI hcodes, linesOutside_append hfile, linesOutside_sectionLines,
    List.append_nil]

theorem keptLines_saveToINI (hcodes : Saveable codes) (hfile : NoHeader (keptLines file)) :
    keptLines (some (saveToINI file codes)) = keptLines file := by
  rw [keptLines, outside_saveToINI hcodes hfile]
  exact stripEnd_stripEnd (outside file)

theorem persists_of_noHeader (hcodes : Saveable codes) (hfile : NoHeader (keptLines file)) :
    Persists file codes where
  loads := loadFromINIFile_saveToINI hcodes hfile
  keeps := keptLines_saveToINI hcodes hfile
  stays := by rw [saveToINI_eq, keptLines_saveToINI hcodes hfile, ← saveToINI_eq]

/-- A header at the end of what is kept is a header to the next reader: that line is lost. -/
theorem saveToINI_ne_of_endsInHeader (hcodes : Saveable codes) (hfile : EndsInHeader file) :
    saveToINI (some (saveToINI file codes)) codes ≠ saveToINI file codes := by
  obtain ⟨init, header, hkept, hheader⟩ : ∃ init header, keptLines file = init ++ [header] ∧
      (header = enabledHeader ∨ header = codesHeader) := by
    rcases hfile with h | h
    · obtain ⟨init, hinit⟩ := List.getLast?_eq_some_iff.mp h
      exact ⟨init, _, hinit, Or.inl rfl⟩
    · obtain ⟨init, hinit⟩ := List.getLast?_eq_some_iff.mp h
      exact ⟨init, _, hinit, Or.inr rfl⟩
  have hinit : NoHeader init := by
    have hdrop := noHeader_dropLast file
    rwa [hkept, List.dropLast_concat] at hdrop
  have hskip : linesOutside false (header :: sectionLines codes) = [] := by
    have hsame : dropCarriageReturn header = header := by
      rcases hheader with rfl | rfl <;> decide
    rw [linesOutside, hsame, if_pos hheader, linesOutside_sectionLines]
  have houtside : outside (some (saveToINI file codes)) = init := by
    rw [outside_some, getlines_saveToINI hcodes, hkept, List.append_assoc, List.singleton_append,
      linesOutside_append hinit, hskip, List.append_nil]
  intro heq
  have hlines := congrArg (fun s => (getlines '\n' s).length) heq
  rw [getlines_saveToINI hcodes, getlines_saveToINI hcodes, keptLines, houtside, hkept,
    List.length_append, List.length_append, List.length_append, List.length_singleton] at hlines
  have hle := @length_stripEnd_le _ isBlank init
  omega

/-- **Codes persist** exactly when what is kept of the old file does not end in a header. -/
theorem saveToINI_persists_iff (file : Option Text) (codes : List HideObject) (hcodes : Saveable codes) :
    Persists file codes ↔ ¬EndsInHeader file := by
  constructor
  · exact fun hpersists hends => saveToINI_ne_of_endsInHeader hcodes hends hpersists.stays
  · exact fun hends => persists_of_noHeader hcodes ((noHeader_keptLines_iff file).mpr hends)

/-- One code with one entry. -/
def oneCode : List HideObject := [⟨"a".toList, [⟨.bits8, 0, 5⟩], true, true⟩]

theorem saveable_oneCode : Saveable oneCode where
  nodup := List.nodup_singleton _
  name_ne_nil := by simp [oneCode]
  notMem_name := by simp [oneCode]
  getLast_name := by simp [oneCode]
  entries_ne_nil := by simp [oneCode]

/-- A file with other sections around an old code, and blank lines at its end. -/
def otherSections : Text :=
  "[Core]\nCPUThread = True\n[HideObjectCodes]\n$old\nType=8bits\n[Video]\nSafe = 1\n\n \n".toList

theorem saveToINI_persists_iff_otherSections :
    keptLines (some otherSections) =
        ["[Core]".toList, "CPUThread = True".toList, "[Video]".toList, "Safe = 1".toList] ∧
      Persists (some otherSections) oneCode :=
  ⟨by decide +kernel, (saveToINI_persists_iff (some otherSections) oneCode saveable_oneCode).mpr
    (by decide +kernel)⟩

/-- A file with nothing but the header of the codes and a blank behind it: the blank goes, and the
reader takes the line for the section. -/
theorem not_persists_blank_header :
    Saveable oneCode ∧
      saveToINI (some "[HideObjectCodes] ".toList) oneCode =
        "[HideObjectCodes]\n".toList ++ saveToINI none oneCode ∧
      (loadFromINIFile (some (saveToINI (some "[HideObjectCodes] ".toList) oneCode))).entries.length = 0 ∧
      ¬Persists (some "[HideObjectCodes] ".toList) oneCode := by
  have hlost : (loadFromINIFile (some (saveToINI (some "[HideObjectCodes] ".toList) oneCode))).entries.length =
      0 := by decide +kernel
  refine ⟨saveable_oneCode, by decide +kernel, hlost, fun hpersists => ?_⟩
  have hlen := congrArg List.length hpersists.loads
  rw [List.length_map, List.length_map, hlost] at hlen
  exact absurd hlen (by decide)

end HideObjectEngine
