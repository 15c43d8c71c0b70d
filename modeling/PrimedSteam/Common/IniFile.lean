import PrimedSteam.Lib.TextLines
import PrimedSteam.Common.StringUtil

/-!
# Configuration files

`IniFile::Load` and `IniFile::Save` on texts.

* `Section.Loaded`: what every section of a loaded file satisfies (`load_loaded`).
* `Section.Plain`: a section that `Save` writes in full.
* `load_save`: plain sections that are saved are loaded again.
-/

set_option autoImplicit false

namespace IniFile

open StringUtil TextLines

/-! ## Sections -/

/-- `values` are the keys with their values in the order of `keys_order`, the keys in the spelling
of their first line. -/
structure Section where
  name : Text
  values : List (Text × Text)
  lines : List Text
deriving DecidableEq

/-- `Section::Set` -/
def Section.set (s : Section) (key new_value : Text) : Section :=
  if s.values.any fun e => caseInsensitiveEquals e.1 key then
    { s with values := s.values.map fun e =>
        if caseInsensitiveEquals e.1 key then (e.1, new_value) else e }
  else { s with values := s.values ++ [(key, new_value)] }

/-- `Section::Get` -/
def Section.get (s : Section) (key : Text) : Option Text :=
  (s.values.find? fun e => caseInsensitiveEquals e.1 key).map Prod.snd

def Section.nonEmpty (s : Section) : Bool := !s.values.isEmpty || !s.lines.isEmpty

/-- `ParseLine`, of which the key and the value are empty in a line without any. -/
def parseLine (line : Text) : Text × Text :=
  if line = [] ∨ line.head? = some '#' then ([], [])
  else if '=' ∈ line then
    (stripWhitespace (line.takeWhile (· ≠ '=')),
      stripQuotes (stripWhitespace (line.dropWhile (· ≠ '=')).tail))
  else ([], [])

/-- `GetOrCreateSection`, of which the place of the section is the result. -/
def getOrCreateSection (sections : List Section) (section_name : Text) : List Section × ℕ :=
  let i := sections.findIdx fun s => caseInsensitiveEquals s.name section_name
  if i < sections.length then (sections, i)
  else (sections ++ [⟨section_name, [], []⟩], sections.length)

/-! ## Loading -/

/-- A line that is kept verbatim. -/
def IsRaw (line : Text) : Prop :=
  parseLine line = ([], []) ∨
    line.head? = some '$' ∨ line.head? = some '+' ∨ line.head? = some '*'

instance (line : Text) : Decidable (IsRaw line) := inferInstanceAs (Decidable (_ ∨ _))

def Section.addLine (line : Text) (s : Section) : Section :=
  if IsRaw line then { s with lines := s.lines ++ [line] }
  else s.set (parseLine line).1 (parseLine line).2

/-- One line of `Load`, from the sections so far and the place of the current one. -/
def loadLine (st : List Section × Option ℕ) (line : Text) : List Section × Option ℕ :=
  if line = [] then st
  else if line.head? = some '[' then
    if ']' ∈ line then
      let created := getOrCreateSection st.1 (line.tail.takeWhile (· ≠ ']'))
      (created.1, some created.2)
    else st
  else
    match st.2 with
    | none => st
    | some current_section => (st.1.modify current_section (Section.addLine line), st.2)

/-- Notepad likes to add a mark at the start of files. -/
def removeBom (line : Text) : Text :=
  if line.take 3 = ['\xEF', '\xBB', '\xBF'] then line.drop 3 else line

def removeCr (line : Text) : Text := if line.getLast? = some '\r' then line.dropLast else line

/-- The lines that `Load` reads from a file. -/
def fileLines (text : Text) : List Text :=
  match getlines '\n' text with
  | [] => []
  | first :: rest => (removeBom first :: rest).map removeCr

/-- `IniFile::Load` -/
def load (text : Text) : List Section := ((fileLines text).foldl loadLine ([], none)).1

/-! ## Saving -/

def entryLine (e : Text × Text) : Text := e.1 ++ [' ', '=', ' '] ++ e.2

/-- The lines of a section in `Save`: its keys, or its raw lines where it has no keys. -/
def saveSection (s : Section) : List Text :=
  (if s.nonEmpty then ['[' :: s.name ++ [']']] else []) ++
    if s.values = [] then s.lines else s.values.map entryLine

/-- `IniFile::Save` -/
def save (sections : List Section) : Text := unlines '\n' (sections.flatMap saveSection)

/-! ## What loading gives -/

/-- A section of a file that is loaded. -/
structure Section.Loaded (s : Section) : Prop where
  name_bracket : ']' ∉ s.name
  name_line : '\n' ∉ s.name
  key_equals : ∀ e ∈ s.values, '=' ∉ e.1
  key_line : ∀ e ∈ s.values, '\n' ∉ e.1
  key_stripped : ∀ e ∈ s.values, stripWhitespace e.1 = e.1
  value_line : ∀ e ∈ s.values, '\n' ∉ e.2
  entry : ∀ e ∈ s.values, e.1 = [] → e.2 ≠ []
  keys : s.values.Pairwise fun a b => caseInsensitiveEquals a.1 b.1 = false
  lines_ne : ∀ line ∈ s.lines, line ≠ []
  lines_line : ∀ line ∈ s.lines, '\n' ∉ line
  lines_head : ∀ line ∈ s.lines, line.head? ≠ some '['
  lines_raw : ∀ line ∈ s.lines, IsRaw line

/-- The sections of a file that is loaded, of which no two names are equal without their case. -/
structure Loaded (sections : List Section) : Prop where
  loaded : ∀ s ∈ sections, s.Loaded
  names : sections.Pairwise fun s t => caseInsensitiveEquals s.name t.name = false

theorem loaded_nil : Loaded [] := ⟨List.forall_mem_nil _, List.Pairwise.nil⟩

theorem loaded_new {name : Text} (hbracket : ']' ∉ name) (hline : '\n' ∉ name) :
    (⟨name, [], []⟩ : Section).Loaded where
  name_bracket := hbracket
  name_line := hline
  key_equals := List.forall_mem_nil _
  key_line := List.forall_mem_nil _
  key_stripped := List.forall_mem_nil _
  value_line := List.forall_mem_nil _
  entry := List.forall_mem_nil _
  keys := List.Pairwise.nil
  lines_ne := List.forall_mem_nil _
  lines_line := List.forall_mem_nil _
  lines_head := List.forall_mem_nil _
  lines_raw := List.forall_mem_nil _

theorem caseInsensitiveEquals_nil_right (a : Text) : caseInsensitiveEquals a [] = true ↔ a = [] := by
  simp [caseInsensitiveEquals_iff]

theorem caseInsensitiveEquals_nil_left (a : Text) : caseInsensitiveEquals [] a = true ↔ a = [] := by
  rw [caseInsensitiveEquals_comm, caseInsensitiveEquals_nil_right]

/-- An entry after `Set` is an entry before, the new one, or one with the new value. -/
theorem mem_set_values {s : Section} {key value : Text} {e : Text × Text}
    (h : e ∈ (s.set key value).values) :
    e ∈ s.values ∨ e = (key, value) ∨
      (∃ old ∈ s.values, e = (old.1, value) ∧ caseInsensitiveEquals old.1 key = true) := by
  rw [Section.set] at h
  split at h
  · obtain ⟨old, hold, rfl⟩ := List.mem_map.mp h
    by_cases heq : caseInsensitiveEquals old.1 key = true
    · exact .inr (.inr ⟨old, hold, if_pos heq, heq⟩)
    · exact .inl (by rwa [if_neg heq])
  · rcases List.mem_append.mp h with h | h
    · exact .inl h
    · exact .inr (.inl (List.mem_singleton.mp h))

theorem set_keys {s : Section} (h : s.values.Pairwise fun a b => caseInsensitiveEquals a.1 b.1 = false)
    (key value : Text) :
    (s.set key value).values.Pairwise fun a b => caseInsensitiveEquals a.1 b.1 = false := by
  rw [Section.set]
  split
  · refine List.pairwise_map.mpr (h.imp fun {a b} hab => ?_)
    have hfst : ∀ e : Text × Text,
        (if caseInsensitiveEquals e.1 key then (e.1, value) else e).1 = e.1 := by
      intro e
      split <;> rfl
    rw [hfst, hfst]
    exact hab
  · next hnone =>
    refine List.pairwise_append.mpr ⟨h, List.pairwise_singleton _ _, ?_⟩
    intro a ha b hb
    rw [List.mem_singleton.mp hb]
    simpa using fun heq => hnone (List.any_eq_true.mpr ⟨a, ha, heq⟩)

@[simp]
theorem set_name (s : Section) (key value : Text) : (s.set key value).name = s.name := by
  rw [Section.set]
  split <;> rfl

@[simp]
theorem set_lines (s : Section) (key value : Text) : (s.set key value).lines = s.lines := by
  rw [Section.set]
  split <;> rfl

@[simp]
theorem addLine_name (line : Text) (s : Section) : (s.addLine line).name = s.name := by
  rw [Section.addLine]
  split <;> simp

theorem Section.Loaded.set {s : Section} (h : s.Loaded) {key value : Text} (hequals : '=' ∉ key)
    (hkey : '\n' ∉ key) (hstrip : stripWhitespace key = key) (hvalue : '\n' ∉ value)
    (hne : key = [] → value ≠ []) : (s.set key value).Loaded where
  name_bracket := by simpa using h.name_bracket
  name_line := by simpa using h.name_line
  key_equals := by
    intro e he
    rcases mem_set_values he with he | rfl | ⟨old, hold, rfl, -⟩
    · exact h.key_equals e he
    · exact hequals
    · exact h.key_equals old hold
  key_line := by
    intro e he
    rcases mem_set_values he with he | rfl | ⟨old, hold, rfl, -⟩
    · exact h.key_line e he
    · exact hkey
    · exact h.key_line old hold
  key_stripped := by
    intro e he
    rcases mem_set_values he with he | rfl | ⟨old, hold, rfl, -⟩
    · exact h.key_stripped e he
    · exact hstrip
    · exact h.key_stripped old hold
  value_line := by
    intro e he
    rcases mem_set_values he with he | rfl | ⟨old, hold, rfl, -⟩
    · exact h.value_line e he
    · exact hvalue
    · exact hvalue
  entry := by
    intro e he
    rcases mem_set_values he with he | rfl | ⟨old, hold, rfl, heq⟩
    · exact h.entry e he
    · exact hne
    · intro hold
      rw [hold, caseInsensitiveEquals_nil_left] at heq
      exact hne heq
  keys := set_keys h.keys key value
  lines_ne := by simpa using h.lines_ne
  lines_line := by simpa using h.lines_line
  lines_head := by simpa using h.lines_head
  lines_raw := by simpa using h.lines_raw

theorem notMem_stripWhitespace {s : Text} {c : Char} (h : c ∉ s) : c ∉ stripWhitespace s :=
  fun hc => h ((stripWhitespace_sublist s).subset hc)

theorem stripQuotes_sublist (s : Text) : (stripQuotes s).Sublist s := by
  rw [stripQuotes]
  split
  · exact ( List.dropLast_sublist _).trans (List.tail_sublist s)
  · exact List.Sublist.refl s

/-- The key and the value of a line with its end removed. -/
theorem parseLine_spec {line : Text} (h : '\n' ∉ line) :
    '=' ∉ (parseLine line).1 ∧ '\n' ∉ (parseLine line).1 ∧
      stripWhitespace (parseLine line).1 = (parseLine line).1 ∧ '\n' ∉ (parseLine line).2 := by
  have hempty : '=' ∉ ([] : Text) ∧ '\n' ∉ ([] : Text) ∧ stripWhitespace [] = [] ∧ '\n' ∉ ([] : Text) :=
    ⟨List.not_mem_nil, List.not_mem_nil, rfl, List.not_mem_nil⟩
  rw [parseLine]
  split
  · exact hempty
  split
  · refine ⟨notMem_stripWhitespace ?_, notMem_stripWhitespace ?_, stripWhitespace_stripWhitespace _, ?_⟩
    · intro hc
      simpa using List.mem_takeWhile_imp hc
    · exact fun hc => h ((List.takeWhile_sublist _).subset hc)
    · intro hc
      exact notMem_stripWhitespace
        (fun hc => h (((List.tail_sublist _).trans (List.dropWhile_sublist _)).subset hc))
        ((stripQuotes_sublist _).subset hc)
  · exact hempty

theorem Section.Loaded.addLine {s : Section} (h : s.Loaded) {line : Text} (hne : line ≠ [])
    (hline : '\n' ∉ line) (hhead : line.head? ≠ some '[') : (s.addLine line).Loaded := by
  rw [Section.addLine]
  split
  · next hraw =>
    exact { h with
      lines_ne := List.forall_mem_append.mpr ⟨h.lines_ne, List.forall_mem_singleton.mpr hne⟩
      lines_line := List.forall_mem_append.mpr ⟨h.lines_line, List.forall_mem_singleton.mpr hline⟩
      lines_head := List.forall_mem_append.mpr ⟨h.lines_head, List.forall_mem_singleton.mpr hhead⟩
      lines_raw := List.forall_mem_append.mpr ⟨h.lines_raw, List.forall_mem_singleton.mpr hraw⟩ }
  · next hraw =>
    obtain ⟨hequals, hkey, hstrip, hvalue⟩ := parseLine_spec hline
    refine h.set hequals hkey hstrip hvalue fun hfst hsnd => hraw (.inl ?_)
    exact Prod.ext hfst hsnd

theorem forall_mem_modify {α : Type*} {p : α → Prop} {l : List α} (h : ∀ a ∈ l, p a) {f : α → α}
    (hf : ∀ a, p a → p (f a)) (i : ℕ) : ∀ a ∈ l.modify i f, p a := by
  intro a ha
  obtain ⟨j, hj, rfl⟩ := List.getElem_of_mem ha
  rw [List.getElem_modify]
  split
  · exact hf _ (h _ (List.getElem_mem _))
  · exact h _ (List.getElem_mem _)

theorem map_name_modify (sections : List Section) (i : ℕ) {f : Section → Section}
    (hf : ∀ s, (f s).name = s.name) : (sections.modify i f).map (·.name) = sections.map (·.name) := by
  apply List.ext_getElem
  · simp
  · intro j h₁ h₂
    rw [List.getElem_map, List.getElem_map, List.getElem_modify]
    split
    · rw [hf]
    · rfl

theorem names_iff (sections : List Section) :
    (sections.Pairwise fun s t => caseInsensitiveEquals s.name t.name = false) ↔
      (sections.map (·.name)).Pairwise fun a b => caseInsensitiveEquals a b = false := by
  rw [List.pairwise_map]

theorem Loaded.getOrCreateSection {sections : List Section} (h : Loaded sections) {name : Text}
    (hbracket : ']' ∉ name) (hline : '\n' ∉ name) : Loaded (getOrCreateSection sections name).1 := by
  rw [IniFile.getOrCreateSection]
  split
  · exact h
  · next hnone =>
    have hnew : ∀ s ∈ sections, caseInsensitiveEquals s.name name = false := by
      rw [List.findIdx_lt_length, not_exists] at hnone
      intro s hs
      simpa using fun heq => hnone s ⟨hs, heq⟩
    refine ⟨List.forall_mem_append.mpr ⟨h.loaded,
      List.forall_mem_singleton.mpr (loaded_new hbracket hline)⟩, List.pairwise_append.mpr
        ⟨h.names, List.pairwise_singleton _ _, fun s hs t ht => ?_⟩⟩
    rw [List.mem_singleton.mp ht]
    exact hnew s hs

theorem Loaded.loadLine {st : List Section × Option ℕ} (h : Loaded st.1) {line : Text}
    (hline : '\n' ∉ line) : Loaded (loadLine st line).1 := by
  rw [IniFile.loadLine]
  split
  · exact h
  · next hne =>
    split
    · split
      · refine h.getOrCreateSection ?_ ?_
        · intro hc
          simpa using List.mem_takeWhile_imp hc
        · exact fun hc => hline (((List.takeWhile_sublist _).trans (List.tail_sublist _)).subset hc)
      · exact h
    · next hhead =>
      split
      · exact h
      · refine ⟨forall_mem_modify h.loaded (fun s hs => hs.addLine hne hline hhead) _, ?_⟩
        rw [names_iff, map_name_modify _ _ (addLine_name line), ← names_iff]
        exact h.names

theorem Loaded.foldl {lines : List Text} (hlines : ∀ line ∈ lines, '\n' ∉ line)
    {st : List Section × Option ℕ} (h : Loaded st.1) : Loaded (lines.foldl IniFile.loadLine st).1 := by
  induction lines generalizing st with
  | nil => exact h
  | cons line lines ih =>
    rw [List.forall_mem_cons] at hlines
    exact ih hlines.2 (h.loadLine hlines.1)

theorem removeCr_sublist (line : Text) : (removeCr line).Sublist line := by
  rw [removeCr]
  split
  · exact List.dropLast_sublist line
  · exact List.Sublist.refl line

theorem removeBom_sublist (line : Text) : (removeBom line).Sublist line := by
  rw [removeBom]
  split
  · exact List.drop_sublist 3 line
  · exact List.Sublist.refl line

theorem notMem_of_mem_fileLines {text line : Text} (h : line ∈ fileLines text) : '\n' ∉ line := by
  rw [fileLines] at h
  split at h
  · exact absurd h List.not_mem_nil
  · next first rest heq =>
    obtain ⟨read, hread, rfl⟩ := List.mem_map.mp h
    intro hc
    have hmem := (removeCr_sublist read).subset hc
    rcases List.mem_cons.mp hread with rfl | hread
    · exact notMem_of_mem_getlines (heq ▸ List.mem_cons_self) ((removeBom_sublist first).subset hmem)
    · exact notMem_of_mem_getlines (heq ▸ List.mem_cons_of_mem first hread) hmem

theorem load_loaded (text : Text) : Loaded (load text) :=
  loaded_nil.foldl fun _ => notMem_of_mem_fileLines

/-! ## What saving keeps -/

/-- A section whose lines `Save` writes in a form that `Load` reads as they are. -/
structure Section.Plain (s : Section) : Prop where
  unmixed : s.values = [] ∨ s.lines = []
  key_head : ∀ e ∈ s.values, ∀ c ∈ e.1.head?, c ∉ ['[', '#', '$', '+', '*']
  value_stripped : ∀ e ∈ s.values, stripQuotes (stripWhitespace e.2) = e.2
  lines_end : ∀ line ∈ s.lines, line.getLast? ≠ some '\r'

theorem stripWhitespace_eq_of_stripQuotes {v : Text} (h : stripQuotes (stripWhitespace v) = v) :
    stripWhitespace v = v := by
  have hle : v.Sublist (stripWhitespace v) := by
    conv_lhs => rw [← h]
    exact stripQuotes_sublist _
  exact (stripWhitespace_sublist v).antisymm hle

theorem parseLine_entryLine {e : Text × Text} (hequals : '=' ∉ e.1)
    (hstrip : stripWhitespace e.1 = e.1) (hhash : e.1.head? ≠ some '#')
    (hvalue : stripQuotes (stripWhitespace e.2) = e.2) : parseLine (entryLine e) = e := by
  have hkey : (entryLine e).takeWhile (· ≠ '=') = e.1 ++ [' '] := by
    rw [entryLine, List.append_assoc, List.takeWhile_append_of_pos]
    · rfl
    · intro c hc
      exact decide_eq_true fun heq => hequals (heq ▸ hc)
  have hrest : (entryLine e).dropWhile (· ≠ '=') = '=' :: ' ' :: e.2 := by
    rw [entryLine, List.append_assoc, List.dropWhile_append_of_pos]
    · rfl
    · intro c hc
      exact decide_eq_true fun heq => hequals (heq ▸ hc)
  have hmem : '=' ∈ entryLine e := by simp [entryLine]
  have hhead : (entryLine e).head? ≠ some '#' := by
    rw [entryLine, List.append_assoc]
    cases he : e.1 with
    | nil => simp
    | cons c key =>
      rw [he] at hhash
      exact hhash
  rw [parseLine, if_neg (by simp [hhead, List.ne_nil_of_mem hmem]), if_pos hmem, hkey, hrest,
    stripWhitespace_concat (by rfl), hstrip, List.tail_cons, stripWhitespace_cons (by rfl), hvalue]

theorem head?_entryLine {e : Text × Text} {p : Char → Prop} (hspace : p ' ')
    (hhead : ∀ c ∈ e.1.head?, p c) : ∀ c ∈ (entryLine e).head?, p c := by
  intro c hc
  rw [entryLine, List.append_assoc] at hc
  cases he : e.1 with
  | nil =>
    rw [he] at hc
    obtain rfl : ' ' = c := Option.some_inj.mp hc
    exact hspace
  | cons d key =>
    rw [he] at hc hhead
    exact hhead c hc

theorem modify_append_length {α : Type*} (l : List α) (a : α) (f : α → α) :
    (l ++ [a]).modify l.length f = l ++ [f a] := by
  induction l with
  | nil => rfl
  | cons b l ih => rw [List.cons_append, List.length_cons, List.modify_succ_cons, ih, List.cons_append]

theorem loadLine_last {sections : List Section} {s : Section} {line : Text} (hne : line ≠ [])
    (hhead : line.head? ≠ some '[') :
    loadLine (sections ++ [s], some sections.length) line =
      (sections ++ [s.addLine line], some sections.length) := by
  rw [loadLine, if_neg hne, if_neg hhead]
  simp only [modify_append_length]

/-- The line of a name that is new opens a section behind the others. -/
theorem loadLine_name {sections : List Section} {current : Option ℕ} {name : Text}
    (hbracket : ']' ∉ name)
    (hnew : ∀ s ∈ sections, caseInsensitiveEquals s.name name = false) :
    loadLine (sections, current) ('[' :: name ++ [']']) =
      (sections ++ [⟨name, [], []⟩], some sections.length) := by
  have hname : (name ++ [']']).takeWhile (· ≠ ']') = name := by
    rw [List.takeWhile_append_of_pos]
    · simp
    · intro c hc
      exact decide_eq_true fun heq => hbracket (heq ▸ hc)
  have hnone : ¬sections.findIdx (fun s => caseInsensitiveEquals s.name name) < sections.length := by
    rw [List.findIdx_lt_length, not_exists]
    rintro s ⟨hs, heq⟩
    rw [hnew s hs] at heq
    cases heq
  rw [loadLine, if_neg (by simp), if_pos (by simp), if_pos (by simp), getOrCreateSection]
  simp only [List.cons_append, List.tail_cons, hname, if_neg hnone]

/-- The raw lines of a section are added one after the other. -/
theorem foldl_lines {lines : List Text} (hne : ∀ line ∈ lines, line ≠ [])
    (hhead : ∀ line ∈ lines, line.head? ≠ some '[') (hraw : ∀ line ∈ lines, IsRaw line)
    (sections : List Section) (s : Section) :
    lines.foldl loadLine (sections ++ [s], some sections.length) =
      (sections ++ [{ s with lines := s.lines ++ lines }], some sections.length) := by
  induction lines generalizing s with
  | nil => simp
  | cons line lines ih =>
    rw [List.forall_mem_cons] at hne hhead hraw
    rw [List.foldl_cons, loadLine_last hne.1 hhead.1, Section.addLine, if_pos hraw.1,
      ih hne.2 hhead.2 hraw.2]
    simp

theorem addLine_entryLine {s : Section} {e : Text × Text} (hequals : '=' ∉ e.1)
    (hstrip : stripWhitespace e.1 = e.1) (hhead : ∀ c ∈ e.1.head?, c ∉ ['[', '#', '$', '+', '*'])
    (hvalue : stripQuotes (stripWhitespace e.2) = e.2) (hentry : e.1 = [] → e.2 ≠ [])
    (hnew : ∀ old ∈ s.values, caseInsensitiveEquals old.1 e.1 = false) :
    s.addLine (entryLine e) = { s with values := s.values ++ [e] } := by
  have hparse : parseLine (entryLine e) = e := by
    refine parseLine_entryLine hequals hstrip (fun hhash => ?_) hvalue
    exact hhead '#' hhash (by simp)
  have hraw : ¬IsRaw (entryLine e) := by
    rintro (hnil | hmark)
    · rw [hparse] at hnil
      exact hentry (congrArg Prod.fst hnil) (congrArg Prod.snd hnil)
    · have hnot := @head?_entryLine e (· ∉ ['[', '#', '$', '+', '*']) (by simp) hhead
      rcases hmark with hmark | hmark | hmark
      · exact hnot _ hmark (by simp)
      · exact hnot _ hmark (by simp)
      · exact hnot _ hmark (by simp)
  have hnone : ¬(s.values.any fun old => caseInsensitiveEquals old.1 e.1) = true := by
    rw [List.any_eq_true]
    rintro ⟨old, hold, heq⟩
    rw [hnew old hold] at heq
    cases heq
  rw [Section.addLine, if_neg hraw, hparse, Section.set, if_neg hnone]

theorem foldl_entries {entries : List (Text × Text)} (sections : List Section) (s : Section)
    (hequals : ∀ e ∈ entries, '=' ∉ e.1) (hstrip : ∀ e ∈ entries, stripWhitespace e.1 = e.1)
    (hhead : ∀ e ∈ entries, ∀ c ∈ e.1.head?, c ∉ ['[', '#', '$', '+', '*'])
    (hvalue : ∀ e ∈ entries, stripQuotes (stripWhitespace e.2) = e.2)
    (hentry : ∀ e ∈ entries, e.1 = [] → e.2 ≠ [])
    (hkeys : (s.values ++ entries).Pairwise fun a b => caseInsensitiveEquals a.1 b.1 = false) :
    (entries.map entryLine).foldl loadLine (sections ++ [s], some sections.length) =
      (sections ++ [{ s with values := s.values ++ entries }], some sections.length) := by
  induction entries generalizing s with
  | nil => simp
  | cons e entries ih =>
    rw [List.forall_mem_cons] at hequals hstrip hhead hvalue hentry
    have hnew : ∀ old ∈ s.values, caseInsensitiveEquals old.1 e.1 = false := by
      intro old hold
      exact (List.pairwise_append.mp hkeys).2.2 old hold e List.mem_cons_self
    have hbracket : (entryLine e).head? ≠ some '[' := by
      intro hc
      exact @head?_entryLine e (· ∉ ['[', '#', '$', '+', '*']) (by simp) hhead.1 '[' hc (by simp)
    rw [List.map_cons, List.foldl_cons, loadLine_last (by simp [entryLine]) hbracket,
      addLine_entryLine hequals.1 hstrip.1 hhead.1 hvalue.1 hentry.1 hnew,
      ih _ hequals.2 hstrip.2 hhead.2 hvalue.2 hentry.2 (by simpa using hkeys)]
    simp

/-- A section that is saved is loaded behind the sections before it. -/
theorem foldl_saveSection {s : Section} (h : s.Loaded) (hplain : s.Plain) (hne : s.nonEmpty = true)
    {sections : List Section} (current : Option ℕ)
    (hnew : ∀ t ∈ sections, caseInsensitiveEquals t.name s.name = false) :
    (saveSection s).foldl loadLine (sections, current) = (sections ++ [s], some sections.length) := by
  rw [saveSection, if_pos hne, List.singleton_append, List.foldl_cons,
    loadLine_name h.name_bracket hnew]
  split
  · next hvalues =>
    rw [foldl_lines h.lines_ne h.lines_head h.lines_raw]
    rw [← hvalues]
    simp
  · next hvalues =>
    have hlines := hplain.unmixed.resolve_left hvalues
    rw [foldl_entries _ _ h.key_equals h.key_stripped hplain.key_head hplain.value_stripped h.entry
      (by simpa using h.keys), ← hlines]
    simp

theorem saveSection_of_empty {s : Section} (h : s.nonEmpty = false) : saveSection s = [] := by
  simp only [Section.nonEmpty, Bool.or_eq_false_iff, Bool.not_eq_false', List.isEmpty_iff] at h
  simp [saveSection, Section.nonEmpty, h.1, h.2]

theorem foldl_sections {rest : List Section} (hplain : ∀ s ∈ rest, s.Plain)
    {sections : List Section} (h : Loaded (sections ++ rest)) (current : Option ℕ) :
    ((rest.flatMap saveSection).foldl loadLine (sections, current)).1 =
      sections ++ rest.filter Section.nonEmpty := by
  induction rest generalizing sections current with
  | nil => simp
  | cons s rest ih =>
    rw [List.forall_mem_cons] at hplain
    rw [List.flatMap_cons, List.foldl_append]
    cases hne : s.nonEmpty with
    | false =>
      rw [saveSection_of_empty hne, List.foldl_nil, ih hplain.2 ?_, List.filter_cons_of_neg (by simp [hne])]
      exact ⟨fun t ht => h.loaded t (by simp at ht ⊢; tauto),
        h.names.sublist ((List.sublist_cons_self s rest).append_left sections)⟩
    | true =>
      have hs := h.loaded s (by simp)
      have hnew : ∀ t ∈ sections, caseInsensitiveEquals t.name s.name = false := by
        intro t ht
        exact (List.pairwise_append.mp h.names).2.2 t ht s List.mem_cons_self
      rw [foldl_saveSection hs hplain.1 hne current hnew, ih hplain.2 (by simpa using h),
        List.filter_cons_of_pos hne]
      simp

/-- The lines that are saved are whole lines without any mark of an end before their end. -/
theorem mem_saveSection {s : Section} (h : s.Loaded) (hplain : s.Plain) {line : Text}
    (hline : line ∈ saveSection s) : '\n' ∉ line ∧ line.getLast? ≠ some '\r' := by
  rw [saveSection, List.mem_append] at hline
  rcases hline with hline | hline
  · split at hline
    · rw [List.mem_singleton.mp hline]
      constructor
      · simpa using h.name_line
      · rw [List.getLast?_concat]
        decide
    · exact absurd hline List.not_mem_nil
  · split at hline
    · exact ⟨h.lines_line line hline, hplain.lines_end line hline⟩
    · obtain ⟨e, he, rfl⟩ := List.mem_map.mp hline
      constructor
      · simp [entryLine, h.key_line e he, h.value_line e he]
      · rcases List.eq_nil_or_concat' e.2 with hnil | ⟨start, c, hc⟩
        · simp [entryLine, hnil]
        · have hends := (stripWhitespace_ends e.2).2 c
          rw [stripWhitespace_eq_of_stripQuotes (hplain.value_stripped e he), hc,
            List.getLast?_concat] at hends
          rw [entryLine, hc, ← List.append_assoc, List.getLast?_concat]
          rintro ⟨⟩
          exact absurd (hends rfl) (by decide)

theorem removeCr_of_getLast? {line : Text} (h : line.getLast? ≠ some '\r') : removeCr line = line :=
  if_neg h

theorem head?_flatMap_saveSection {sections : List Section} {line : Text}
    (h : (sections.flatMap saveSection).head? = some line) : line.head? = some '[' := by
  induction sections with
  | nil => cases h
  | cons s sections ih =>
    rw [List.flatMap_cons] at h
    cases hne : s.nonEmpty with
    | false =>
      rw [saveSection_of_empty hne] at h
      exact ih h
    | true =>
      rw [saveSection, if_pos hne] at h
      obtain rfl := Option.some_inj.mp h
      rfl

theorem removeBom_of_head? {line : Text} (h : line.head? = some '[') : removeBom line = line := by
  cases line with
  | nil => cases h
  | cons c line =>
    obtain rfl : c = '[' := Option.some_inj.mp h
    exact if_neg (by simp)

theorem fileLines_save {sections : List Section} (h : ∀ s ∈ sections, s.Loaded)
    (hplain : ∀ s ∈ sections, s.Plain) :
    fileLines (save sections) = sections.flatMap saveSection := by
  have hlines : ∀ line ∈ sections.flatMap saveSection, '\n' ∉ line ∧ line.getLast? ≠ some '\r' := by
    intro line hline
    obtain ⟨s, hs, hline⟩ := List.mem_flatMap.mp hline
    exact mem_saveSection (h s hs) (hplain s hs) hline
  rw [fileLines, save, getlines_unlines fun line hline => (hlines line hline).1]
  cases hall : sections.flatMap saveSection with
  | nil => rfl
  | cons first rest =>
    have hhead := @head?_flatMap_saveSection sections first (by rw [hall]; rfl)
    rw [hall] at hlines
    simp only [removeBom_of_head? hhead]
    exact (List.map_congr_left fun line hline => removeCr_of_getLast? (hlines line hline).2).trans
      (List.map_id _)

/-- Plain sections that are saved are loaded again, the empty ones apart. -/
theorem load_save {sections : List Section} (h : Loaded sections)
    (hplain : ∀ s ∈ sections, s.Plain) :
    load (save sections) = sections.filter Section.nonEmpty := by
  rw [load, fileLines_save h.loaded hplain, foldl_sections hplain (by simpa using h)]
  simp

/-- Loading, saving and loading again gives the same non-empty sections in the same order, with the
same keys, values and raw lines. -/
def Kept (text : Text) : Prop :=
  (load (save (load text))).filter Section.nonEmpty = (load text).filter Section.nonEmpty

instance (text : Text) : Decidable (Kept text) := inferInstanceAs (Decidable (_ = _))

theorem kept_of_plain (text : Text) (hplain : ∀ s ∈ load text, s.Plain) : Kept text := by
  rw [Kept, load_save (load_loaded text) hplain, List.filter_filter]
  simp

/-- A section of keys and one of raw lines. -/
theorem kept_of_plain_settings_cheats : Kept "[Settings]\nWidth = 640\n[Cheats]\n$Warp\n".toList := by
  refine kept_of_plain _ fun s hs => ?_
  have hload : load "[Settings]\nWidth = 640\n[Cheats]\n$Warp\n".toList =
      [⟨"Settings".toList, [("Width".toList, "640".toList)], []⟩,
        ⟨"Cheats".toList, [], ["$Warp".toList]⟩] := by decide +kernel
  rw [hload] at hs
  rcases List.mem_pair.mp hs with rfl | rfl
  · exact ⟨.inr rfl, by simp, by simp; decide, by simp⟩
  · exact ⟨.inl rfl, by simp, by simp, by simp⟩

/-- Raw lines of a section that has keys are lost, so is a key that is read from behind a blank and
begins as another kind of line; a value loses another pair of quotes, or the blanks that were in
them, and a raw line one more mark of its end. -/
theorem not_kept :
    ¬Kept "[A]\n$x\nk = v\n".toList ∧ ¬Kept "[A]\n [k = v\n".toList ∧ ¬Kept "[A]\n $k = v\n".toList ∧
      ¬Kept "[A]\nk = \"\"v\"\"\n".toList ∧ ¬Kept "[A]\nk = \" v\"\n".toList ∧
      ¬Kept "[A]\nx\r\r\n".toList := by
  decide +kernel

end IniFile
