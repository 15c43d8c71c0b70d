import PrimedSteam.DiscIO.FileSystemGCWii

/-!
# Paths in a file system

The path of an entry, and the search for an entry by its path. Names are stored in Shift-JIS, and paths
are in UTF-8; the conversion is a parameter.

* `Valid.getPath_eq`: the path names the directories around an entry, from the outermost on.
* `findFileInfo`: the search, which ignores case. `matchesName_iff`: what it compares.
* **`fileSystem_exact`**: what holds of a table that passes the checks, and when each entry is found by
  its path.
-/

set_option autoImplicit false

namespace FileSystemGCWii

open SkipForest

variable (fst : Table) (shiftJISToUTF8 : List Byte → List Byte)

/-! ## The search -/

def toLower (b : Byte) : Byte := if 0x41 ≤ b ∧ b ≤ 0x5A then b + 0x20 else b

def equalsIgnoringCase (a b : List Byte) : Bool := a.map toLower == b.map toLower

/-- The comparison of the memory at a name with a name in UTF-8. -/
def compareName : List Byte → List Byte → Option Bool
  | [], _ => none
  | b :: _, [] => some (b == 0)
  | b :: bytes, o :: other =>
    if b = 0 then some false
    else if 0x80 ≤ b ∧ 0x80 ≤ o then
      (terminated (b :: bytes)).map fun this => equalsIgnoringCase (shiftJISToUTF8 this) (o :: other)
    else if toLower b ≠ toLower o then some false
    else compareName bytes other

def nameCaseInsensitiveEquals (index : ℕ) (other : List Byte) : Option Bool := do
  let nameOffset ← getNameOffset fst index
  compareName shiftJISToUTF8 (fst.drop nameOffset) other

/-- The search for the first entry below `index` that the path leads to. -/
def findFileInfo : ℕ → List Byte → ℕ → Option (Option ℕ)
  | 0, _, _ => none
  | fuel + 1, path, index =>
    let path := path.dropWhile (· == slash)
    if path = [] then some (some index)
    else do
      let name := path.takeWhile (· != slash)
      let restOfPath := (path.dropWhile (· != slash)).drop 1
      let result ← forEach fst index () fun _ child => do
        if ← nameCaseInsensitiveEquals fst shiftJISToUTF8 child name then
          match ← findFileInfo fuel restOfPath child with
          | some result => return Except.error result
          | none => return Except.ok ()
        else return Except.ok ()
      match result with
      | .error result => return some result
      | .ok () => return none

/-- The search from the root. -/
def findPath (path : List Byte) : Option (Option ℕ) :=
  findFileInfo fst shiftJISToUTF8 (path.length + 1) path 0

/-! ## Names -/

/-- The bytes of a name, for an entry inside the table. -/
def stored (index : ℕ) : List Byte := (storedName fst index).getD []

def name (index : ℕ) : List Byte := shiftJISToUTF8 (stored fst index)

variable {fst} {n index : ℕ}

theorem terminated_isSome : ∀ {l : List Byte}, (0 : Byte) ∈ l → ∃ raw, terminated l = some raw
  | [], h => absurd h List.not_mem_nil
  | b :: bytes, h => by
    unfold terminated
    by_cases hzero : b = 0
    · exact ⟨[], if_pos hzero⟩
    · rcases List.mem_cons.mp h with heq | hin
      · exact absurd heq.symm hzero
      · obtain ⟨raw, hraw⟩ := terminated_isSome hin
        exact ⟨b :: raw, by rw [if_neg hzero, hraw]; rfl⟩

namespace Valid

/-- **A name** starts and ends in the table. -/
theorem storedName_eq (h : Valid fst n) (hindex : index < n) :
    storedName fst index = some (stored fst index) := by
  obtain ⟨parent, hchecked⟩ := h.checked hindex
  have hname := hchecked.name
  have hlast : (0 : Byte) ∈ fst.drop (fstEntrySize * value fst 0 .fileSize +
      (value fst index .nameOffset &&& 0xFFFFFF)) := by
    generalize fstEntrySize * value fst 0 .fileSize + (value fst index .nameOffset &&& 0xFFFFFF) =
      nameOffset at hname
    have hat : (fst.drop nameOffset)[fst.length - 1 - nameOffset]? = some 0 := by
      rw [List.getElem?_drop, Nat.add_sub_cancel' (by omega)]
      exact h.last
    exact List.mem_of_getElem? hat
  obtain ⟨raw, hraw⟩ := terminated_isSome hlast
  have hstored : storedName fst index = some raw := by
    unfold storedName getNameOffset getSize
    rw [h.get_eq h.pos, h.get_eq hindex]
    exact hraw
  rw [stored, hstored]
  rfl

theorem getName_eq (h : Valid fst n) (hindex : index < n) :
    getName fst shiftJISToUTF8 index = some (name fst shiftJISToUTF8 index) := by
  rw [getName, h.storedName_eq hindex]
  rfl

/-! ## Paths -/

theorem potentialParent_eq (h : Valid fst n) {q : ℕ} (hindex : index < n)
    (hin : Innermost (isNode fst) (next fst) q index) : ∀ {k : ℕ}, q ≤ k → k < index →
    potentialParent fst index k = some q := by
  have hencloses : ∀ k < index, encloses fst index k =
      some (isNode fst k && decide (index < value fst k .fileSize)) := by
    intro k hk
    unfold encloses
    rw [h.bounded.isDirectory_eq (by omega), h.get_eq (by omega)]
    rfl
  have hq : encloses fst index q = some true := by
    have hlt := hin.lt_next
    rw [h.bounded.next_node (hin.lt.trans hindex) hin.node] at hlt
    rw [hencloses q hin.lt, hin.node, decide_eq_true hlt]
    rfl
  intro k
  induction k with
  | zero =>
    intro hle hk
    cases Nat.le_zero.mp hle
    unfold potentialParent
    rw [hq]
    rfl
  | succ k ih =>
    intro hle hk
    unfold potentialParent
    rcases Nat.eq_or_lt_of_le hle with rfl | hlt
    · rw [hq]
      rfl
    · have hinner : encloses fst index (k + 1) = some false := by
        rw [hencloses _ hk]
        cases hnode : isNode fst (k + 1) with
        | false => rfl
        | true =>
          have hout := hin.inner (k + 1) hlt hk
          rw [h.bounded.next_node (by omega) hnode] at hout
          rw [decide_eq_false (not_lt.mpr hout)]
          rfl
      rw [hinner]
      exact ih (by omega) (by omega)

end Valid

/-- The path of an entry: the directories around it and its own name. -/
def pathOf (fst : Table) (shiftJISToUTF8 : List Byte → List Byte) (index : ℕ) : List Byte :=
  if index = 0 then []
  else ((enclosing (isNode fst) (next fst) index).flatMap fun d =>
    name fst shiftJISToUTF8 d ++ [slash]) ++ name fst shiftJISToUTF8 index ++
      if isNode fst index then [slash] else []

variable {shiftJISToUTF8}

theorem pathOf_pos (hpos : 0 < index) : pathOf fst shiftJISToUTF8 index =
    ((enclosing (isNode fst) (next fst) index).flatMap fun d =>
      name fst shiftJISToUTF8 d ++ [slash]) ++ name fst shiftJISToUTF8 index ++
        if isNode fst index then [slash] else [] :=
  if_neg hpos.ne'

theorem Valid.pathOf_eq (h : Valid fst n) {q : ℕ} (hindex : index < n)
    (hin : Innermost (isNode fst) (next fst) q index) :
    pathOf fst shiftJISToUTF8 index = pathOf fst shiftJISToUTF8 q ++
      name fst shiftJISToUTF8 index ++ if isNode fst index then [slash] else [] := by
  rw [pathOf_pos (Nat.zero_lt_of_lt hin.lt), h.tree.enclosing_eq hindex hin, List.flatMap_append]
  congr 2
  rcases Nat.eq_zero_or_pos q with rfl | hpos
  · rfl
  · rw [pathOf_pos hpos, hin.node, if_neg hpos.ne', if_pos rfl, List.flatMap_cons,
      List.flatMap_nil, List.append_nil, List.append_assoc]

/-- **`GetPath`** ends, with the names of the directories around the entry. -/
theorem Valid.getPath_eq (h : Valid fst n) : ∀ (fuel index : ℕ), index < n → index < fuel →
    getPath fst shiftJISToUTF8 fuel index = some (pathOf fst shiftJISToUTF8 index)
  | 0, index, _, hfuel => absurd hfuel (Nat.not_lt_zero _)
  | fuel + 1, index, hindex, hfuel => by
    unfold getPath
    rcases Nat.eq_zero_or_pos index with rfl | hpos
    · rfl
    · obtain ⟨q, hin, hchecked⟩ := h.tree.parent hpos hindex
      have hlt := hin.lt
      have hparent := h.getPath_eq fuel q (hlt.trans hindex) (by omega)
      rw [if_neg hpos.ne', h.bounded.isDirectory_eq hindex, h.getName_eq shiftJISToUTF8 hindex,
        h.get_eq hindex, h.pathOf_eq hindex hin]
      dsimp only [Option.bind_eq_bind, Option.bind_some]
      cases hnode : isNode fst index with
      | true =>
        rw [if_pos rfl, hchecked.parent hnode, hparent, if_pos rfl]
        rfl
      | false =>
        rw [if_neg Bool.false_ne_true, h.potentialParent_eq hindex hin (by omega) (by omega),
          Option.bind_some, hparent, if_neg Bool.false_ne_true, List.append_nil]
        rfl

/-! ## What the comparison of names compares -/

/-- The comparison of a stored name with a name in UTF-8. -/
def matchesName (shiftJISToUTF8 : List Byte → List Byte) : List Byte → List Byte → Bool
  | [], [] => true
  | [], _ :: _ => false
  | _ :: _, [] => false
  | b :: raw, o :: other =>
    if 0x80 ≤ b ∧ 0x80 ≤ o then equalsIgnoringCase (shiftJISToUTF8 (b :: raw)) (o :: other)
    else if toLower b ≠ toLower o then false
    else matchesName shiftJISToUTF8 raw other

theorem compareName_eq : ∀ {l raw other : List Byte}, terminated l = some raw →
    compareName shiftJISToUTF8 l other = some (matchesName shiftJISToUTF8 raw other)
  | [], _, _, h => by cases h
  | b :: bytes, raw, other, h => by
    have hterminated := h
    unfold terminated at h
    split at h
    · next hzero =>
      cases h
      cases other with
      | nil =>
        rw [compareName, hzero]
        rfl
      | cons o other => exact if_pos hzero
    · next hne =>
      obtain ⟨raw', hraw, rfl⟩ := Option.map_eq_some_iff.mp h
      cases other with
      | nil =>
        rw [compareName, beq_false_of_ne hne]
        rfl
      | cons o other =>
        rw [compareName, if_neg hne, hterminated, matchesName]
        split
        · rfl
        · split
          · rfl
          · exact compareName_eq hraw

theorem Valid.nameCaseInsensitiveEquals_eq (h : Valid fst n) (hindex : index < n)
    (other : List Byte) : nameCaseInsensitiveEquals fst shiftJISToUTF8 index other =
      some (matchesName shiftJISToUTF8 (stored fst index) other) := by
  have hstored := h.storedName_eq hindex
  unfold nameCaseInsensitiveEquals
  unfold storedName at hstored
  cases hoffset : getNameOffset fst index with
  | none =>
    rw [hoffset] at hstored
    cases hstored
  | some nameOffset =>
    rw [hoffset] at hstored
    exact compareName_eq hstored

/-- The part of a name before its first byte that is not ASCII, and the part from there on. -/
def asciiPart (raw : List Byte) : List Byte := raw.takeWhile (· < 0x80)

def otherPart (raw : List Byte) : List Byte := raw.dropWhile (· < 0x80)

/-- What a name is compared as: the conversion starts at the first byte that is not ASCII. -/
def comparedName (shiftJISToUTF8 : List Byte → List Byte) (raw : List Byte) : List Byte :=
  asciiPart raw ++ if otherPart raw = [] then [] else shiftJISToUTF8 (otherPart raw)

theorem equalsIgnoringCase_cons (b o : Byte) (raw other : List Byte) :
    equalsIgnoringCase (b :: raw) (o :: other) = true ↔
      toLower b = toLower o ∧ equalsIgnoringCase raw other = true := by
  unfold equalsIgnoringCase
  rw [List.map_cons, List.map_cons, beq_iff_eq, beq_iff_eq, List.cons.injEq]

theorem le_toLower_iff (b : Byte) : 0x80 ≤ toLower b ↔ 0x80 ≤ b := by
  revert b
  decide

/-- **The comparison of names**, in terms of the conversion. -/
theorem matchesName_iff : ∀ (raw other : List Byte), matchesName shiftJISToUTF8 raw other = true ↔
    equalsIgnoringCase (comparedName shiftJISToUTF8 raw) other = true ∧
      (otherPart raw ≠ [] → ∃ c, other[(asciiPart raw).length]? = some c ∧ 0x80 ≤ c)
  | [], [] => iff_of_true rfl ⟨rfl, fun hne => absurd rfl hne⟩
  | [], o :: other => iff_of_false Bool.false_ne_true fun h => Bool.false_ne_true h.1
  | b :: raw, other => by
    rcases Nat.lt_or_ge b.toNat 0x80 with hb | hb
    · -- an ASCII byte is compared as it is
      have hlt : decide (b < 0x80) = true := decide_eq_true hb
      have hascii : asciiPart (b :: raw) = b :: asciiPart raw := by
        unfold asciiPart
        rw [List.takeWhile_cons, hlt]
        rfl
      have hother : otherPart (b :: raw) = otherPart raw := by
        unfold otherPart
        rw [List.dropWhile_cons, hlt]
        rfl
      have hcompared : comparedName shiftJISToUTF8 (b :: raw) =
          b :: comparedName shiftJISToUTF8 raw := by
        unfold comparedName
        rw [hascii, hother]
        rfl
      rw [hcompared, hascii, hother]
      cases other with
      | nil => exact iff_of_false Bool.false_ne_true fun h => Bool.false_ne_true h.1
      | cons o other =>
        have hboth : ¬ ((0x80 : Byte) ≤ b ∧ 0x80 ≤ o) := fun hand => absurd hand.1 (not_le.mpr hb)
        rw [matchesName, if_neg hboth, equalsIgnoringCase_cons, List.length_cons,
          List.getElem?_cons_succ]
        split
        · next hne => exact iff_of_false Bool.false_ne_true fun h => hne h.1.1
        · next heq =>
          rw [matchesName_iff raw other]
          exact ⟨fun h => ⟨⟨not_not.mp heq, h.1⟩, h.2⟩, fun h => ⟨h.1.2, h.2⟩⟩
    · have hge : decide (b < 0x80) = false := decide_eq_false (not_lt.mpr hb)
      have hascii : asciiPart (b :: raw) = [] := by
        unfold asciiPart
        rw [List.takeWhile_cons, hge]
        rfl
      have hother : otherPart (b :: raw) = b :: raw := by
        unfold otherPart
        rw [List.dropWhile_cons, hge]
        rfl
      have hcompared : comparedName shiftJISToUTF8 (b :: raw) = shiftJISToUTF8 (b :: raw) := by
        unfold comparedName
        rw [hascii, hother, if_neg (List.cons_ne_nil b raw), List.nil_append]
      rw [hcompared, hascii, hother]
      cases other with
      | nil =>
        refine iff_of_false Bool.false_ne_true fun h => ?_
        obtain ⟨c, hc, -⟩ := h.2 (List.cons_ne_nil b raw)
        cases hc
      | cons o other =>
        rw [matchesName]
        by_cases ho : (0x80 : Byte) ≤ o
        · rw [if_pos ⟨hb, ho⟩]
          exact ⟨fun h => ⟨h, fun _ => ⟨o, rfl, ho⟩⟩, fun h => h.1⟩
        · rw [if_neg fun hand => ho hand.2]
          have hne : toLower b ≠ toLower o := fun heq =>
            ho ((le_toLower_iff o).mp (heq ▸ (le_toLower_iff b).mpr hb))
          rw [if_pos hne]
          refine iff_of_false Bool.false_ne_true fun h => ?_
          obtain ⟨c, hc, hle⟩ := h.2 (List.cons_ne_nil b raw)
          cases hc
          exact ho hle

theorem equalsIgnoringCase_trans {a b c : List Byte} (hab : equalsIgnoringCase a b = true)
    (hac : equalsIgnoringCase a c = true) : equalsIgnoringCase b c = true := by
  unfold equalsIgnoringCase at *
  rw [beq_iff_eq] at *
  exact hab.symm.trans hac

theorem equals_of_matches {raw a b : List Byte} (ha : matchesName shiftJISToUTF8 raw a = true)
    (hb : matchesName shiftJISToUTF8 raw b = true) : equalsIgnoringCase a b = true :=
  equalsIgnoringCase_trans ((matchesName_iff raw a).mp ha).1 ((matchesName_iff raw b).mp hb).1

/-! ## The search by the names on a path -/

/-- The search in a child: the rest of the path, if its name matches. -/
def tryChild (fst : Table) (shiftJISToUTF8 : List Byte → List Byte) (name : List Byte)
    (rest : ℕ → Option (Option ℕ)) (_ : Unit) (child : ℕ) : Option (Except ℕ Unit) := do
  if ← nameCaseInsensitiveEquals fst shiftJISToUTF8 child name then
    match ← rest child with
    | some result => return .error result
    | none => return .ok ()
  else return .ok ()

def outcome : Except ℕ Unit → Option ℕ
  | .error result => some result
  | .ok () => none

/-- The search, for the names on the path. -/
def search (fst : Table) (shiftJISToUTF8 : List Byte → List Byte) :
    List (List Byte) → ℕ → Option (Option ℕ)
  | [], index => some (some index)
  | name :: names, index =>
    (forEach fst index () (tryChild fst shiftJISToUTF8 name
      (search fst shiftJISToUTF8 names))).map outcome

/-- A name that can be part of a path. -/
structure PathName (name : List Byte) : Prop where
  ne_nil : name ≠ []
  noSlash : slash ∉ name

/-- The names on a path. -/
inductive Components : List Byte → List (List Byte) → Prop where
  | nil : Components [] []
  | last {name : List Byte} (h : PathName name) : Components name [name]
  | cons {name rest : List Byte} {names : List (List Byte)} (h : PathName name)
      (hrest : Components rest names) : Components (name ++ slash :: rest) (name :: names)

theorem PathName.split {name tail : List Byte} (h : PathName name)
    (htail : tail = [] ∨ ∃ rest, tail = slash :: rest) :
    (name ++ tail).dropWhile (· == slash) = name ++ tail ∧
      (name ++ tail).takeWhile (· != slash) = name ∧
      (name ++ tail).dropWhile (· != slash) = tail := by
  have hall : ∀ b ∈ name, (b != slash) = true := fun b hb =>
    bne_iff_ne.mpr fun heq => h.noSlash (heq ▸ hb)
  have htake : tail.takeWhile (· != slash) = [] := by
    rcases htail with rfl | ⟨rest, rfl⟩ <;> rfl
  have hdrop : tail.dropWhile (· != slash) = tail := by
    rcases htail with rfl | ⟨rest, rfl⟩ <;> rfl
  refine ⟨?_, ?_, ?_⟩
  · cases name with
    | nil => exact absurd rfl h.ne_nil
    | cons b name =>
      have hb : (b == slash) = false := beq_false_of_ne fun heq => h.noSlash (heq ▸ List.mem_cons_self)
      rw [List.cons_append, List.dropWhile_cons, hb]
      rfl
  · rw [List.takeWhile_append_of_pos hall, htake, List.append_nil]
  · rw [List.dropWhile_append_of_pos hall, hdrop]

theorem PathName.findFileInfo_succ {name tail : List Byte} (h : PathName name)
    (htail : tail = [] ∨ ∃ rest, tail = slash :: rest) (fuel index : ℕ) :
    findFileInfo fst shiftJISToUTF8 (fuel + 1) (name ++ tail) index =
      (forEach fst index () (tryChild fst shiftJISToUTF8 name
        (findFileInfo fst shiftJISToUTF8 fuel (tail.drop 1)))).map outcome := by
  obtain ⟨hstart, htake, hdrop⟩ := h.split htail
  have hne : name ++ tail ≠ [] := fun heq => h.ne_nil (List.append_eq_nil_iff.mp heq).1
  unfold findFileInfo
  dsimp only
  rw [hstart, if_neg hne, htake, hdrop]
  change (forEach fst index () (tryChild fst shiftJISToUTF8 name
    (findFileInfo fst shiftJISToUTF8 fuel (tail.drop 1)))).bind _ = _
  cases forEach fst index () (tryChild fst shiftJISToUTF8 name
    (findFileInfo fst shiftJISToUTF8 fuel (tail.drop 1))) with
  | none => rfl
  | some result => cases result <;> rfl

/-- **The search by a path** is that by the names on it. -/
theorem findFileInfo_eq_search {path : List Byte} {names : List (List Byte)}
    (h : Components path names) : ∀ {fuel : ℕ}, names.length < fuel →
    findFileInfo fst shiftJISToUTF8 fuel path = search fst shiftJISToUTF8 names := by
  have hnil : ∀ fuel, findFileInfo fst shiftJISToUTF8 (fuel + 1) [] =
      search fst shiftJISToUTF8 [] := fun _ => rfl
  induction h with
  | nil =>
    intro fuel hfuel
    obtain ⟨fuel, rfl⟩ : ∃ k, fuel = k + 1 := ⟨fuel - 1, by omega⟩
    exact hnil fuel
  | @last name hname =>
    intro fuel hfuel
    obtain ⟨fuel, rfl⟩ : ∃ k, fuel = k + 2 := ⟨fuel - 2, by rw [List.length_singleton] at hfuel; omega⟩
    funext index
    have hsucc : findFileInfo fst shiftJISToUTF8 (fuel + 2) (name ++ []) index = _ :=
      hname.findFileInfo_succ (Or.inl rfl) (fuel + 1) index
    rw [List.append_nil] at hsucc
    rw [hsucc, search, List.drop_nil, hnil]
  | @cons name rest names hname hrest ih =>
    intro fuel hfuel
    rw [List.length_cons] at hfuel
    obtain ⟨fuel, rfl⟩ : ∃ k, fuel = k + 1 := ⟨fuel - 1, by omega⟩
    funext index
    rw [hname.findFileInfo_succ (Or.inr ⟨rest, rfl⟩), search, List.drop_one, List.tail_cons,
      ih (by omega)]

theorem Components.length_le {path : List Byte} {names : List (List Byte)}
    (h : Components path names) : names.length ≤ path.length := by
  induction h with
  | nil => exact le_rfl
  | last hname => exact List.length_pos_iff.mpr hname.ne_nil
  | cons hname _ ih =>
    have hpos := List.length_pos_iff.mpr hname.ne_nil
    rw [List.length_cons, List.length_append, List.length_cons]
    omega

/-! ## Loops that look for a result -/

theorem runOver_first {α : Type} {body : Unit → ℕ → Option (Except α Unit)} {pre post : List ℕ}
    {c : ℕ} {result : α} (hpre : ∀ d ∈ pre, body () d = some (.ok ()))
    (hc : body () c = some (.error result)) :
    runOver body (pre ++ c :: post) () = some (.error result) := by
  induction pre with
  | nil =>
    rw [List.nil_append, runOver, hc]
    rfl
  | cons d pre ih =>
    rw [List.cons_append, runOver, hpre d List.mem_cons_self]
    exact ih fun d hd => hpre d (List.mem_cons_of_mem _ hd)

theorem runOver_error {α : Type} {body : Unit → ℕ → Option (Except α Unit)} {l : List ℕ} {result : α}
    (h : runOver body l () = some (.error result)) : ∃ c ∈ l, body () c = some (.error result) := by
  induction l with
  | nil => cases h
  | cons d l ih =>
    unfold runOver at h
    cases hd : body () d with
    | none =>
      rw [hd] at h
      cases h
    | some r =>
      rw [hd] at h
      cases r with
      | error r =>
        cases h
        exact ⟨d, List.mem_cons_self, hd⟩
      | ok _ =>
        obtain ⟨c, hc, hbody⟩ := ih h
        exact ⟨c, List.mem_cons_of_mem _ hc, hbody⟩

theorem search_cons {names : List (List Byte)} {m : List Byte} {e : ℕ} :
    search fst shiftJISToUTF8 (m :: names) index = some (some e) ↔
      forEach fst index () (tryChild fst shiftJISToUTF8 m (search fst shiftJISToUTF8 names)) =
        some (.error e) := by
  unfold search
  constructor
  · intro h
    obtain ⟨result, hrun, hresult⟩ := Option.map_eq_some_iff.mp h
    cases result with
    | error r =>
      cases hresult
      exact hrun
    | ok _ => cases hresult
  · intro h
    rw [h]
    rfl

section Found

variable {names : List (List Byte)} {m : List Byte} {e child : ℕ}

theorem Valid.tryChild_error_iff (h : Valid fst n) (hchild : child < n)
    {rest : ℕ → Option (Option ℕ)} :
    tryChild fst shiftJISToUTF8 m rest () child = some (.error e) ↔
      matchesName shiftJISToUTF8 (stored fst child) m = true ∧ rest child = some (some e) := by
  unfold tryChild
  rw [h.nameCaseInsensitiveEquals_eq hchild]
  dsimp only [Option.bind_eq_bind, Option.bind_some]
  split
  · next hmatch =>
    rw [hmatch]
    cases rest child with
    | none => exact iff_of_false (fun heq => by cases heq) fun heq => by cases heq.2
    | some result =>
      cases result with
      | none => exact iff_of_false (fun heq => by cases heq) fun heq => by cases heq.2
      | some r =>
        constructor
        · intro heq
          cases heq
          exact ⟨rfl, rfl⟩
        · rintro ⟨-, heq⟩
          cases heq
          rfl
  · next hmatch => exact iff_of_false (fun heq => by cases heq) fun heq => hmatch heq.1

theorem Valid.tryChild_ok (h : Valid fst n) (hchild : child < n) {rest : ℕ → Option (Option ℕ)}
    (hmatch : matchesName shiftJISToUTF8 (stored fst child) m = false) :
    tryChild fst shiftJISToUTF8 m rest () child = some (.ok ()) := by
  unfold tryChild
  rw [h.nameCaseInsensitiveEquals_eq hchild, hmatch]
  rfl

theorem Valid.matches_of_search (h : Valid fst n) : ∀ (names : List (List Byte)) (index : ℕ),
    index < n → search fst shiftJISToUTF8 (names ++ [m]) index = some (some e) →
    matchesName shiftJISToUTF8 (stored fst e) m = true := by
  intro names
  induction names with
  | nil =>
    intro index hindex hsearch
    obtain ⟨l, hl, hlength, hmem⟩ := h.siblings hindex
    rw [List.nil_append, search_cons, h.forEach_eq hindex hl hlength] at hsearch
    obtain ⟨c, hc, hfound⟩ := runOver_error hsearch
    have hlt : c < n := ((hmem c).mp hc).lt_next.trans_le (h.tree.lt_next hindex).2
    obtain ⟨hmatch, hself⟩ := (h.tryChild_error_iff hlt).mp hfound
    cases hself
    exact hmatch
  | cons name names ih =>
    intro index hindex hsearch
    obtain ⟨l, hl, hlength, hmem⟩ := h.siblings hindex
    rw [List.cons_append, search_cons, h.forEach_eq hindex hl hlength] at hsearch
    obtain ⟨c, hc, hfound⟩ := runOver_error hsearch
    have hlt : c < n := ((hmem c).mp hc).lt_next.trans_le (h.tree.lt_next hindex).2
    exact ih c hlt ((h.tryChild_error_iff hlt).mp hfound).2

end Found

/-! ## Each entry by its path -/

/-- The names can be part of a path, and siblings have different ones. -/
structure SiblingNames (fst : Table) (shiftJISToUTF8 : List Byte → List Byte) (n : ℕ) : Prop where
  pathName : ∀ i, 0 < i → i < n → PathName (name fst shiftJISToUTF8 i)
  different : ∀ q a b, Innermost (isNode fst) (next fst) q a → Innermost (isNode fst) (next fst) q b →
    a < n → b < n → a ≠ b →
    equalsIgnoringCase (name fst shiftJISToUTF8 a) (name fst shiftJISToUTF8 b) = false

/-- The conversion of a name leaves the bytes before the first one that is not ASCII as they are, but for
their case, and makes a character that is not ASCII of that one. -/
def Comparable (shiftJISToUTF8 : List Byte → List Byte) (raw : List Byte) : Prop :=
  equalsIgnoringCase (comparedName shiftJISToUTF8 raw) (shiftJISToUTF8 raw) = true ∧
    (otherPart raw ≠ [] →
      ∃ c, (shiftJISToUTF8 raw)[(asciiPart raw).length]? = some c ∧ 0x80 ≤ c)

/-- The names on the path of an entry. -/
def namesTo (fst : Table) (shiftJISToUTF8 : List Byte → List Byte) (index : ℕ) : List (List Byte) :=
  if index = 0 then []
  else (enclosing (isNode fst) (next fst) index).map (name fst shiftJISToUTF8) ++
    [name fst shiftJISToUTF8 index]

theorem Valid.namesTo_eq (h : Valid fst n) {q : ℕ} (hindex : index < n)
    (hin : Innermost (isNode fst) (next fst) q index) : namesTo fst shiftJISToUTF8 index =
      namesTo fst shiftJISToUTF8 q ++ [name fst shiftJISToUTF8 index] := by
  have hpos : index ≠ 0 := (Nat.zero_lt_of_lt hin.lt).ne'
  rw [namesTo, if_neg hpos, h.tree.enclosing_eq hindex hin, List.map_append]
  congr 1
  by_cases hq : q = 0
  · rw [hq]
    rfl
  · rw [namesTo, if_neg hq, if_neg hq, List.map_singleton]

theorem components_flatMap {l : List ℕ} {f : ℕ → List Byte} (hf : ∀ d ∈ l, PathName (f d))
    {rest : List Byte} {names : List (List Byte)} (hrest : Components rest names) :
    Components ((l.flatMap fun d => f d ++ [slash]) ++ rest) (l.map f ++ names) := by
  induction l with
  | nil => exact hrest
  | cons d l ih =>
    have htail := ih fun d hd => hf d (List.mem_cons_of_mem _ hd)
    have hcons := Components.cons (hf d List.mem_cons_self) htail
    rw [List.flatMap_cons, List.map_cons, List.append_assoc, List.append_assoc]
    exact hcons

theorem SiblingNames.components (h : SiblingNames fst shiftJISToUTF8 n) (hindex : index < n) :
    Components (pathOf fst shiftJISToUTF8 index) (namesTo fst shiftJISToUTF8 index) := by
  rcases Nat.eq_zero_or_pos index with rfl | hpos
  · exact .nil
  · have hname := h.pathName index hpos hindex
    rw [pathOf_pos hpos, namesTo, if_neg hpos.ne', List.append_assoc]
    refine components_flatMap (fun d hd => ?_) ?_
    · obtain ⟨hrange, hdecide⟩ := List.mem_filter.mp hd
      have hlt := List.mem_range.mp hrange
      exact h.pathName d (Nat.pos_of_ne_zero (of_decide_eq_true hdecide).1) (by omega)
    · split
      · exact .cons hname .nil
      · rw [List.append_nil]
        exact .last hname

theorem Valid.search_namesTo (h : Valid fst n) (hnames : SiblingNames fst shiftJISToUTF8 n)
    (hself : ∀ i, 0 < i → i < n →
      matchesName shiftJISToUTF8 (stored fst i) (name fst shiftJISToUTF8 i) = true) {e : ℕ} :
    ∀ (index : ℕ), index < n → ∀ names, search fst shiftJISToUTF8 names index = some (some e) →
      search fst shiftJISToUTF8 (namesTo fst shiftJISToUTF8 index ++ names) 0 = some (some e) := by
  intro index
  induction index using Nat.strong_induction_on with
  | _ index ih =>
    intro hindex names hsearch
    rcases Nat.eq_zero_or_pos index with rfl | hpos
    · exact hsearch
    · obtain ⟨q, hin, -⟩ := h.tree.parent hpos hindex
      have hq : q < n := hin.lt.trans hindex
      rw [h.namesTo_eq hindex hin, List.append_assoc]
      refine ih q hin.lt hq _ ?_
      obtain ⟨l, hl, hlength, hmem⟩ := h.siblings hq
      obtain ⟨pre, post, rfl, hnot⟩ := List.eq_append_cons_of_mem ((hmem index).mpr hin)
      rw [List.singleton_append, search_cons, h.forEach_eq hq hl hlength]
      refine runOver_first (fun d hd => ?_)
        ((h.tryChild_error_iff hindex).mpr ⟨hself index hpos hindex, hsearch⟩)
      -- an earlier sibling has another name
      have hd' := (hmem d).mp (List.mem_append_left _ hd)
      have hdn : d < n := hd'.lt_next.trans_le (h.tree.lt_next hq).2
      refine h.tryChild_ok hdn (Bool.eq_false_iff.mpr fun hmatch => ?_)
      have hequal := equals_of_matches (hself d (Nat.zero_lt_of_lt hd'.lt) hdn) hmatch
      have hne : d ≠ index := fun heq => hnot (heq ▸ hd)
      rw [hnames.different q d index hd' hin hdn hindex hne] at hequal
      exact Bool.false_ne_true hequal

/-- **The search by paths** finds each entry, exactly if its name compares equal to itself. -/
theorem Valid.findFileInfo_iff (h : Valid fst n) (hnames : SiblingNames fst shiftJISToUTF8 n) :
    (∀ i < n, findPath fst shiftJISToUTF8 (pathOf fst shiftJISToUTF8 i) = some (some i)) ↔
    ∀ i, 0 < i → i < n → Comparable shiftJISToUTF8 (stored fst i) := by
  have hsearch : ∀ i < n, findPath fst shiftJISToUTF8 (pathOf fst shiftJISToUTF8 i) =
      search fst shiftJISToUTF8 (namesTo fst shiftJISToUTF8 i) 0 := by
    intro i hi
    have hcomponents := hnames.components hi
    exact congrFun (findFileInfo_eq_search hcomponents (Nat.lt_succ_of_le hcomponents.length_le)) 0
  constructor
  · intro hfound i hpos hi
    obtain ⟨q, hin, -⟩ := h.tree.parent hpos hi
    have hat := (hsearch i hi).symm.trans (hfound i hi)
    rw [h.namesTo_eq hi hin] at hat
    exact (matchesName_iff _ _).mp (h.matches_of_search _ 0 h.pos hat)
  · intro hcomparable i hi
    rw [hsearch i hi, ← List.append_nil (namesTo fst shiftJISToUTF8 i)]
    exact h.search_namesTo hnames (fun i hpos hi => (matchesName_iff _ _).mpr (hcomparable i hpos hi))
      i hi [] rfl

/-! ## Valid tables -/

/-- **A file system table that is valid**, whatever the conversion of names. All entries and names are
inside the table. Iterating over an entry ends and passes its children; a walk from the root visits each
other entry once. The path of an entry names the directories around it. If names can be part of a path
and siblings have different ones, each entry is found by its path, exactly if all names compare equal to
themselves. -/
theorem fileSystem_exact (shiftJISToUTF8 : List Byte → List Byte) {fst : Table}
    (hvalid : fileSystemValid fst = some true) : ∃ n, getSize fst 0 = some n ∧
    (∀ i < n, fstEntrySize * i + fstEntrySize ≤ fst.length ∧ ∃ raw, storedName fst i = some raw) ∧
    (∀ i < n, ∃ l : List ℕ, (∀ c, c ∈ l ↔ Innermost (isNode fst) (next fst) i c) ∧
      ∀ (σ α : Type) (body : σ → ℕ → Option (Except α σ)) (s : σ),
        forEach fst i s body = runOver body l s) ∧
    walk fst n 0 [] = some (List.range' 1 (n - 1)) ∧
    (∀ i < n, getPath fst shiftJISToUTF8 n i = some (pathOf fst shiftJISToUTF8 i)) ∧
    (SiblingNames fst shiftJISToUTF8 n →
      ((∀ i < n, findPath fst shiftJISToUTF8 (pathOf fst shiftJISToUTF8 i) = some (some i)) ↔
        ∀ i, 0 < i → i < n → Comparable shiftJISToUTF8 (stored fst i))) := by
  obtain ⟨ok, hok, hspec⟩ := fileSystemValid_spec fst
  cases hok.symm.trans hvalid
  have h := hspec rfl
  refine ⟨value fst 0 .fileSize, h.get_eq h.pos _, fun i hi => ⟨?_, _, h.storedName_eq hi⟩,
    fun i hi => ?_, ?_, fun i hi => h.getPath_eq _ i hi hi, h.findFileInfo_iff⟩
  · have hentries := h.bounded.entries
    have hle : fstEntrySize * (i + 1) ≤ fstEntrySize * value fst 0 .fileSize :=
      Nat.mul_le_mul_left _ hi
    rw [mul_add, mul_one] at hle
    exact hle.trans hentries
  · obtain ⟨l, hl, hlength, hmem⟩ := h.siblings hi
    exact ⟨l, hmem, fun _ _ _ s => h.forEach_eq hi hl hlength s⟩
  · have hwalk := h.walk_eq (value fst 0 .fileSize) 0 h.pos h.tree.root le_rfl []
    rw [h.tree.next_eq] at hwalk
    exact hwalk

/-- The conversion with `iconv`, which gives the length of the first character and what it is converted
to; a byte at which there is no character is skipped. -/
def codeTo (iconv : List Byte → Option (ℕ × List Byte)) : ℕ → List Byte → List Byte
  | 0, _ => []
  | _ + 1, [] => []
  | fuel + 1, b :: bytes =>
    match iconv (b :: bytes) with
    | some (length, out) => out ++ codeTo iconv fuel ((b :: bytes).drop length)
    | none => codeTo iconv fuel bytes

/-- A conversion that knows the ASCII characters. -/
def asciiToUTF8 (input : List Byte) : List Byte :=
  codeTo (fun bytes => if bytes.headD 0 < 0x80 then some (1, bytes.take 1) else none) input.length input

/-- A table with a file whose name starts with a byte that is no character. -/
def skippedByte : Table :=
  [1, 0, 0, 0, 0, 0, 0, 0, 0, 0, 0, 2, 0, 0, 0, 1, 0, 0, 0, 0, 0, 0, 0, 4, 0, 0x80, 0x61, 0]

/-- Its path has the name without that byte, and is not found. -/
theorem skippedByte_not_found : fileSystemValid skippedByte = some true ∧
    SiblingNames skippedByte asciiToUTF8 2 ∧ getPath skippedByte asciiToUTF8 2 1 = some [0x61] ∧
    findPath skippedByte asciiToUTF8 [0x61] = some none := by
  refine ⟨by decide +kernel, ⟨fun i hpos hi => ?_, fun q a b ha hb han hbn hne => ?_⟩,
    by decide +kernel, by decide +kernel⟩
  · have hone : i = 1 := by omega
    rw [hone]
    exact ⟨by decide +kernel, by decide +kernel⟩
  · have := ha.lt
    have := hb.lt
    omega

/-- A table with a file in a directory. -/
def fileInDirectory : Table :=
  [1, 0, 0, 0, 0, 0, 0, 0, 0, 0, 0, 3, 1, 0, 0, 1, 0, 0, 0, 0, 0, 0, 0, 3,
    0, 0, 0, 3, 0, 0, 0, 0, 0, 0, 0, 4, 0, 0x61, 0, 0x62, 0]

theorem fileSystem_exact_fileInDirectory : walk fileInDirectory 3 0 [] = some [1, 2] := by
  obtain ⟨n, hsize, -, -, hwalk, -, -⟩ := fileSystem_exact asciiToUTF8
    (show fileSystemValid fileInDirectory = some true by decide +kernel)
  have hthree : getSize fileInDirectory 0 = some 3 := by decide +kernel
  cases hsize.symm.trans hthree
  exact hwalk

end FileSystemGCWii
