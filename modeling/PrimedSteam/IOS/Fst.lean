import Mathlib.Algebra.Order.Group.Multiset
import Mathlib.Data.List.TakeWhile
import Mathlib.Tactic.Abel

/-!
# The file system table

The metadata tree of `HostFileSystem` and its file, a preorder list of records with counts of
children.

* `FstEntry.modifyAt`, `FstEntry.find?`: the walk along the components of a path.
* `saveFst`, `loadFst`: the file format; the parser gives up below `maxPathDepth` levels.
* **`loadFst_saveFst`**: a tree within the depth limit is restored; `loadFst_saveFst_deep`: any other
  tree is not loaded at all.
-/

set_option autoImplicit false

namespace IOS.FS

abbrev Name := List Char

/-- The maximum number of components a path can have. -/
def maxPathDepth : ℕ := 8

def maxFilenameLength : ℕ := 12

/-- The fields of a `Metadata` that the table has. -/
structure Metadata where
  uid : BitVec 32
  gid : BitVec 16
  isFile : Bool
  /-- The modes of the owner, of the group and of the others. -/
  modes : BitVec 8 × BitVec 8 × BitVec 8
  fileAttribute : BitVec 8
  deriving DecidableEq

inductive FstEntry where
  | mk (name : Name) (data : Metadata) (children : List FstEntry)

namespace FstEntry

def name : FstEntry → Name
  | mk name _ _ => name

def data : FstEntry → Metadata
  | mk _ data _ => data

def children : FstEntry → List FstEntry
  | mk _ _ children => children

/-- The dummy data for an entry that the table does not have, readable and writable for everyone. -/
def dummy (name : Name) : FstEntry := mk name ⟨0, 0, false, (3, 3, 3), 0⟩ []

/-- The first child of the name is changed, or a dummy child is added at the end. -/
def modifyChild (f : FstEntry → FstEntry) (name : Name) : List FstEntry → List FstEntry
  | [] => [f (dummy name)]
  | e :: es => if e.name = name then f e :: es else e :: modifyChild f name es

/-- The walk along the components, with dummy entries for the missing ones. -/
def modifyAt (f : FstEntry → FstEntry) : List Name → FstEntry → FstEntry
  | [], e => f e
  | c :: cs, mk name data children => mk name data (modifyChild (modifyAt f cs) c children)

def find? : List Name → FstEntry → Option FstEntry
  | [], e => some e
  | c :: cs, e => (e.children.find? fun child => child.name = c).bind (find? cs)

/-- Erases the first child of the name. -/
def eraseChild (c : Name) : FstEntry → FstEntry
  | mk name data children => mk name data (children.eraseP fun child => child.name = c)

/-! ## Depth and names -/

/-- The tree has at most `k` levels. -/
def Within : ℕ → FstEntry → Prop
  | 0, _ => False
  | k + 1, e => ∀ child ∈ e.children, Within k child

/-- All names have the property. -/
inductive AllNames (p : Name → Prop) : FstEntry → Prop where
  | mk {name : Name} {data : Metadata} {children : List FstEntry} (hname : p name)
      (hchildren : ∀ child ∈ children, AllNames p child) : AllNames p (mk name data children)

/-- The numbers of children fit their field. -/
inductive Narrow : FstEntry → Prop where
  | mk {name : Name} {data : Metadata} {children : List FstEntry}
      (hlength : children.length < 2 ^ 32) (hchildren : ∀ child ∈ children, Narrow child) :
      Narrow (mk name data children)

variable {p : Name → Prop} {f : FstEntry → FstEntry} {e : FstEntry} {es : List FstEntry}

theorem Within.relabel {k : ℕ} (h : e.Within k) (name : Name) (data : Metadata) :
    (mk name data e.children).Within k := by
  cases k with
  | zero => exact h
  | succ k => exact h

theorem within_leaf (name : Name) (data : Metadata) {k : ℕ} (hk : 0 < k) :
    (mk name data []).Within k := by
  obtain ⟨k, rfl⟩ : ∃ k', k = k' + 1 := ⟨k - 1, by omega⟩
  exact fun child hchild => absurd hchild List.not_mem_nil

theorem within_dummy (name : Name) {k : ℕ} (hk : 0 < k) : (dummy name).Within k :=
  within_leaf name _ hk

theorem AllNames.name (h : e.AllNames p) : p e.name := by
  cases h with
  | mk hname _ => exact hname

theorem AllNames.children (h : e.AllNames p) : ∀ child ∈ e.children, child.AllNames p := by
  cases h with
  | mk _ hchildren => exact hchildren

theorem allNames_dummy {name : Name} (h : p name) : (dummy name).AllNames p :=
  .mk h fun _ hchild => absurd hchild List.not_mem_nil

theorem mem_modifyChild {name : Name} {child : FstEntry}
    (h : child ∈ modifyChild f name es) :
    child ∈ es ∨ child = f (dummy name) ∨ ∃ old ∈ es, old.name = name ∧ child = f old := by
  induction es with
  | nil => exact Or.inr (Or.inl (List.mem_singleton.mp h))
  | cons e es ih =>
    unfold modifyChild at h
    by_cases hname : e.name = name
    · rw [if_pos hname] at h
      rcases List.mem_cons.mp h with rfl | h
      · exact Or.inr (Or.inr ⟨e, List.mem_cons_self, hname, rfl⟩)
      · exact Or.inl (List.mem_cons_of_mem _ h)
    · rw [if_neg hname] at h
      rcases List.mem_cons.mp h with rfl | h
      · exact Or.inl List.mem_cons_self
      · rcases ih h with h | h | ⟨old, hold, heq⟩
        · exact Or.inl (List.mem_cons_of_mem _ h)
        · exact Or.inr (Or.inl h)
        · exact Or.inr (Or.inr ⟨old, List.mem_cons_of_mem _ hold, heq⟩)

/-- A change at a path within the levels keeps the depth if the changed entry does. -/
theorem Within.modifyAt {cs : List Name} {k : ℕ} (h : e.Within k) (hlt : cs.length < k)
    (hf : ∀ e : FstEntry, e.Within (k - cs.length) → (f e).Within (k - cs.length)) :
    (modifyAt f cs e).Within k := by
  induction cs generalizing e k with
  | nil => exact hf e h
  | cons c cs ih =>
    obtain ⟨k, rfl⟩ : ∃ k', k = k' + 1 := ⟨k - 1, by omega⟩
    have hlt' : cs.length < k := by simpa using hlt
    have hf' : ∀ e : FstEntry, e.Within (k - cs.length) → (f e).Within (k - cs.length) := by
      simpa using hf
    obtain ⟨name, data, children⟩ := e
    intro child hchild
    rcases mem_modifyChild hchild with hold | rfl | ⟨old, hold, -, rfl⟩
    · exact h child hold
    · exact ih (within_dummy c (by omega)) hlt' hf'
    · exact ih (h old hold) hlt' hf'

theorem AllNames.modifyAt {cs : List Name} (h : e.AllNames p) (hcs : ∀ c ∈ cs, p c)
    (hf : ∀ e : FstEntry, e.AllNames p → (f e).AllNames p) : (modifyAt f cs e).AllNames p := by
  induction cs generalizing e with
  | nil => exact hf e h
  | cons c cs ih =>
    obtain ⟨hc, hcs⟩ := List.forall_mem_cons.mp hcs
    obtain ⟨name, data, children⟩ := e
    refine .mk h.name fun child hchild => ?_
    rcases mem_modifyChild hchild with hold | rfl | ⟨old, hold, -, rfl⟩
    · exact h.children child hold
    · exact ih (allNames_dummy hc) hcs
    · exact ih (h.children old hold) hcs

theorem mem_of_find?_cons {c : Name} {cs : List Name} {found : FstEntry}
    (h : e.find? (c :: cs) = some found) :
    ∃ child ∈ e.children, child.name = c ∧ child.find? cs = some found := by
  obtain ⟨child, hchild, h⟩ := Option.bind_eq_some_iff.mp h
  exact ⟨child, List.mem_of_find?_eq_some hchild, by simpa using List.find?_some hchild, h⟩

theorem AllNames.find? {cs : List Name} {found : FstEntry} (h : e.AllNames p)
    (hfind : e.find? cs = some found) : found.AllNames p := by
  induction cs generalizing e with
  | nil =>
    obtain rfl := Option.some_inj.mp hfind
    exact h
  | cons c cs ih =>
    obtain ⟨child, hchild, -, hfind⟩ := mem_of_find?_cons hfind
    exact ih (h.children child hchild) hfind

theorem Within.eraseChild {k : ℕ} {c : Name} (h : e.Within k) : (e.eraseChild c).Within k := by
  obtain ⟨name, data, children⟩ := e
  cases k with
  | zero => exact h
  | succ k => exact fun child hchild => h child (List.mem_of_mem_eraseP hchild)

theorem AllNames.eraseChild {c : Name} (h : e.AllNames p) : (e.eraseChild c).AllNames p := by
  obtain ⟨name, data, children⟩ := e
  exact .mk h.name fun child hchild => h.children child (List.mem_of_mem_eraseP hchild)

/-- The tree with its names changed. -/
def mapNames (f : Name → Name) : FstEntry → FstEntry
  | mk name data children => mk (f name) data (mapNamesList f children)
where
  mapNamesList (f : Name → Name) : List FstEntry → List FstEntry
    | [] => []
    | e :: es => mapNames f e :: mapNamesList f es

theorem mapNamesList_eq (g : Name → Name) (es : List FstEntry) :
    mapNames.mapNamesList g es = es.map (mapNames g) := by
  induction es with
  | nil => rfl
  | cons e es ih => rw [mapNames.mapNamesList, ih, List.map_cons]

theorem mapNames_mk (g : Name → Name) (name : Name) (data : Metadata) (children : List FstEntry) :
    (mk name data children).mapNames g = mk (g name) data (children.map (mapNames g)) := by
  rw [mapNames, mapNamesList_eq]

end FstEntry

/-! ## The file -/

structure SerializedFstEntry where
  /-- 12 bytes, padded with zeros. -/
  name : Name
  data : Metadata
  numChildren : ℕ

namespace SerializedFstEntry

def setName (name : Name) : Name :=
  name.take maxFilenameLength ++ List.replicate (maxFilenameLength - name.length) '\x00'

def getName (name : Name) : Name := name.takeWhile (· != '\x00')

end SerializedFstEntry

open SerializedFstEntry (setName getName)

open FstEntry (mapNames mapNames_mk)

/-- `collect_entries` of `SaveFst`. -/
def saveFst : FstEntry → List SerializedFstEntry
  | .mk name data children =>
    ⟨setName name, data, children.length % 2 ^ 32⟩ :: collectChildren children
where
  collectChildren : List FstEntry → List SerializedFstEntry
    | [] => []
    | e :: es => saveFst e ++ collectChildren es

/-- The loop over the children in `parse_entry`. -/
def parseChildren (parse : List SerializedFstEntry → Option (FstEntry × List SerializedFstEntry)) :
    ℕ → List SerializedFstEntry → Option (List FstEntry × List SerializedFstEntry)
  | 0, file => some ([], file)
  | n + 1, file =>
    (parse file).bind fun (child, file) =>
      (parseChildren parse n file).map fun (children, file) => (child :: children, file)

/-- `parse_entry` with the number of levels that are left. -/
def parseEntry : ℕ → List SerializedFstEntry → Option (FstEntry × List SerializedFstEntry)
  | 0, _ => none
  | _ + 1, [] => none
  | levels + 1, entry :: file =>
    (parseChildren (parseEntry levels) entry.numChildren file).map fun (children, file) =>
      (.mk (getName entry.name) entry.data children, file)

/-- `LoadFst` on an existing file. The depth of the root is 0. -/
def loadFst (file : List SerializedFstEntry) : Option FstEntry :=
  (parseEntry (maxPathDepth + 1) file).map Prod.fst

theorem saveFst_mk (name : Name) (data : Metadata) (children : List FstEntry) :
    saveFst (.mk name data children) =
      ⟨setName name, data, children.length % 2 ^ 32⟩ :: children.flatMap saveFst := by
  have hchildren : ∀ es : List FstEntry, saveFst.collectChildren es = es.flatMap saveFst := by
    intro es
    induction es with
    | nil => rfl
    | cons e es ih => rw [saveFst.collectChildren, ih, List.flatMap_cons]
  rw [saveFst, hchildren]

/-- A name comes back up to its twelfth character and its first zero. -/
def storedName (name : Name) : Name := (name.take maxFilenameLength).takeWhile (· != '\x00')

theorem getName_setName (name : Name) : getName (setName name) = storedName name := by
  unfold getName setName storedName
  rw [List.takeWhile_append]
  by_cases hall : (List.takeWhile (· != '\x00') (name.take maxFilenameLength)).length =
      (name.take maxFilenameLength).length
  · have htake : List.takeWhile (· != '\x00') (name.take maxFilenameLength) =
        name.take maxFilenameLength :=
      (List.takeWhile_prefix _).eq_of_length hall
    have hzeros : ∀ n, List.takeWhile (· != '\x00') (List.replicate n '\x00') = [] := by
      intro n
      cases n with
      | zero => rfl
      | succ n => rfl
    rw [if_pos hall, hzeros, List.append_nil, htake]
  · rw [if_neg hall]

theorem storedName_of_not_mem {name : Name} (h : '\x00' ∉ name) :
    storedName name = name.take maxFilenameLength := by
  unfold storedName
  rw [List.takeWhile_eq_self_iff]
  intro c hc
  rw [bne_iff_ne]
  exact fun heq => h (heq ▸ List.mem_of_mem_take hc)

/-- **Round trip.** A tree within the levels is parsed back, with its names as they are stored. -/
theorem parseEntry_saveFst {levels : ℕ} {e : FstEntry} (hwithin : e.Within levels)
    (hnarrow : e.Narrow) (rest : List SerializedFstEntry) :
    parseEntry levels (saveFst e ++ rest) = some (e.mapNames storedName, rest) := by
  induction levels generalizing e rest with
  | zero => exact absurd hwithin id
  | succ levels ih =>
    cases hnarrow with
    | @mk name data children hlength hchildren =>
      have hloop : ∀ es : List FstEntry, (∀ child ∈ es, child ∈ children) → ∀ rest,
          parseChildren (parseEntry levels) es.length (es.flatMap saveFst ++ rest) =
            some (es.map (mapNames storedName), rest) := by
        intro es hes
        induction es with
        | nil => exact fun rest => rfl
        | cons child es ihes =>
          obtain ⟨hchild, hes⟩ := List.forall_mem_cons.mp hes
          intro rest
          rw [List.length_cons, parseChildren, List.flatMap_cons, List.append_assoc,
            ih (hwithin child hchild) (hchildren child hchild), Option.bind_some]
          dsimp only
          rw [ihes hes rest]
          rfl
      rw [saveFst_mk, List.cons_append, parseEntry, Nat.mod_eq_of_lt hlength,
        hloop children (fun _ h => h) rest, getName_setName, mapNames_mk]
      rfl

/-- A tree that is not within the levels is not parsed. -/
theorem parseEntry_saveFst_deep {levels : ℕ} {e : FstEntry} (hdeep : ¬ e.Within levels)
    (hnarrow : e.Narrow) (rest : List SerializedFstEntry) :
    parseEntry levels (saveFst e ++ rest) = none := by
  induction levels generalizing e rest with
  | zero => rfl
  | succ levels ih =>
    cases hnarrow with
    | @mk name data children hlength hchildren =>
      have hloop : ∀ es : List FstEntry, (∀ child ∈ es, child ∈ children) →
          (∃ child ∈ es, ¬ child.Within levels) → ∀ rest,
          parseChildren (parseEntry levels) es.length (es.flatMap saveFst ++ rest) = none := by
        intro es hes hdeep
        induction es with
        | nil => simp at hdeep
        | cons child es ihes =>
          obtain ⟨hchild, hes⟩ := List.forall_mem_cons.mp hes
          intro rest
          rw [List.length_cons, parseChildren, List.flatMap_cons, List.append_assoc]
          by_cases hwithin : child.Within levels
          · have hrest : ∃ child ∈ es, ¬ child.Within levels := by
              obtain ⟨deep, hmem, hnot⟩ := hdeep
              rcases List.mem_cons.mp hmem with rfl | hmem
              · exact absurd hwithin hnot
              · exact ⟨deep, hmem, hnot⟩
            rw [parseEntry_saveFst hwithin (hchildren child hchild), Option.bind_some]
            dsimp only
            rw [ihes hes hrest rest]
            rfl
          · rw [ih hwithin (hchildren child hchild)]
            rfl
      have hsome : ∃ child ∈ children, ¬ child.Within levels := by
        by_contra hnone
        push Not at hnone
        exact hdeep hnone
      rw [saveFst_mk, List.cons_append, parseEntry, Nat.mod_eq_of_lt hlength,
        hloop children (fun _ h => h) hsome rest]
      rfl

theorem loadFst_saveFst {e : FstEntry} (hwithin : e.Within (maxPathDepth + 1))
    (hnarrow : e.Narrow) : loadFst (saveFst e) = some (e.mapNames storedName) := by
  have h := parseEntry_saveFst hwithin hnarrow []
  rw [List.append_nil] at h
  rw [loadFst, h]
  rfl

/-- **A tree with an entry below the depth limit is not loaded at all.** -/
theorem loadFst_saveFst_deep {e : FstEntry} (hdeep : ¬ e.Within (maxPathDepth + 1))
    (hnarrow : e.Narrow) : loadFst (saveFst e) = none := by
  have h := parseEntry_saveFst_deep hdeep hnarrow []
  rw [List.append_nil] at h
  rw [loadFst, h]
  rfl

/-- What the parser accepts is within the depth limit, with names as they are stored. -/
theorem parseEntry_within {levels : ℕ} {file rest : List SerializedFstEntry} {e : FstEntry}
    (h : parseEntry levels file = some (e, rest)) :
    e.Within levels ∧ e.AllNames fun name => '\x00' ∉ name := by
  induction levels generalizing file rest e with
  | zero => cases h
  | succ levels ih =>
    have hloop : ∀ n file children rest,
        parseChildren (parseEntry levels) n file = some (children, rest) →
          ∀ child ∈ children, child.Within levels ∧ child.AllNames fun name => '\x00' ∉ name := by
      intro n
      induction n with
      | zero =>
        intro file children rest h child hchild
        cases h
        exact absurd hchild List.not_mem_nil
      | succ n ihn =>
        intro file children rest h child hchild
        obtain ⟨⟨first, file₁⟩, hfirst, h⟩ := Option.bind_eq_some_iff.mp h
        obtain ⟨⟨others, file₂⟩, hothers, heq⟩ := Option.map_eq_some_iff.mp h
        cases heq
        rcases List.mem_cons.mp hchild with rfl | hchild
        · exact ih hfirst
        · exact ihn _ _ _ hothers child hchild
    cases file with
    | nil => cases h
    | cons entry file =>
      obtain ⟨⟨children, file'⟩, hchildren, heq⟩ := Option.map_eq_some_iff.mp h
      cases heq
      have hall := hloop _ _ _ _ hchildren
      refine ⟨fun child hchild => (hall child hchild).1, .mk (fun hzero => ?_) fun child hchild =>
        (hall child hchild).2⟩
      have hne := List.mem_takeWhile_imp hzero
      simp at hne

end IOS.FS
