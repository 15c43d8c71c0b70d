import PrimedSteam.Lib.SkipForest
import Mathlib.Algebra.Order.Ring.Nat
import Mathlib.Tactic.Linarith

/-!
# File system tables

The table of a GameCube or Wii file system has an entry of 12 bytes for each file and directory, in
preorder, and the names behind the entries. A directory has the index of the first entry after it.

* `fileSystemValid`: the checks of the constructor and of `IsValid`. Here and below `none` is an access
  outside the table, or a loop that does not end.
* `forEach`: the iteration over a directory. `getPath`: the path of an entry.
* `fileSystemValid_spec`: the checks themselves stay inside any table and end.
* `Valid.tree`: a table that passes is a tree.
-/

set_option autoImplicit false

namespace FileSystemGCWii

abbrev Byte := BitVec 8

/-- The bytes of the file system table. -/
abbrev Table := List Byte

/-- The value of a `u32` computation. -/
def u32 (x : ℕ) : ℕ := x % 2 ^ 32

def fstEntrySize : ℕ := 4 * 3

inductive EntryProperty where
  | nameOffset
  | fileOffset
  | fileSize

def EntryProperty.position : EntryProperty → ℕ
  | .nameOffset => 0
  | .fileOffset => 1
  | .fileSize => 2

/-! ## Entries -/

section Entries

variable (fst : Table)

/-- The address of an entry, from the start of the table. -/
def getAddress (index : ℕ) : ℕ := u32 (fstEntrySize * index)

def swap32 (address : ℕ) : Option ℕ := do
  let b₀ ← fst[address]?
  let b₁ ← fst[address + 1]?
  let b₂ ← fst[address + 2]?
  let b₃ ← fst[address + 3]?
  return b₀.toNat * 2 ^ 24 + b₁.toNat * 2 ^ 16 + b₂.toNat * 2 ^ 8 + b₃.toNat

def get (index : ℕ) (entryProperty : EntryProperty) : Option ℕ :=
  swap32 fst (getAddress index + 4 * entryProperty.position)

def getSize (index : ℕ) : Option ℕ := get fst index .fileSize

def isDirectory (index : ℕ) : Option Bool :=
  (get fst index .nameOffset).map fun nameOffset => nameOffset &&& 0xFF000000 ≠ 0

def getNextIndex (index : ℕ) : Option ℕ := do
  if ← isDirectory fst index then getSize fst index else return u32 (index + 1)

/-- The names stand behind the entries of the root, which are all. -/
def getNameOffset (index : ℕ) : Option ℕ := do
  let totalFileInfos ← getSize fst 0
  let nameOffset ← get fst index .nameOffset
  return fstEntrySize * totalFileInfos + (nameOffset &&& 0xFFFFFF)

/-! ## Iteration -/

/-- A loop over the entries from `index` to `stop`, which the body may end with a result. -/
def forChildren {σ α : Type} (body : σ → ℕ → Option (Except α σ)) :
    ℕ → σ → ℕ → ℕ → Option (Except α σ)
  | 0, _, _, _ => none
  | fuel + 1, s, index, stop =>
    if getAddress index = getAddress stop then some (.ok s)
    else do
      match ← body s index with
      | .error result => return .error result
      | .ok s =>
        let next ← getNextIndex fst index
        forChildren body fuel s next stop

/-- `for (const FileInfo& child : directory)`. -/
def forEach {σ α : Type} (index : ℕ) (s : σ) (body : σ → ℕ → Option (Except α σ)) :
    Option (Except α σ) := do
  let stop ← getNextIndex fst index
  forChildren fst body fst.length s (u32 (index + 1)) stop

/-! ## Validation -/

def isValid : ℕ → ℕ → ℕ → Option Bool
  | 0, _, _ => none
  | fuel + 1, index, parent => do
    let nameOffset ← getNameOffset fst index
    if fst.length ≤ nameOffset then return false
    else if !(← isDirectory fst index) then return true
    else
      let parentOffset ← get fst index .fileOffset
      if parentOffset ≠ parent then return false
      else
        let size ← get fst index .fileSize
        if size ≤ index then return false
        else
          let parentSize ← get fst parent .fileSize
          if parentSize < size then return false
          else
            let result ← forEach fst index () fun _ child => do
              if ← isValid fuel child index then return Except.ok () else return Except.error ()
            match result with
            | .ok () => return true
            | .error () => return false

/-- The checks of the constructor, once the table has been read. -/
def fileSystemValid : Option Bool := do
  if fst.length < fstEntrySize then return false
  else if 128 * 1024 * 1024 < fst.length then return false
  else if !(← isDirectory fst 0) then return false
  else
    let size ← getSize fst 0
    if fst.length < u32 (fstEntrySize * size) then return false
    else
      let last ← fst[fst.length - 1]?
      if last ≠ 0 then return false else isValid fst fst.length 0 0

/-! ## Names and paths -/

/-- The characters up to a null byte. -/
def terminated : List Byte → Option (List Byte)
  | [] => none
  | b :: bytes => if b = 0 then some [] else (terminated bytes).map (b :: ·)

/-- The name of an entry as it is stored. -/
def storedName (index : ℕ) : Option (List Byte) := do
  let nameOffset ← getNameOffset fst index
  terminated (fst.drop nameOffset)

variable (shiftJISToUTF8 : List Byte → List Byte)

def getName (index : ℕ) : Option (List Byte) := (storedName fst index).map shiftJISToUTF8

/-- Whether an entry is a directory with a file in it. -/
def encloses (index potential : ℕ) : Option Bool := do
  let directory ← isDirectory fst potential
  let size ← get fst potential .fileSize
  return directory && decide (index < size)

/-- The search backwards for a directory that contains a file; the entry before the first is outside
the table. -/
def potentialParent (index : ℕ) : ℕ → Option ℕ
  | 0 => do
    if ← encloses fst index 0 then return 0 else none
  | potential + 1 => do
    if ← encloses fst index (potential + 1) then return potential + 1
    else potentialParent index potential

/-- The slash. -/
def slash : Byte := 0x2F

def getPath : ℕ → ℕ → Option (List Byte)
  | 0, _ => none
  | fuel + 1, index => do
    if index = 0 then return []
    else if ← isDirectory fst index then
      let parentDirectoryIndex ← get fst index .fileOffset
      let path ← getPath fuel parentDirectoryIndex
      return path ++ (← getName fst shiftJISToUTF8 index) ++ [slash]
    else
      let parent ← potentialParent fst index (index - 1)
      let path ← getPath fuel parent
      return path ++ (← getName fst shiftJISToUTF8 index)

/-- A walk through a directory, depth first, with the entries that it visits. -/
def walk : ℕ → ℕ → List ℕ → Option (List ℕ)
  | 0, _, _ => none
  | fuel + 1, index, visited => do
    let result ← forEach fst index visited fun visited child => do
      let visited := visited ++ [child]
      let visited ← if ← isDirectory fst child then walk fuel child visited else pure visited
      return (Except.ok visited : Except Empty (List ℕ))
    match result with
    | .ok visited => return visited

end Entries

/-! ## Entries inside the table -/

section Bounded

open SkipForest

variable (fst : Table)

/-- The values of an entry that is inside the table. -/
def value (index : ℕ) (entryProperty : EntryProperty) : ℕ := (get fst index entryProperty).getD 0

def isNode (index : ℕ) : Bool := (isDirectory fst index).getD false

def next (index : ℕ) : ℕ := (getNextIndex fst index).getD 0

/-- A table that has `n` entries, and is not too large. -/
structure Bounded (n : ℕ) : Prop where
  entries : fstEntrySize * n ≤ fst.length
  length_le : fst.length ≤ 128 * 1024 * 1024

variable {fst} {n index : ℕ}

theorem Bounded.getAddress_eq (h : Bounded fst n) (hindex : index ≤ n) :
    getAddress index = fstEntrySize * index := by
  have hentries := h.entries
  have hlength := h.length_le
  unfold fstEntrySize at *
  exact Nat.mod_eq_of_lt (by unfold fstEntrySize; omega)

theorem swap32_eq {address : ℕ} (h : address + 4 ≤ fst.length) : ∃ v, swap32 fst address = some v := by
  unfold swap32
  rw [List.getElem?_eq_getElem (by omega), List.getElem?_eq_getElem (by omega),
    List.getElem?_eq_getElem (by omega), List.getElem?_eq_getElem (by omega)]
  exact ⟨_, rfl⟩

theorem Bounded.get_eq (h : Bounded fst n) (hindex : index < n) (entryProperty : EntryProperty) :
    get fst index entryProperty = some (value fst index entryProperty) := by
  have hentries := h.entries
  obtain ⟨v, hv⟩ : ∃ v, get fst index entryProperty = some v := by
    refine swap32_eq ?_
    rw [h.getAddress_eq hindex.le]
    unfold fstEntrySize at *
    cases entryProperty <;> simp only [EntryProperty.position] <;> omega
  rw [value, hv]
  rfl

theorem Bounded.isDirectory_eq (h : Bounded fst n) (hindex : index < n) :
    isDirectory fst index = some (isNode fst index) := by
  unfold isNode isDirectory
  rw [h.get_eq hindex]
  rfl

theorem Bounded.getNextIndex_eq (h : Bounded fst n) (hindex : index < n) :
    getNextIndex fst index = some (next fst index) := by
  unfold next getNextIndex getSize
  rw [h.isDirectory_eq hindex, h.get_eq hindex]
  cases isNode fst index <;> rfl

theorem Bounded.next_node (h : Bounded fst n) (hindex : index < n) (hnode : isNode fst index = true) :
    next fst index = value fst index .fileSize := by
  unfold next getNextIndex getSize
  rw [h.isDirectory_eq hindex, h.get_eq hindex, hnode]
  rfl

theorem Bounded.next_leaf (h : Bounded fst n) (hindex : index < n)
    (hnode : isNode fst index = false) : next fst index = index + 1 := by
  have hentries := h.entries
  have hlength := h.length_le
  unfold next getNextIndex
  rw [h.isDirectory_eq hindex, hnode]
  exact Nat.mod_eq_of_lt (by unfold fstEntrySize at *; omega)

/-! ## Loops over entries -/

/-- What a loop does, on the list of the entries that it comes to. -/
def runOver {σ α : Type} (body : σ → ℕ → Option (Except α σ)) : List ℕ → σ → Option (Except α σ)
  | [], s => some (.ok s)
  | child :: children, s => do
    match ← body s child with
    | .error result => return .error result
    | .ok s => runOver body children s

/-- **A loop over siblings** is one over the list of them. -/
theorem Bounded.forChildren_eq {σ α : Type} {body : σ → ℕ → Option (Except α σ)}
    (h : Bounded fst n) {index stop : ℕ} {l : List ℕ} (hl : Siblings (next fst) index stop l)
    (hstop : stop ≤ n) : ∀ {fuel : ℕ} {s : σ}, l.length < fuel →
    forChildren fst body fuel s index stop = runOver body l s := by
  induction hl with
  | nil a =>
    intro fuel s hfuel
    obtain ⟨fuel, rfl⟩ : ∃ k, fuel = k + 1 := ⟨fuel - 1, by omega⟩
    exact if_pos rfl
  | @cons a b l hlt hle hrest ih =>
    intro fuel s hfuel
    obtain ⟨fuel, rfl⟩ : ∃ k, fuel = k + 1 := ⟨fuel - 1, by omega⟩
    rw [List.length_cons] at hfuel
    have hne : getAddress a ≠ getAddress b := by
      rw [h.getAddress_eq (by omega), h.getAddress_eq hstop]
      unfold fstEntrySize
      omega
    unfold forChildren runOver
    rw [if_neg hne, h.getNextIndex_eq (by omega)]
    cases hbody : body s a with
    | none => rfl
    | some result =>
      cases result with
      | error result => rfl
      | ok s => exact ih hstop (by omega)

/-! ## What is validated -/

variable (fst) in
/-- The name of an entry starts in the table, and a directory has the index of its parent. -/
structure Checked (parent index : ℕ) : Prop where
  name : fstEntrySize * value fst 0 .fileSize + (value fst index .nameOffset &&& 0xFFFFFF) < fst.length
  parent : isNode fst index = true → value fst index .fileOffset = parent

/-- What is known of an entry that is valid. -/
structure Good (fst : Table) (parent index : ℕ) : Prop where
  checked : Checked fst parent index
  next_le : isNode fst index = true → next fst index ≤ value fst parent .fileSize
  forest : isNode fst index = true →
    Forest (isNode fst) (next fst) (Checked fst) index (index + 1) (next fst index)

/-- The body of the loop of `IsValid`. -/
def validChild (fst : Table) (fuel index : ℕ) (_ : Unit) (child : ℕ) : Option (Except Unit Unit) := do
  if ← isValid fst fuel child index then return .ok () else return .error ()

/-- **The loop of `IsValid`** ends inside the table; if all children are valid, they are a forest. -/
theorem Bounded.forChildren_valid (h : Bounded fst n) {fuel index : ℕ}
    (hsize : value fst index .fileSize ≤ n)
    (hvalid : ∀ child, index < child → child < value fst index .fileSize →
      ∃ ok, isValid fst fuel child index = some ok ∧ (ok = true → Good fst index child)) :
    ∀ (k child : ℕ), index < child → child ≤ value fst index .fileSize →
      value fst index .fileSize < k + child →
      ∃ result, forChildren fst (validChild fst fuel index) k () child (value fst index .fileSize) =
        some result ∧ (result = .ok () → Forest (isNode fst) (next fst) (Checked fst) index child
          (value fst index .fileSize))
  | 0, child, _, hle, hk => by omega
  | k + 1, child, hlt, hle, hk => by
    unfold forChildren
    rcases Nat.eq_or_lt_of_le hle with heq | hchild
    · rw [heq, if_pos rfl]
      exact ⟨_, rfl, fun _ => .nil _ _⟩
    · have hne : getAddress child ≠ getAddress (value fst index .fileSize) := by
        rw [h.getAddress_eq (by omega), h.getAddress_eq hsize]
        unfold fstEntrySize
        omega
      obtain ⟨ok, hok, hgood⟩ := hvalid child hlt hchild
      rw [if_neg hne, validChild, hok, h.getNextIndex_eq (by omega)]
      cases ok with
      | false => exact ⟨.error (), rfl, fun hfalse => by cases hfalse⟩
      | true =>
        obtain ⟨hchecked, hnext, hforest⟩ := hgood rfl
        cases hnode : isNode fst child with
        | false =>
          have hleaf := h.next_leaf (by omega) hnode
          obtain ⟨result, hrun, hresult⟩ :=
            h.forChildren_valid hsize hvalid k (child + 1) (by omega) hchild (by omega)
          rw [hleaf]
          exact ⟨result, hrun, fun hok => .leaf hnode hchecked hleaf (hresult hok)⟩
        | true =>
          have hbelow := (hforest hnode).le
          obtain ⟨result, hrun, hresult⟩ := h.forChildren_valid hsize hvalid k (next fst child)
            (by omega) (hnext hnode) (by omega)
          exact ⟨result, hrun, fun hok => .node hnode hchecked (hforest hnode) (hresult hok)⟩

/-- **`IsValid`** ends inside the table; what is valid is a tree. -/
theorem Bounded.isValid_spec (h : Bounded fst n) (hpos : 0 < n) (hroot : value fst 0 .fileSize = n) :
    ∀ (fuel index parent : ℕ), index < n → parent < n → value fst parent .fileSize ≤ n →
      n ≤ fuel + index →
      ∃ ok, isValid fst fuel index parent = some ok ∧ (ok = true → Good fst parent index)
  | 0, index, parent, hindex, _, _, hfuel => by omega
  | fuel + 1, index, parent, hindex, hparent, hsize, hfuel => by
    have hentries := h.entries
    have hlength := h.length_le
    unfold isValid getNameOffset getSize
    dsimp only [Option.bind_eq_bind]
    rw [h.get_eq hpos, h.get_eq hindex, h.get_eq hindex, h.get_eq hindex, h.get_eq hparent,
      h.isDirectory_eq hindex, hroot]
    dsimp only [Option.bind_some, Option.pure_def]
    split
    · exact ⟨false, rfl, fun hfalse => absurd hfalse Bool.false_ne_true⟩
    · next hname =>
      rw [← hroot] at hname
      cases hnode : isNode fst index with
      | false =>
        refine ⟨true, rfl, fun _ => ⟨⟨not_le.mp hname, fun hdir => ?_⟩, fun hdir => ?_, fun hdir => ?_⟩⟩
        all_goals exact absurd (hnode.symm.trans hdir) Bool.false_ne_true
      | true =>
        rw [Bool.not_true, if_neg Bool.false_ne_true]
        split
        · exact ⟨false, rfl, fun hfalse => absurd hfalse Bool.false_ne_true⟩
        · next hoffset =>
          split
          · exact ⟨false, rfl, fun hfalse => absurd hfalse Bool.false_ne_true⟩
          · next hsmall =>
            split
            · exact ⟨false, rfl, fun hfalse => absurd hfalse Bool.false_ne_true⟩
            · next hlarge =>
              have hnext := h.next_node hindex hnode
              have hle : value fst index .fileSize ≤ n := (not_lt.mp hlarge).trans hsize
              have hvalid : ∀ child, index < child → child < value fst index .fileSize →
                  ∃ ok, isValid fst fuel child index = some ok ∧ (ok = true → Good fst index child) :=
                fun child hlt hchild =>
                  h.isValid_spec hpos hroot fuel child index (by omega) hindex hle (by omega)
              have hstart : u32 (index + 1) = index + 1 :=
                Nat.mod_eq_of_lt (by unfold fstEntrySize at hentries; omega)
              obtain ⟨result, hrun, hresult⟩ := h.forChildren_valid hle hvalid fst.length (index + 1)
                (by omega) (by omega) (by unfold fstEntrySize at hentries; omega)
              have hloop : forEach fst index () (validChild fst fuel index) = some result := by
                unfold forEach
                rw [h.getNextIndex_eq hindex, hnext, hstart]
                exact hrun
              have hloop' : (forEach fst index () fun _ child =>
                  (isValid fst fuel child index).bind fun ok =>
                    if ok = true then some (Except.ok ()) else some (Except.error ())) =
                  some result := hloop
              rw [hloop']
              cases result with
              | error _ => exact ⟨false, rfl, fun hfalse => absurd hfalse Bool.false_ne_true⟩
              | ok _ =>
                refine ⟨true, rfl, fun _ => ⟨⟨not_le.mp hname, fun _ => not_not.mp hoffset⟩, fun _ => ?_,
                  fun _ => ?_⟩⟩
                · rw [hnext]
                  exact not_lt.mp hlarge
                · rw [hnext]
                  exact hresult rfl

theorem Bounded.isValid_root (h : Bounded fst 1) {fuel : ℕ} (hnode : isNode fst 0 = true)
    (hbad : value fst 0 .fileSize = 0 ∨ fst.length < fstEntrySize * value fst 0 .fileSize) :
    isValid fst (fuel + 1) 0 0 = some false := by
  unfold isValid getNameOffset getSize
  dsimp only [Option.bind_eq_bind]
  rw [h.get_eq Nat.one_pos, h.get_eq Nat.one_pos, h.get_eq Nat.one_pos, h.isDirectory_eq Nat.one_pos]
  dsimp only [Option.bind_some, Option.pure_def]
  split
  · rfl
  · next hname =>
    have hzero : value fst 0 .fileSize = 0 := by
      rcases hbad with hzero | hlt
      · exact hzero
      · omega
    rw [hnode, Bool.not_true, if_neg Bool.false_ne_true, if_pos hzero.le]
    split <;> rfl

/-- A table that has passed all checks, with `n` entries. -/
structure Valid (fst : Table) (n : ℕ) : Prop where
  bounded : Bounded fst n
  size_eq : value fst 0 .fileSize = n
  root : Checked fst 0 0
  tree : Tree (isNode fst) (next fst) (Checked fst) n
  last : fst[fst.length - 1]? = some 0

/-- **The checks** end inside any table; a table that passes them is a tree. -/
theorem fileSystemValid_spec (fst : Table) : ∃ ok, fileSystemValid fst = some ok ∧
    (ok = true → Valid fst (value fst 0 .fileSize)) := by
  unfold fileSystemValid getSize
  split
  · exact ⟨false, rfl, fun hfalse => absurd hfalse Bool.false_ne_true⟩
  · next hshort =>
    split
    · exact ⟨false, rfl, fun hfalse => absurd hfalse Bool.false_ne_true⟩
    · next hlong =>
      have hone : Bounded fst 1 := ⟨by rw [mul_one]; exact not_lt.mp hshort, not_lt.mp hlong⟩
      have hlast : fst.length - 1 < fst.length := by
        unfold fstEntrySize at hshort
        omega
      rw [hone.isDirectory_eq Nat.one_pos, hone.get_eq Nat.one_pos, List.getElem?_eq_getElem hlast]
      dsimp only [Option.bind_eq_bind, Option.bind_some, Option.pure_def]
      split
      · exact ⟨false, rfl, fun hfalse => absurd hfalse Bool.false_ne_true⟩
      · next hnode =>
        have hnode' : isNode fst 0 = true := by simpa using hnode
        split
        · exact ⟨false, rfl, fun hfalse => absurd hfalse Bool.false_ne_true⟩
        · split
          · exact ⟨false, rfl, fun hfalse => absurd hfalse Bool.false_ne_true⟩
          · next hzero =>
            by_cases hbad : value fst 0 .fileSize = 0 ∨
                fst.length < fstEntrySize * value fst 0 .fileSize
            · obtain ⟨fuel, hfuel⟩ : ∃ k, fst.length = k + 1 := ⟨fst.length - 1, by omega⟩
              refine ⟨false, ?_, fun hfalse => absurd hfalse Bool.false_ne_true⟩
              rw [hfuel]
              exact hone.isValid_root hnode' hbad
            · obtain ⟨hne, hle⟩ := not_or.mp hbad
              have hpos := Nat.pos_of_ne_zero hne
              have hbounded : Bounded fst (value fst 0 .fileSize) := ⟨not_lt.mp hle, hone.length_le⟩
              obtain ⟨ok, hok, hgood⟩ := hbounded.isValid_spec hpos rfl fst.length 0 0 hpos hpos le_rfl
                (by have := hbounded.entries; unfold fstEntrySize at this; omega)
              refine ⟨ok, hok, fun htrue => ?_⟩
              obtain ⟨hchecked, -, hforest⟩ := hgood htrue
              have hnext := hbounded.next_node hpos hnode'
              refine ⟨hbounded, rfl, hchecked, ⟨hnode', hnext, hnext ▸ hforest hnode'⟩, ?_⟩
              rw [List.getElem?_eq_getElem hlast, not_not.mp hzero]

namespace Valid

theorem get_eq (h : Valid fst n) (hindex : index < n) (entryProperty : EntryProperty) :
    get fst index entryProperty = some (value fst index entryProperty) :=
  h.bounded.get_eq hindex entryProperty

theorem pos (h : Valid fst n) : 0 < n := h.tree.pos

theorem checked (h : Valid fst n) (hindex : index < n) : ∃ parent, Checked fst parent index := by
  rcases Nat.eq_zero_or_pos index with rfl | hpos
  · exact ⟨0, h.root⟩
  · obtain ⟨q, -, hchecked⟩ := h.tree.parent hpos hindex
    exact ⟨q, hchecked⟩

theorem siblings (h : Valid fst n) (hindex : index < n) :
    ∃ l, Siblings (next fst) (index + 1) (next fst index) l ∧ l.length < n ∧
      ∀ c, c ∈ l ↔ Innermost (isNode fst) (next fst) index c := by
  cases hnode : isNode fst index with
  | true => exact h.tree.siblings hindex hnode
  | false =>
    rw [h.bounded.next_leaf hindex hnode]
    refine ⟨[], .nil _, h.pos, fun c => iff_of_false List.not_mem_nil fun hin => ?_⟩
    exact absurd (hnode.symm.trans hin.node) Bool.false_ne_true

/-- **The iteration over a directory** ends, and passes its children. -/
theorem forEach_eq {σ α : Type} {body : σ → ℕ → Option (Except α σ)} (h : Valid fst n)
    (hindex : index < n) {l : List ℕ} (hl : Siblings (next fst) (index + 1) (next fst index) l)
    (hlength : l.length < n) (s : σ) : forEach fst index s body = runOver body l s := by
  have hentries := h.bounded.entries
  have hle := h.bounded.length_le
  have hstart : u32 (index + 1) = index + 1 :=
    Nat.mod_eq_of_lt (by unfold fstEntrySize at hentries; omega)
  unfold forEach
  rw [h.bounded.getNextIndex_eq hindex, hstart]
  exact h.bounded.forChildren_eq hl (h.tree.lt_next hindex).2
    (by unfold fstEntrySize at hentries; omega)

/-! ## The walk -/

/-- The body of the walk's loop. -/
def visit (fst : Table) (fuel : ℕ) (visited : List ℕ) (child : ℕ) :
    Option (Except Empty (List ℕ)) := do
  let visited := visited ++ [child]
  let visited ← if ← isDirectory fst child then walk fst fuel child visited else pure visited
  return Except.ok visited

theorem runOver_visit (h : Valid fst n) {fuel : ℕ}
    (hwalk : ∀ child < n, isNode fst child = true → n ≤ fuel + child → ∀ visited,
      walk fst fuel child visited =
        some (visited ++ List.range' (child + 1) (next fst child - (child + 1)))) {a b : ℕ}
    {l : List ℕ} (hl : Siblings (next fst) a b l) (hb : b ≤ n) (hfuel : n ≤ fuel + a) :
    ∀ visited, runOver (visit fst fuel) l visited = some (.ok (visited ++ List.range' a (b - a))) := by
  induction hl with
  | nil a =>
    intro visited
    rw [Nat.sub_self, List.range'_zero, List.append_nil]
    rfl
  | @cons a b l hlt hle hrest ih =>
    intro visited
    have hvisit : visit fst fuel visited a =
        some (.ok (visited ++ List.range' a (next fst a - a))) := by
      unfold visit
      rw [h.bounded.isDirectory_eq (by omega)]
      have hfirst : List.range' a (next fst a - a) =
          a :: List.range' (a + 1) (next fst a - (a + 1)) := by
        have hsucc : next fst a - a = next fst a - (a + 1) + 1 := by omega
        rw [hsucc, List.range'_succ]
      rw [hfirst]
      cases hnode : isNode fst a with
      | true =>
        dsimp only [Option.bind_eq_bind, Option.bind_some]
        rw [if_pos rfl, hwalk a (by omega) hnode hfuel, List.append_assoc]
        rfl
      | false =>
        have hleaf := h.bounded.next_leaf (show a < n by omega) hnode
        rw [hleaf, Nat.sub_self, List.range'_zero]
        rfl
    have hsplit : List.range' a (b - a) =
        List.range' a (next fst a - a) ++ List.range' (next fst a) (b - next fst a) := by
      have happend : List.range' a (next fst a - a) ++
          List.range' (a + (next fst a - a)) (b - next fst a) =
          List.range' a (next fst a - a + (b - next fst a)) := List.range'_append_1
      have hsum : b - a = next fst a - a + (b - next fst a) := by omega
      rw [Nat.add_sub_cancel' hlt.le] at happend
      rw [hsum, happend]
    unfold runOver
    rw [hvisit, hsplit, ← List.append_assoc]
    exact ih hb (by omega) _

/-- **The walk** from a directory visits each entry below it once, in order. -/
theorem walk_eq (h : Valid fst n) : ∀ (fuel index : ℕ), index < n → isNode fst index = true →
    n ≤ fuel + index → ∀ visited, walk fst fuel index visited =
      some (visited ++ List.range' (index + 1) (next fst index - (index + 1)))
  | 0, index, hindex, _, hfuel, _ => by omega
  | fuel + 1, index, hindex, hnode, hfuel, visited => by
    obtain ⟨l, hl, hlength, -⟩ := h.siblings hindex
    have hloop : forEach fst index visited (visit fst fuel) =
        some (.ok (visited ++ List.range' (index + 1) (next fst index - (index + 1)))) := by
      rw [h.forEach_eq hindex hl hlength]
      exact h.runOver_visit (fun child hchild hnode hfuel => h.walk_eq fuel child hchild hnode hfuel)
        hl (h.tree.lt_next hindex).2 (by omega) visited
    unfold walk
    exact congrArg (fun result => Option.bind result _) hloop

end Valid

end Bounded

end FileSystemGCWii
