import PrimedSteam.Lib.OrderedMap
import PrimedSteam.DiscIO.FileSystemGCWii

/-!
# Files by offset

The files of a file system are kept by where they end. Files may overlap, and of those with the same end
the first one
is kept.

* `findFileInfoAt`: the lookup of an offset of the disc.
* `findFileInfoAt_spec`: it stays inside the table, and finds a file around the offset.
-/

set_option autoImplicit false

namespace FileSystemGCWii

section Lookup

variable (fst : Table) (offsetShift : ℕ)

/-- The value of a `u64` computation. -/
def u64 (x : ℕ) : ℕ := x % 2 ^ 64

/-- `GetOffset` -/
def getOffset (index : ℕ) : Option ℕ := (get fst index .fileOffset).map fun offset => u64 (offset <<< offsetShift)

/-- The end of a file. -/
def getEnd (index : ℕ) : Option ℕ := do
  let offset ← getOffset fst offsetShift index
  let size ← getSize fst index
  return u64 (offset + size)

/-- The entries that are cached: files that are not empty. -/
def addToCache (cache : OrderedMap ℕ ℕ) (i : ℕ) : Option (OrderedMap ℕ ℕ) := do
  if ← isDirectory fst i then return cache
  else if (← getSize fst i) = 0 then return cache
  else return cache.emplace (← getEnd fst offsetShift i) i

/-- The loop that builds the cache. -/
def buildCache : Option (OrderedMap ℕ ℕ) := do
  let fstEntries ← getSize fst 0
  (List.range fstEntries).foldlM (addToCache fst offsetShift) OrderedMap.empty

/-- `FindFileInfo` for an offset: the file, if there is one. -/
def findFileInfoAt (discOffset : ℕ) : Option (Option ℕ) := do
  if !(← fileSystemValid fst) then return none
  else
    let cache ← buildCache fst offsetShift
    -- the first file that ends after the offset
    match cache.next discOffset with
    | none => return none
    | some fileEnd =>
      let index := cache.get fileEnd
      if (← getOffset fst offsetShift index) ≤ discOffset then return some index else return none

end Lookup

variable {fst : Table} {offsetShift n index : ℕ}

theorem Bounded.getOffset_eq (h : Bounded fst n) (hindex : index < n) :
    getOffset fst offsetShift index = some (u64 (value fst index .fileOffset <<< offsetShift)) := by
  rw [getOffset, h.get_eq hindex]
  rfl

theorem Bounded.getSize_eq (h : Bounded fst n) (hindex : index < n) :
    getSize fst index = some (value fst index .fileSize) := h.get_eq hindex .fileSize

theorem Bounded.getEnd_eq (h : Bounded fst n) (hindex : index < n) : getEnd fst offsetShift index
      = some (u64 (u64 (value fst index .fileOffset <<< offsetShift) + value fst index .fileSize)) := by
  rw [getEnd, h.getOffset_eq hindex, h.getSize_eq hindex]
  rfl

/-- Each cached file is kept by its end. -/
structure Cached (fst : Table) (offsetShift n : ℕ) (cache : OrderedMap ℕ ℕ) : Prop where
  lt : ∀ fileEnd ∈ cache.keys, cache.get fileEnd < n
  isFile : ∀ fileEnd ∈ cache.keys, isDirectory fst (cache.get fileEnd) = some false
  end_eq : ∀ fileEnd ∈ cache.keys, getEnd fst offsetShift (cache.get fileEnd) = some fileEnd

theorem Bounded.addToCache_spec (h : Bounded fst n) (hindex : index < n) {cache : OrderedMap ℕ ℕ}
    (hcache : Cached fst offsetShift n cache) :
    ∃ cache', addToCache fst offsetShift cache index = some cache' ∧ Cached fst offsetShift n cache' := by
  cases hnode : isNode fst index with
  | true =>
    refine ⟨cache, ?_, hcache⟩
    rw [addToCache, h.isDirectory_eq hindex, hnode]
    rfl
  | false =>
    have hfile : isDirectory fst index = some false := by rw [h.isDirectory_eq hindex, hnode]
    by_cases hsize : value fst index .fileSize = 0
    · refine ⟨cache, ?_, hcache⟩
      rw [addToCache, hfile, h.getSize_eq hindex, hsize]
      rfl
    · obtain ⟨fileEnd, hend⟩ : ∃ fileEnd, getEnd fst offsetShift index = some fileEnd := ⟨_, h.getEnd_eq hindex⟩
      have hadd : addToCache fst offsetShift cache index = some (cache.emplace fileEnd index) := by
        rw [addToCache, hfile, h.getSize_eq hindex, hend]
        exact if_neg hsize
      -- an end that is already there keeps its file
      have hkeep : ∀ x, x ∈ (cache.emplace fileEnd index).keys →
          (cache.emplace fileEnd index).get x = index ∧ x = fileEnd ∨
            x ∈ cache.keys ∧ (cache.emplace fileEnd index).get x = cache.get x := by
        intro x hx
        rw [OrderedMap.get_emplace]
        by_cases hnew : x = fileEnd ∧ fileEnd ∉ cache.keys
        · exact Or.inl ⟨if_pos hnew, hnew.1⟩
        · refine Or.inr ⟨?_, if_neg hnew⟩
          rcases (OrderedMap.mem_keys_emplace cache fileEnd x index).mp hx with rfl | hmem
          · exact not_not.mp fun hnot => hnew ⟨rfl, hnot⟩
          · exact hmem
      refine ⟨_, hadd, fun x hx => ?_, fun x hx => ?_, fun x hx => ?_⟩
      · rcases hkeep x hx with ⟨hget, -⟩ | ⟨hmem, hget⟩
        · rw [hget]
          exact hindex
        · rw [hget]
          exact hcache.lt x hmem
      · rcases hkeep x hx with ⟨hget, -⟩ | ⟨hmem, hget⟩
        · rw [hget, hfile]
        · rw [hget, hcache.isFile x hmem]
      · rcases hkeep x hx with ⟨hget, rfl⟩ | ⟨hmem, hget⟩
        · rw [hget, hend]
        · rw [hget, hcache.end_eq x hmem]

theorem Bounded.buildCache_spec (h : Bounded fst n) (hpos : 0 < n) (hsize : value fst 0 .fileSize = n) :
    ∃ cache, buildCache fst offsetShift = some cache ∧ Cached fst offsetShift n cache := by
  have hloop : ∀ (l : List ℕ) (cache : OrderedMap ℕ ℕ), (∀ i ∈ l, i < n) → Cached fst offsetShift n cache →
      ∃ cache', l.foldlM (addToCache fst offsetShift) cache = some cache' ∧ Cached fst offsetShift n cache' := by
    intro l
    induction l with
    | nil => exact fun cache _ hcache => ⟨cache, rfl, hcache⟩
    | cons i l ih =>
      intro cache hl hcache
      obtain ⟨hi, hl⟩ := List.forall_mem_cons.mp hl
      obtain ⟨cache', hadd, hcache'⟩ := h.addToCache_spec hi hcache
      obtain ⟨cache'', hrest, hcache''⟩ := ih cache' hl hcache'
      refine ⟨cache'', ?_, hcache''⟩
      rw [List.foldlM_cons, hadd]
      exact hrest
  have hempty : Cached fst offsetShift n OrderedMap.empty := by
    refine ⟨?_, ?_, ?_⟩
    · exact fun x hx => absurd hx List.not_mem_nil
    · exact fun x hx => absurd hx List.not_mem_nil
    · exact fun x hx => absurd hx List.not_mem_nil
  obtain ⟨cache, hcache, hspec⟩ := hloop (List.range n) OrderedMap.empty (fun i hi => List.mem_range.mp hi) hempty
  refine ⟨cache, ?_, hspec⟩
  rw [buildCache, h.getSize_eq hpos, hsize]
  exact hcache

/-- A file around an offset. -/
structure Contains (fst : Table) (offsetShift discOffset index : ℕ) : Prop where
  isFile : isDirectory fst index = some false
  range : ∃ offset size, getOffset fst offsetShift index = some offset ∧ getSize fst index = some size ∧
    offset ≤ discOffset ∧ discOffset < u64 (offset + size)

/-- **The lookup** stays inside any table, and a file that it finds contains the offset. -/
theorem findFileInfoAt_spec (fst : Table) (offsetShift discOffset : ℕ) :
    ∃ result, findFileInfoAt fst offsetShift discOffset = some result ∧
      ∀ index ∈ result, Contains fst offsetShift discOffset index := by
  obtain ⟨ok, hok, hvalid⟩ := fileSystemValid_spec fst
  cases ok with
  | false =>
    refine ⟨none, ?_, fun index h => absurd h (Option.not_mem_none index)⟩
    rw [findFileInfoAt, hok]
    rfl
  | true =>
    have hv := hvalid rfl
    obtain ⟨cache, hbuild, hcache⟩ : ∃ cache, buildCache fst offsetShift = some cache ∧
      Cached fst offsetShift _ cache :=
      hv.bounded.buildCache_spec hv.tree.pos rfl
    cases hnext : cache.next discOffset with
    | none =>
      refine ⟨none, ?_, fun index h => absurd h (Option.not_mem_none index)⟩
      rw [findFileInfoAt, hok, hbuild]
      dsimp only [Option.bind_eq_bind, Option.bind_some]
      rw [hnext]
      rfl
    | some fileEnd =>
      obtain ⟨hmem, hlt, -⟩ := cache.next_eq_some_iff.mp hnext
      have hindex := hcache.lt fileEnd hmem
      have hoffset : getOffset fst offsetShift _ = some _ := hv.bounded.getOffset_eq hindex
      have hend := hcache.end_eq fileEnd hmem
      rw [hv.bounded.getEnd_eq hindex, Option.some_inj] at hend
      by_cases hle : u64 (value fst (cache.get fileEnd) .fileOffset <<< offsetShift) ≤ discOffset
      · refine ⟨some (cache.get fileEnd), ?_, fun index h => ?_⟩
        · rw [findFileInfoAt, hok, hbuild]
          dsimp only [Option.bind_eq_bind, Option.bind_some]
          rw [hnext]
          dsimp only
          rw [hoffset]
          exact if_pos hle
        · rw [← Option.some_inj.mp h]
          exact ⟨hcache.isFile fileEnd hmem, _, _, hoffset, hv.bounded.getSize_eq hindex, hle,
            by rw [hend]; exact hlt⟩
      · refine ⟨none, ?_, fun index h => absurd h (Option.not_mem_none index)⟩
        rw [findFileInfoAt, hok, hbuild]
        dsimp only [Option.bind_eq_bind, Option.bind_some]
        rw [hnext]
        dsimp only
        rw [hoffset]
        exact if_neg hle

end FileSystemGCWii
