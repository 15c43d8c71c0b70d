import PrimedSteam.JitCache.Model
import Mathlib.Data.List.Range

/-!
# The pages of an invalidation

`InvalidateICache` goes through an effective range in steps of the page that the current address is in:
128 KiB where a BAT translates it, and 4 KiB elsewhere.

* `PageMap`: an assignment of pages, and what `JitCache_TranslateAddress` makes of it.
* `pageCalls`: the loop with all arguments of the calls that it makes; `map_pageCalls` relates it to
  the physical ranges of the model of the cache.
* **`icacheCalls_cover`**: the calls go through the translated addresses of the range in order.
-/

set_option autoImplicit false

namespace JitCache

namespace Cache

/-- The BAT entries, each for 128 KiB, and what translates the other pages of 4 KiB. -/
structure PageMap where
  /-- The physical number of a block that a BAT maps. -/
  bat : ℕ → Option ℕ
  /-- The physical number of a page, and whether it comes from the page table. -/
  page : ℕ → Option (ℕ × Bool)

/-- `JitCache_TranslateAddress` -/
def PageMap.translate (m : PageMap) : Translation := fun address =>
  match m.bat (address / 2 ^ batIndexShift) with
  | some block =>
    ⟨true, true, true, block * 2 ^ batIndexShift + address % 2 ^ batIndexShift⟩
  | none =>
    match m.page (address / 2 ^ hwPageIndexShift) with
    | some (page, translated) =>
      ⟨true, translated, false, page * 2 ^ hwPageIndexShift + address % 2 ^ hwPageIndexShift⟩
    | none => ⟨false, false, false, 0⟩

/-- A call of `InvalidateICacheInternal`. -/
structure InternalCall where
  physicalAddress : ℕ
  address : ℕ
  length : ℕ

/-- The size of the page that the loop takes an address to be in. -/
def pageSize (translated : TranslateResult) : ℕ :=
  let addressFromBat := translated.valid && translated.translated && translated.fromBat
  2 ^ (if addressFromBat then batIndexShift else hwPageIndexShift)

/-- The loop of `InvalidateICache`, with the calls that it makes. -/
def pageCalls (tr : Translation) : ℕ → ℕ → ℕ → List InternalCall
  | 0, _, _ => []
  | fuel + 1, address, length =>
    if length = 0 then [] else
      let translated := tr address
      let size := pageSize translated
      let lastAddress := wrap (address + (length - 1))
      if address / size = lastAddress / size then
        if translated.valid then [⟨translated.address, address, length⟩] else []
      else
        let endOfPage := wrap (address + size) / size * size
        let lengthThisPage := wrap (endOfPage + (2 ^ 32 - address))
        (if translated.valid then [⟨translated.address, address, lengthThisPage⟩] else []) ++
          pageCalls tr fuel (wrap (address + lengthThisPage)) (length - lengthThisPage)

/-- The calls of `InvalidateICache`. Each page takes at least one byte of the range. -/
def icacheCalls (tr : Translation) (address length : ℕ) : List InternalCall :=
  pageCalls tr length address length

theorem pageRanges_succ (tr : Translation) (fuel address length : ℕ) :
    pageRanges tr (fuel + 1) address length =
      if length = 0 then []
      else if address / pageSize (tr address) =
          wrap (address + (length - 1)) / pageSize (tr address) then
        if (tr address).valid then [((tr address).address, length)] else []
      else
        let endOfPage := wrap (address + pageSize (tr address)) / pageSize (tr address) *
          pageSize (tr address)
        let lengthThisPage := wrap (endOfPage + (2 ^ 32 - address))
        (if (tr address).valid then [((tr address).address, lengthThisPage)] else []) ++
          pageRanges tr fuel (wrap (address + lengthThisPage)) (length - lengthThisPage) :=
  rfl

/-- The calls pass on the physical ranges of the model. -/
theorem map_pageCalls (tr : Translation) : ∀ fuel address length,
    (pageCalls tr fuel address length).map (fun c => (c.physicalAddress, c.length)) =
      pageRanges tr fuel address length
  | 0, _, _ => rfl
  | fuel + 1, address, length => by
    have ih := map_pageCalls tr fuel
    rw [pageCalls, pageRanges_succ]
    by_cases hzero : length = 0
    · rw [if_pos hzero, if_pos hzero]
      rfl
    · rw [if_neg hzero, if_neg hzero]
      by_cases hpage : address / pageSize (tr address) =
          wrap (address + (length - 1)) / pageSize (tr address)
      · rw [if_pos hpage, if_pos hpage]
        cases (tr address).valid <;> rfl
      · rw [if_neg hpage, if_neg hpage, List.map_append, ih]
        cases (tr address).valid <;> rfl

/-! ## Pages -/

/-- A page is translated as a whole. -/
structure Paged (tr : Translation) : Prop where
  size : ∀ a, pageSize (tr a) = 2 ^ 12 ∨ pageSize (tr a) = 2 ^ 17
  valid : ∀ a a', a / pageSize (tr a) = a' / pageSize (tr a) → (tr a').valid = (tr a).valid
  address : ∀ a a', a ≤ a' → a / pageSize (tr a) = a' / pageSize (tr a) → (tr a).valid = true →
    (tr a').address = (tr a).address + (a' - a)

namespace PageMap

variable {m : PageMap} {a block page : ℕ} {translated : Bool}

theorem translate_bat (h : m.bat (a / 2 ^ 17) = some block) :
    m.translate a = ⟨true, true, true, block * 2 ^ 17 + a % 2 ^ 17⟩ := by
  simp only [translate, batIndexShift, h]

theorem translate_page (h : m.bat (a / 2 ^ 17) = none)
    (hpage : m.page (a / 2 ^ 12) = some (page, translated)) :
    m.translate a = ⟨true, translated, false, page * 2 ^ 12 + a % 2 ^ 12⟩ := by
  simp only [translate, batIndexShift, hwPageIndexShift, h, hpage]

theorem translate_none (h : m.bat (a / 2 ^ 17) = none) (hpage : m.page (a / 2 ^ 12) = none) :
    m.translate a = ⟨false, false, false, 0⟩ := by
  simp only [translate, batIndexShift, hwPageIndexShift, h, hpage]

theorem paged (m : PageMap) : Paged m.translate := by
  have hall : ∀ a, (pageSize (m.translate a) = 2 ^ 12 ∨ pageSize (m.translate a) = 2 ^ 17) ∧
      ∀ a', a / pageSize (m.translate a) = a' / pageSize (m.translate a) →
        (m.translate a').valid = (m.translate a).valid ∧
        (a ≤ a' → (m.translate a).valid = true →
          (m.translate a').address = (m.translate a).address + (a' - a)) := by
    intro a
    cases hbat : m.bat (a / 2 ^ 17) with
    | some block =>
      rw [translate_bat hbat]
      refine ⟨Or.inr rfl, fun a' hsame => ?_⟩
      have hsame : a / 2 ^ 17 = a' / 2 ^ 17 := hsame
      rw [translate_bat (hsame ▸ hbat)]
      refine ⟨rfl, fun hle _ => ?_⟩
      dsimp only
      omega
    | none =>
      cases hpage : m.page (a / 2 ^ 12) with
      | some entry =>
        obtain ⟨page, translated⟩ := entry
        have hsize : pageSize ⟨true, translated, false, page * 2 ^ 12 + a % 2 ^ 12⟩ = 2 ^ 12 := by
          cases translated <;> rfl
        rw [translate_page hbat hpage, hsize]
        refine ⟨Or.inl rfl, fun a' hsame => ?_⟩
        have hblock : a / 2 ^ 17 = a' / 2 ^ 17 := by omega
        rw [translate_page (hblock ▸ hbat) (hsame ▸ hpage)]
        refine ⟨rfl, fun hle _ => ?_⟩
        dsimp only
        omega
      | none =>
        rw [translate_none hbat hpage]
        refine ⟨Or.inl rfl, fun a' hsame => ?_⟩
        have hsame : a / 2 ^ 12 = a' / 2 ^ 12 := hsame
        have hblock : a / 2 ^ 17 = a' / 2 ^ 17 := by omega
        rw [translate_none (hblock ▸ hbat) (hsame ▸ hpage)]
        exact ⟨rfl, fun _ hvalid => Bool.noConfusion hvalid⟩
  exact ⟨fun a => (hall a).1, fun a a' hsame => ((hall a).2 a' hsame).1,
    fun a a' hle hsame => ((hall a).2 a' hsame).2 hle⟩

end PageMap

/-! ## The calls -/

section Cover

variable {tr : Translation} {address length : ℕ}

/-- The effective addresses that calls go through. -/
def effective (calls : List InternalCall) : List ℕ :=
  calls.flatMap fun c => List.range' c.address c.length

/-- The physical addresses that calls go through. -/
def physical (calls : List InternalCall) : List ℕ :=
  calls.flatMap fun c => List.range' c.physicalAddress c.length

theorem covers_page (h : Paged tr)
    (hsame : ∀ a ∈ List.range' address length,
      address / pageSize (tr address) = a / pageSize (tr address)) :
    let calls : List InternalCall :=
      if (tr address).valid then [⟨(tr address).address, address, length⟩] else []
    effective calls = (List.range' address length).filter (fun a => (tr a).valid) ∧
      physical calls = ((List.range' address length).filter (fun a => (tr a).valid)).map
        fun a => (tr a).address := by
  have hvalid : ∀ a ∈ List.range' address length, (tr a).valid = (tr address).valid :=
    fun a ha => h.valid address a (hsame a ha)
  dsimp only
  cases hcase : (tr address).valid with
  | false =>
    have hfilter : (List.range' address length).filter (fun a => (tr a).valid) = [] := by
      refine List.filter_eq_nil_iff.mpr fun a ha => ?_
      rw [hvalid a ha, hcase]
      exact Bool.false_ne_true
    rw [hfilter]
    exact ⟨rfl, rfl⟩
  | true =>
    have hfilter : (List.range' address length).filter (fun a => (tr a).valid) =
        List.range' address length := by
      refine List.filter_eq_self.mpr fun a ha => ?_
      rw [hvalid a ha, hcase]
    rw [hfilter]
    refine ⟨List.append_nil _, (List.append_nil _).trans ?_⟩
    refine List.ext_getElem (by simp) fun i hi hi' => ?_
    simp only [List.getElem_map, List.getElem_range', one_mul]
    have hmem : address + i ∈ List.range' address length := by
      simp only [List.length_range'] at hi
      simp only [List.mem_range'_1]
      omega
    rw [h.address address (address + i) (Nat.le_add_right _ _) (hsame _ hmem) hcase]
    omega

/-- What is left of the page of an address, when the range goes on after it. -/
theorem lengthThisPage_spec {size : ℕ} (hsize : size = 2 ^ 12 ∨ size = 2 ^ 17)
    (hfit : address + length ≤ 2 ^ 32) (hpage : address / size ≠ (address + (length - 1)) / size) :
    ∃ n, wrap (wrap (address + size) / size * size + (2 ^ 32 - address)) = n ∧ 0 < n ∧ n < length ∧
      ∀ a ∈ List.range' address n, address / size = a / size := by
  refine ⟨_, rfl, ?_⟩
  simp only [List.mem_range'_1]
  unfold wrap
  rcases hsize with rfl | rfl
  · refine ⟨by omega, by omega, fun a ha => ?_⟩
    omega
  · refine ⟨by omega, by omega, fun a ha => ?_⟩
    omega

theorem pageCalls_cover (h : Paged tr) (fuel : ℕ) : ∀ address length, length ≤ fuel →
    address + length ≤ 2 ^ 32 →
    effective (pageCalls tr fuel address length) =
        (List.range' address length).filter (fun a => (tr a).valid) ∧
      physical (pageCalls tr fuel address length) =
        ((List.range' address length).filter (fun a => (tr a).valid)).map
          fun a => (tr a).address := by
  induction fuel with
  | zero =>
    intro address length hle _
    rw [Nat.le_zero.mp hle]
    exact ⟨rfl, rfl⟩
  | succ fuel ih =>
    intro address length hle hfit
    rw [pageCalls]
    by_cases hzero : length = 0
    · rw [if_pos hzero, hzero]
      exact ⟨rfl, rfl⟩
    · have hlast : wrap (address + (length - 1)) = address + (length - 1) :=
        Nat.mod_eq_of_lt (by omega)
      rw [if_neg hzero]
      dsimp only
      rw [hlast]
      by_cases hpage : address / pageSize (tr address) =
          (address + (length - 1)) / pageSize (tr address)
      · rw [if_pos hpage]
        refine covers_page h fun a ha => ?_
        have hbounds := List.mem_range'_1.mp ha
        have hlow : address / pageSize (tr address) ≤ a / pageSize (tr address) :=
          Nat.div_le_div_right hbounds.1
        have hhigh : a / pageSize (tr address) ≤
            (address + (length - 1)) / pageSize (tr address) :=
          Nat.div_le_div_right (by omega)
        omega
      · obtain ⟨n, hn, hpos, hlt, hsame⟩ := lengthThisPage_spec (h.size address) hfit hpage
        have hnext : wrap (address + n) = address + n := Nat.mod_eq_of_lt (by omega)
        have hsplit : List.range' address length =
            List.range' address n ++ List.range' (address + n) (length - n) := by
          rw [List.range'_append_1, Nat.add_sub_of_le hlt.le]
        obtain ⟨heffective, hphysical⟩ := covers_page h hsame
        obtain ⟨heffective', hphysical'⟩ := ih (address + n) (length - n) (by omega) (by omega)
        rw [if_neg hpage, hn, hnext, hsplit, List.filter_append, List.map_append, effective,
          physical, List.flatMap_append, List.flatMap_append]
        exact ⟨congrArg₂ _ heffective heffective', congrArg₂ _ hphysical hphysical'⟩

end Cover

/-- **The calls of `InvalidateICache`** go through each effective address of the range once, without
those that are not mapped, and through the physical addresses that they are translated to. -/
theorem icacheCalls_cover (m : PageMap) {address length : ℕ} (hfit : address + length ≤ 2 ^ 32) :
    effective (icacheCalls m.translate address length) =
      (List.range' address length).filter (fun a => (m.translate a).valid) ∧
    physical (icacheCalls m.translate address length) =
      ((List.range' address length).filter (fun a => (m.translate a).valid)).map
        (fun a => (m.translate a).address) ∧
    (icacheCalls m.translate address length).map (fun c => (c.physicalAddress, c.length)) =
      icacheRanges m.translate address length := by
  obtain ⟨heffective, hphysical⟩ := pageCalls_cover m.paged length address length le_rfl hfit
  exact ⟨heffective, hphysical, map_pageCalls _ _ _ _⟩

/-- A page from the page table, a page that is not mapped, and the block of a BAT. -/
def mixedPages : PageMap where
  bat block := if block = 1 then some 0x200 else none
  page page := if page = 0x1F then none else some (page + 0x100, true)

theorem icacheCalls_cover_mixedPages :
    icacheRanges mixedPages.translate 0x1EFF0 0x1110 = [(0x11EFF0, 0x10), (0x4000000, 0x100)] ∧
    physical (icacheCalls mixedPages.translate 0x1EFF0 0x1110) =
      ((List.range' 0x1EFF0 0x1110).filter (fun a => (mixedPages.translate a).valid)).map
        (fun a => (mixedPages.translate a).address) :=
  ⟨by decide +kernel, (icacheCalls_cover mixedPages (by decide)).2.1⟩

end Cache

end JitCache
