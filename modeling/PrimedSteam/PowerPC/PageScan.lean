import PrimedSteam.PowerPC.PageTable
import Mathlib.Data.Fintype.Basic
import Mathlib.Data.List.Nodup
import Mathlib.Data.List.Pairwise

/-!
# The scan of a page table over an empty copy

* `tryAddMapping_spec`: what an entry adds to the mappings of each page.
* `pass1_spec`, `pass2_spec`: what the two passes leave in the mappings and in the copy.
* **`scan_pageMappings`**: the mapping of a page is that of its primary entries merged in the order of
  the table, and of its secondary ones after them.
* `merged_eq_some`: of these, it is the last one with the least priority number.
-/

set_option autoImplicit false

namespace PowerPC

/-- An existing mapping keeps its place if it has priority. -/
def PageMapping.merge (existing : Option PageMapping) (mapping : PageMapping) : Option PageMapping :=
  match existing with
  | none => some mapping
  | some m => if m.priority < mapping.priority then some m else some mapping

namespace Mmu

variable (mmu : Mmu)

/-- The segment register is that of the entry. -/
def SrMatches (pte : Pte) (i : Fin 16) : Prop :=
  mmu.srVsid i = pte.lo.vsid ∧ mmu.srT i = false

instance (pte : Pte) (i : Fin 16) : Decidable (mmu.SrMatches pte i) := inferInstanceAs (Decidable (_ ∧ _))

/-- The scan adds a mapping of the page for the entry at `slot`. -/
def Adds (pte : Pte) (slot : ℕ) (page : LogicalPage) : Prop :=
  mmu.getPageIndex pte.lo (BitVec.ofNat 32 (slot / 8)) = some page.pageIndex ∧
    mmu.SrMatches pte page.sr

instance (pte : Pte) (slot : ℕ) (page : LogicalPage) : Decidable (mmu.Adds pte slot page) :=
  inferInstanceAs (Decidable (_ ∧ _))

/-- The mapping of a page by an entry. -/
def mappingOf (pte : Pte) (slot : ℕ) (page : LogicalPage) : PageMapping :=
  ⟨pte.hi.rpn, mmu.hostMapping pte.hi page, entryPriority pte.lo slot⟩

variable {mmu} {pte : Pte} {slot : ℕ} {s : Scan}

@[simp] theorem putMapping_pageMappings (pte2 : PteHi) (page : LogicalPage) (mapping : PageMapping) :
    (putMapping pte2 page mapping s).pageMappings =
      Function.update s.pageMappings page (some mapping) := by
  unfold putMapping
  split_ifs <;> rfl

@[simp] theorem putMapping_oldTable (pte2 : PteHi) (page : LogicalPage) (mapping : PageMapping) :
    (putMapping pte2 page mapping s).oldTable = s.oldTable := by
  unfold putMapping
  split_ifs <;> rfl

@[simp] theorem putMapping_runPass2 (pte2 : PteHi) (page : LogicalPage) (mapping : PageMapping) :
    (putMapping pte2 page mapping s).runPass2 = s.runPass2 := by
  unfold putMapping
  split_ifs <;> rfl

theorem addMapping_spec (pageIndex : BitVec 16) (i : Fin 16) (s : Scan) :
    (∀ page, (mmu.addMapping pte slot pageIndex s i).pageMappings page =
        if page = ⟨i, pageIndex⟩ ∧ mmu.SrMatches pte i then
          PageMapping.merge (s.pageMappings page) (mmu.mappingOf pte slot page)
        else s.pageMappings page) ∧
      (mmu.addMapping pte slot pageIndex s i).oldTable = s.oldTable ∧
      (mmu.addMapping pte slot pageIndex s i).runPass2 = s.runPass2 := by
  unfold addMapping
  by_cases hskip : mmu.srVsid i ≠ pte.lo.vsid ∨ mmu.srT i
  · have hno : ¬mmu.SrMatches pte i := by
      rintro ⟨hvsid, ht⟩
      rcases hskip with h | h
      · exact h hvsid
      · rw [ht] at h
        cases h
    rw [if_pos hskip]
    exact ⟨fun page => (if_neg fun h => hno h.2).symm, rfl, rfl⟩
  · have hmatch : mmu.SrMatches pte i := by
      rw [not_or, not_not, Bool.not_eq_true] at hskip
      exact hskip
    rw [if_neg hskip]
    -- only the page of the entry in this segment has a new mapping
    have hupdate : ∀ new : Option PageMapping,
        new = PageMapping.merge (s.pageMappings ⟨i, pageIndex⟩) (mmu.mappingOf pte slot ⟨i, pageIndex⟩) →
        ∀ page, Function.update s.pageMappings ⟨i, pageIndex⟩ new page =
          if page = ⟨i, pageIndex⟩ ∧ mmu.SrMatches pte i then
            PageMapping.merge (s.pageMappings page) (mmu.mappingOf pte slot page)
          else s.pageMappings page := by
      rintro new rfl page
      by_cases hpage : page = ⟨i, pageIndex⟩
      · rw [if_pos ⟨hpage, hmatch⟩, hpage, Function.update_self]
      · rw [if_neg fun h => hpage h.1, Function.update_of_ne hpage]
    dsimp only
    cases hold : s.pageMappings ⟨i, pageIndex⟩ with
    | none =>
      simp only [putMapping_pageMappings, putMapping_oldTable, putMapping_runPass2, and_true]
      exact hupdate _ (by rw [hold]; rfl)
    | some existing =>
      dsimp only
      split_ifs with hprior
      · refine ⟨fun page => ?_, rfl, rfl⟩
        rw [← hupdate (some existing) (by rw [hold]; exact (if_pos hprior).symm) page, ← hold,
          Function.update_eq_self]
      · simp only [putMapping_pageMappings, putMapping_oldTable, putMapping_runPass2, and_true]
        exact hupdate _ (by rw [hold]; exact (if_neg hprior).symm)
      · simp only [putMapping_pageMappings, putMapping_oldTable, putMapping_runPass2, and_true]
        exact hupdate _ (by rw [hold]; exact (if_neg hprior).symm)

theorem foldl_addMapping (pageIndex : BitVec 16) {l : List (Fin 16)} (hl : l.Nodup) (s : Scan) :
    (∀ page, (l.foldl (mmu.addMapping pte slot pageIndex) s).pageMappings page =
        if page.sr ∈ l ∧ page.pageIndex = pageIndex ∧ mmu.SrMatches pte page.sr then
          PageMapping.merge (s.pageMappings page) (mmu.mappingOf pte slot page)
        else s.pageMappings page) ∧
      (l.foldl (mmu.addMapping pte slot pageIndex) s).oldTable = s.oldTable ∧
      (l.foldl (mmu.addMapping pte slot pageIndex) s).runPass2 = s.runPass2 := by
  induction l generalizing s with
  | nil => exact ⟨fun page => by simp, rfl, rfl⟩
  | cons i l ih =>
    obtain ⟨hmaps, htable, hpass⟩ := @addMapping_spec mmu pte slot pageIndex i s
    obtain ⟨hrest, hrestTable, hrestPass⟩ := ih hl.of_cons (mmu.addMapping pte slot pageIndex s i)
    rw [List.foldl_cons]
    refine ⟨fun page => ?_, hrestTable.trans htable, hrestPass.trans hpass⟩
    rw [hrest, hmaps]
    obtain ⟨sr, index⟩ := page
    by_cases hsr : sr = i
    · subst hsr
      rw [if_neg fun h => hl.notMem h.1]
      simp
    · have hpage : (⟨sr, index⟩ : LogicalPage) ≠ ⟨i, pageIndex⟩ := fun heq =>
        hsr (LogicalPage.mk.inj heq).1
      simp [hsr, hpage]

/-- **What `try_add_mapping` does**: the pages of the entry get its mapping, unless they have one with
priority. -/
theorem tryAddMapping_spec (pte : Pte) (slot : ℕ) (s : Scan) :
    (∀ page, (mmu.tryAddMapping pte slot s).pageMappings page =
        if mmu.Adds pte slot page then
          PageMapping.merge (s.pageMappings page) (mmu.mappingOf pte slot page)
        else s.pageMappings page) ∧
      (mmu.tryAddMapping pte slot s).oldTable = s.oldTable ∧
      (mmu.tryAddMapping pte slot s).runPass2 = s.runPass2 := by
  unfold tryAddMapping
  cases hindex : mmu.getPageIndex pte.lo (BitVec.ofNat 32 (slot / 8)) with
  | none =>
    refine ⟨fun page => (if_neg fun h => ?_).symm, rfl, rfl⟩
    rw [Adds, hindex] at h
    cases h.1
  | some pageIndex =>
    obtain ⟨hmaps, htable, hpass⟩ :=
      @foldl_addMapping mmu pte slot pageIndex _ (List.nodup_finRange 16) s
    refine ⟨fun page => (hmaps page).trans (if_congr ?_ rfl rfl), htable, hpass⟩
    rw [Adds, hindex, Option.some_inj, @eq_comm _ pageIndex]
    exact and_iff_right (List.mem_finRange page.sr)

/-! ## The passes over an empty copy -/

section Passes

variable {newTable : ℕ → Pte} {l : List ℕ}

/-- A valid entry with the hash function identifier `h`. -/
def IsEntry (newTable : ℕ → Pte) (h : Bool) (slot : ℕ) : Prop :=
  (newTable slot).lo.v = true ∧ (newTable slot).lo.h = h

instance (h : Bool) (slot : ℕ) : Decidable (IsEntry newTable h slot) :=
  inferInstanceAs (Decidable (_ ∧ _))

variable (mmu newTable) in
/-- The entries in `l` that the scan maps to the page. -/
def mapped (h : Bool) (page : LogicalPage) (l : List ℕ) : List ℕ :=
  l.filter fun slot => IsEntry newTable h slot ∧ mmu.Adds (newTable slot) slot page

variable (mmu newTable) in
/-- The mapping of the page after the entries in `l`. -/
def merged (page : LogicalPage) (m : Option PageMapping) (l : List ℕ) : Option PageMapping :=
  l.foldl (fun m slot => PageMapping.merge m (mmu.mappingOf (newTable slot) slot page)) m

theorem zero_not_entry (h : Bool) (hzero : newTable slot = .zero) : ¬IsEntry newTable h slot := by
  intro hentry
  have hv := hentry.1
  rw [hzero] at hv
  exact absurd hv (by decide)

theorem merged_cons (h : Bool) (page : LogicalPage) (m : Option PageMapping) :
    mmu.merged newTable page m (mmu.mapped newTable h page (slot :: l)) =
      mmu.merged newTable page
        (if IsEntry newTable h slot ∧ mmu.Adds (newTable slot) slot page then
          PageMapping.merge m (mmu.mappingOf (newTable slot) slot page) else m)
        (mmu.mapped newTable h page l) := by
  unfold merged mapped
  rw [List.filter_cons]
  simp only [decide_eq_true_eq]
  split_ifs
  · rfl
  · rfl

theorem pass1Slot_spec (hzero : s.oldTable slot = .zero) :
    (∀ page, (mmu.pass1Slot newTable s slot).pageMappings page =
        if IsEntry newTable false slot ∧ mmu.Adds (newTable slot) slot page then
          PageMapping.merge (s.pageMappings page) (mmu.mappingOf (newTable slot) slot page)
        else s.pageMappings page) ∧
      (mmu.pass1Slot newTable s slot).oldTable =
        (if IsEntry newTable true slot then s.oldTable
          else Function.update s.oldTable slot (newTable slot)) ∧
      (mmu.pass1Slot newTable s slot).runPass2 = (s.runPass2 || decide (IsEntry newTable true slot)) := by
  unfold pass1Slot
  by_cases hsame : s.oldTable slot = newTable slot
  · have hnew : newTable slot = .zero := hsame ▸ hzero
    rw [if_pos hsame, if_neg (zero_not_entry true hnew), ← hsame, Function.update_eq_self]
    refine ⟨fun page => (if_neg fun h => zero_not_entry false hnew h.1).symm, rfl, ?_⟩
    rw [decide_eq_false (zero_not_entry true hnew), Bool.or_false]
  · have hremove : mmu.removeOld newTable slot s = some s := by
      rw [removeOld, hzero]
      exact if_neg (by decide)
    obtain ⟨hmaps, htable, hpass⟩ := @tryAddMapping_spec mmu (newTable slot) slot s
    rw [if_neg hsame, hremove]
    dsimp only
    by_cases hv : (newTable slot).lo.v = true
    · by_cases hh : (newTable slot).lo.h = true
      · have hentry : IsEntry newTable true slot := ⟨hv, hh⟩
        rw [if_pos hv, if_pos hh, if_pos hentry, decide_eq_true hentry, Bool.or_true]
        refine ⟨fun page => (if_neg fun h => ?_).symm, rfl, rfl⟩
        exact absurd (hh.symm.trans h.1.2) (by decide)
      · have hno : ¬IsEntry newTable true slot := fun h => hh h.2
        have hentry : IsEntry newTable false slot := ⟨hv, Bool.eq_false_of_not_eq_true hh⟩
        rw [if_pos hv, if_neg hh, if_neg hno, decide_eq_false hno, Bool.or_false]
        refine ⟨fun page => ?_, ?_, hpass⟩
        · rw [copySlot, hmaps]
          exact if_congr (and_iff_right hentry).symm rfl rfl
        · rw [copySlot, htable]
    · have hno : ∀ h, ¬IsEntry newTable h slot := fun h hentry => hv hentry.1
      rw [if_neg hv, if_neg (hno true), decide_eq_false (hno true), Bool.or_false]
      exact ⟨fun page => (if_neg fun h => hno false h.1).symm, rfl, rfl⟩

/-- **Pass 1 over an empty copy** adds the primary entries and copies all others but the secondary
ones. -/
theorem pass1_spec (hl : l.Nodup) (hzero : ∀ slot ∈ l, s.oldTable slot = .zero) :
    (∀ page, (l.foldl (mmu.pass1Slot newTable) s).pageMappings page =
        mmu.merged newTable page (s.pageMappings page) (mmu.mapped newTable false page l)) ∧
      (∀ slot ∈ l, (l.foldl (mmu.pass1Slot newTable) s).oldTable slot =
        if IsEntry newTable true slot then .zero else newTable slot) ∧
      (∀ slot ∉ l, (l.foldl (mmu.pass1Slot newTable) s).oldTable slot = s.oldTable slot) ∧
      (l.foldl (mmu.pass1Slot newTable) s).runPass2 =
        (s.runPass2 || l.any fun slot => decide (IsEntry newTable true slot)) := by
  induction l generalizing s with
  | nil => exact ⟨fun _ => rfl, fun _ h => (List.not_mem_nil h).elim, fun _ _ => rfl, by simp⟩
  | cons slot l ih =>
    obtain ⟨hmaps, htable, hpass⟩ :=
      @pass1Slot_spec mmu slot s newTable (hzero slot List.mem_cons_self)
    have hother : ∀ i ≠ slot, (mmu.pass1Slot newTable s slot).oldTable i = s.oldTable i := by
      intro i hi
      rw [htable]
      split_ifs
      · rfl
      · rw [Function.update_of_ne hi]
    obtain ⟨hrest, hcopied, hkept, hany⟩ := @ih (mmu.pass1Slot newTable s slot) hl.of_cons
      fun i hi => by
        rw [hother i (fun heq => hl.notMem (heq ▸ hi)), hzero i (List.mem_cons_of_mem _ hi)]
    rw [List.foldl_cons]
    refine ⟨fun page => ?_, fun i hi => ?_, fun i hi => ?_, ?_⟩
    · rw [hrest, merged_cons, hmaps]
    · rcases List.mem_cons.mp hi with rfl | hi
      · rw [hkept i hl.notMem, htable]
        split_ifs
        · exact hzero i List.mem_cons_self
        · rw [Function.update_self]
      · exact hcopied i hi
    · rw [List.mem_cons, not_or] at hi
      rw [hkept i hi.2, hother i hi.1]
    · rw [hany, hpass, List.any_cons, Bool.or_assoc]

/-- **Pass 2 adds the secondary entries**, which pass 1 has left out of the copy. -/
theorem pass2_spec (hl : l.Nodup) (hold : ∀ slot ∈ l, s.oldTable slot =
      if IsEntry newTable true slot then .zero else newTable slot) (page : LogicalPage) :
    (l.foldl (mmu.pass2Slot newTable) s).pageMappings page =
      mmu.merged newTable page (s.pageMappings page) (mmu.mapped newTable true page l) := by
  induction l generalizing s with
  | nil => rfl
  | cons slot l ih =>
    have hslot := hold slot List.mem_cons_self
    obtain ⟨hmaps, htable, -⟩ := @tryAddMapping_spec mmu (newTable slot) slot s
    have hother : ∀ i ≠ slot, (mmu.pass2Slot newTable s slot).oldTable i = s.oldTable i := by
      intro i hi
      unfold pass2Slot
      split_ifs
      · rfl
      · simp only [copySlot, Function.update_of_ne hi, htable]
    have hpass : (mmu.pass2Slot newTable s slot).pageMappings page =
        if IsEntry newTable true slot ∧ mmu.Adds (newTable slot) slot page then
          PageMapping.merge (s.pageMappings page) (mmu.mappingOf (newTable slot) slot page)
        else s.pageMappings page := by
      unfold pass2Slot
      by_cases hentry : IsEntry newTable true slot
      · have hne : s.oldTable slot ≠ newTable slot := by
          rw [hslot, if_pos hentry]
          exact fun heq => zero_not_entry true heq.symm hentry
        rw [if_neg hne, copySlot, hmaps]
        exact if_congr (and_iff_right hentry).symm rfl rfl
      · rw [if_neg hentry] at hslot
        rw [if_pos hslot, if_neg fun h => hentry h.1]
    rw [List.foldl_cons, merged_cons, ← hpass]
    refine ih hl.of_cons fun i hi => ?_
    rw [hother i fun heq => hl.notMem (heq ▸ hi)]
    exact hold i (List.mem_cons_of_mem _ hi)

theorem scanGroup_eq {pass : Scan → ℕ → Scan}
    (hpass : ∀ s slot, s.oldTable slot = newTable slot → pass s slot = s) (s : Scan) (group : ℕ) :
    scanGroup newTable pass s group = (List.range' (8 * group) 8).foldl pass s := by
  unfold scanGroup
  split_ifs with hsame
  · have hkeep : ∀ l : List ℕ, (∀ slot ∈ l, s.oldTable slot = newTable slot) → l.foldl pass s = s := by
      intro l hl
      induction l with
      | nil => rfl
      | cons slot l ih =>
        rw [List.foldl_cons, hpass s slot (hl slot List.mem_cons_self)]
        exact ih fun i hi => hl i (List.mem_cons_of_mem _ hi)
    refine (hkeep _ fun slot hslot => ?_).symm
    have hrange := List.mem_range'_1.mp hslot
    have heq : 8 * group + (slot - 8 * group) = slot := by omega
    rw [← heq]
    exact hsame _ (by omega)
  · rfl

/-- The entries in the order in which the loops visit them. -/
def slots (mmu : Mmu) (size : ℕ) : List ℕ :=
  (mmu.groups size).flatMap fun group => List.range' (8 * group) 8

theorem foldl_scanGroup {pass : Scan → ℕ → Scan}
    (hpass : ∀ s slot, s.oldTable slot = newTable slot → pass s slot = s) (s : Scan) (size : ℕ) :
    (mmu.groups size).foldl (scanGroup newTable pass) s = (mmu.slots size).foldl pass s := by
  have heq : scanGroup newTable pass = fun s group => (List.range' (8 * group) 8).foldl pass s :=
    funext fun s => funext fun group => scanGroup_eq hpass s group
  rw [heq, slots, List.foldl_flatMap]

theorem pairwise_flatMap_range' {l : List ℕ} (n : ℕ) (hl : l.Pairwise (· < ·)) :
    (l.flatMap fun a => List.range' (n * a) n).Pairwise (· < ·) := by
  rw [List.pairwise_flatMap]
  refine ⟨fun a _ => List.pairwise_lt_range', hl.imp fun {a b} hlt i hi j hj => ?_⟩
  have hi := List.mem_range'_1.mp hi
  have hj := List.mem_range'_1.mp hj
  have hmul : n * (a + 1) ≤ n * b := Nat.mul_le_mul_left n hlt
  rw [Nat.mul_succ] at hmul
  omega

theorem nodup_slots (mmu : Mmu) (size : ℕ) : (mmu.slots size).Nodup := by
  have hgroups : (mmu.groups size).Pairwise (· < ·) := by
    have hcomm : (fun a => List.range' (a * 1024) 1024) = fun a => List.range' (1024 * a) 1024 :=
      funext fun a => by rw [Nat.mul_comm]
    rw [groups, hcomm]
    exact pairwise_flatMap_range' 1024 (List.pairwise_lt_range.filter _)
  exact (pairwise_flatMap_range' 8 hgroups).imp fun hlt => Nat.ne_of_lt hlt

/-- **The mappings after the scan of a table over an empty copy**: the primary entries are merged in
the order of the table, and after them the secondary ones. -/
theorem scan_pageMappings (table : TableBytes) (page : LogicalPage) (hold : s.oldTable = fun _ => .zero)
    (hmaps : s.pageMappings = fun _ => none) (hrun : s.runPass2 = false) :
    (mmu.scan table s).pageMappings page = mmu.merged table.slot page none
      (mmu.mapped table.slot false page (mmu.slots table.size) ++
        mmu.mapped table.slot true page (mmu.slots table.size)) := by
  have hnodup := nodup_slots mmu table.size
  obtain ⟨hfirst, hcopied, -, hany⟩ := @pass1_spec mmu s table.slot _ hnodup fun slot _ => by rw [hold]
  have hpass₁ : ∀ s slot, s.oldTable slot = table.slot slot → mmu.pass1Slot table.slot s slot = s :=
    fun _ _ heq => if_pos heq
  have hpass₂ : ∀ s slot, s.oldTable slot = table.slot slot → mmu.pass2Slot table.slot s slot = s :=
    fun _ _ heq => if_pos heq
  unfold scan
  simp only [foldl_scanGroup hpass₁, foldl_scanGroup hpass₂]
  rw [merged, List.foldl_append]
  split_ifs with hsecond
  · rw [pass2_spec hnodup hcopied, hfirst, hmaps]
    rfl
  · -- no secondary entry was met
    have hnone : mmu.mapped table.slot true page (mmu.slots table.size) = [] := by
      rw [hany, hrun, Bool.false_or, List.any_eq_true, not_exists] at hsecond
      refine List.filter_eq_nil_iff.mpr fun slot hslot h => hsecond slot ⟨hslot, ?_⟩
      rw [decide_eq_true_eq] at h ⊢
      exact h.1
    rw [hfirst, hmaps, hnone]
    rfl

/-- **The last one of the entries with the least priority number** is merged. -/
theorem merged_eq_some (page : LogicalPage) (hne : l ≠ []) :
    ∃ l₁ slot l₂, l = l₁ ++ slot :: l₂ ∧
      mmu.merged newTable page none l = some (mmu.mappingOf (newTable slot) slot page) ∧
      (∀ i ∈ l₁, entryPriority (newTable slot).lo slot ≤ entryPriority (newTable i).lo i) ∧
      ∀ i ∈ l₂, entryPriority (newTable slot).lo slot < entryPriority (newTable i).lo i := by
  induction l using List.reverseRecOn with
  | nil => exact absurd rfl hne
  | append_singleton l x ih =>
    have hmerge : mmu.merged newTable page none (l ++ [x]) =
        PageMapping.merge (mmu.merged newTable page none l) (mmu.mappingOf (newTable x) x page) := by
      rw [merged, List.foldl_append]
      rfl
    by_cases hl : l = []
    · subst hl
      exact ⟨[], x, [], rfl, rfl, fun _ h => (List.not_mem_nil h).elim,
        fun _ h => (List.not_mem_nil h).elim⟩
    · obtain ⟨l₁, slot, l₂, rfl, heq, hbefore, hafter⟩ := ih hl
      rw [hmerge, heq, PageMapping.merge]
      by_cases hprior : entryPriority (newTable slot).lo slot < entryPriority (newTable x).lo x
      · refine ⟨l₁, slot, l₂ ++ [x], by simp, if_pos hprior, hbefore, fun i hi => ?_⟩
        rcases List.mem_append.mp hi with hi | hi
        · exact hafter i hi
        · rw [List.mem_singleton.mp hi]
          exact hprior
      · refine ⟨l₁ ++ slot :: l₂, x, [], rfl, if_neg hprior, fun i hi => ?_, fun _ h => (List.not_mem_nil h).elim⟩
        have hle := not_lt.mp hprior
        rcases List.mem_append.mp hi with hi | hi
        · exact hle.trans (hbefore i hi)
        · rcases List.mem_cons.mp hi with rfl | hi
          · exact hle
          · exact hle.trans (hafter i hi).le

end Passes

end Mmu

end PowerPC
