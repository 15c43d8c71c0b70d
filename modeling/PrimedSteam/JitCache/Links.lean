import PrimedSteam.JitCache.Blocks

/-!
# Links between blocks

* `LinkInv`: what holds of the exits of the blocks and of `links_to` in every state.
* `LinkInv.removed`, `LinkInv.linkBlock`: destruction unlinks every exit to the block, and linking
  finds live blocks only.
* **`linked_exits_live`**: in every run each linked exit leads to a live block with the address and
  the feature flags it was linked for.
-/

set_option autoImplicit false

namespace JitCache

open Transition

namespace Cache

variable {s s' : Cache} {b block : JitBlock} {p : BlockPtr} {entryPoints : Bool}

/-- The exit `e` of `b` jumps to a live block with the right address and flags. -/
def LeadsToLive (s : Cache) (b : JitBlock) (e : LinkData) : Prop :=
  ∃ d ∈ s.blockMap, e.target = some d.ptr ∧ d.effectiveAddress = e.exitAddress ∧
    d.featureFlags = b.featureFlags

structure LinkInv (s : Cache) : Prop where
  distinctPtrs : s.DistinctPtrs
  sources_live : ∀ x, ∀ p ∈ s.linksTo x, ∃ b ∈ s.blockMap, b.ptr = p
  /-- A source is a source under its exits, and under all of them. -/
  source_exit : ∀ b ∈ s.blockMap, ∀ x, b.ptr ∈ s.linksTo x → ∃ e ∈ b.linkData, e.exitAddress = x
  source_exits : ∀ b ∈ s.blockMap, ∀ x, b.ptr ∈ s.linksTo x →
    ∀ y, (∃ e ∈ b.linkData, e.exitAddress = y) → b.ptr ∈ s.linksTo y
  unlinked : ∀ b ∈ s.blockMap, ∀ e ∈ b.linkData, e.linkStatus = false → e.target = none
  linked : ∀ b ∈ s.blockMap, ∀ e ∈ b.linkData, e.linkStatus = true →
    b.ptr ∈ s.linksTo e.exitAddress ∧ s.LeadsToLive b e

theorem linkInv_init : init.LinkInv where
  distinctPtrs := List.nodup_nil
  sources_live := fun _ _ h => absurd h List.not_mem_nil
  source_exit := fun _ h => absurd h List.not_mem_nil
  source_exits := fun _ h => absurd h List.not_mem_nil
  unlinked := fun _ h => absurd h List.not_mem_nil
  linked := fun _ h => absurd h List.not_mem_nil

/-- The invariant is about the blocks and `links_to` only. -/
theorem LinkInv.congr (h : s.LinkInv) (hblocks : s'.blockMap = s.blockMap)
    (hlinks : s'.linksTo = s.linksTo) : s'.LinkInv := by
  cases s
  cases s'
  subst hblocks hlinks
  exact ⟨h.1, h.2, h.3, h.4, h.5, h.6⟩

/-! ## Destruction -/

theorem mem_unlinkSource_linkData {e : LinkData} (he : e ∈ (s.unlinkSource block b).linkData) :
    (e.linkStatus = false ∧ e.target = none) ∨
      e ∈ b.linkData ∧ ¬ (b.ptr ∈ s.linksTo block.effectiveAddress ∧
        b.featureFlags = block.featureFlags ∧ e.exitAddress = block.effectiveAddress) := by
  unfold unlinkSource at he
  by_cases hsource : b.ptr ∈ s.linksTo block.effectiveAddress ∧ b.featureFlags = block.featureFlags
  · rw [if_pos hsource] at he
    obtain ⟨e', he', rfl⟩ := List.mem_map.mp he
    by_cases hexit : e'.exitAddress = block.effectiveAddress
    · rw [if_pos hexit]
      exact Or.inl ⟨rfl, rfl⟩
    · rw [if_neg hexit]
      exact Or.inr ⟨he', fun h => hexit h.2.2⟩
  · rw [if_neg hsource] at he
    exact Or.inr ⟨he, fun h => hsource ⟨h.1, h.2.1⟩⟩

theorem unlinkSource_effectiveAddress :
    (s.unlinkSource block b).effectiveAddress = b.effectiveAddress := by
  unfold unlinkSource
  split <;> rfl

theorem unlinkSource_featureFlags : (s.unlinkSource block b).featureFlags = b.featureFlags := by
  unfold unlinkSource
  split <;> rfl

/-- **Destruction leaves no exit linked to the block**: an exit that leads to it is in `links_to`
under its address. -/
theorem LinkInv.removed (h : s.LinkInv) (hblock : block ∈ s.blockMap)
    (hr : Removed entryPoints s block s') : s'.LinkInv := by
  have hlinks : ∀ {q x}, q ∈ s'.linksTo x ↔
      q ∈ s.linksTo x ∧ ¬ (q = block.ptr ∧ ∃ e ∈ block.linkData, e.exitAddress = x) := by
    intro q x
    rw [hr.linksTo, mem_linksTo_removeLinksTo]
  have hkeep : ∀ b ∈ s.blockMap, b.ptr ≠ block.ptr → s.unlinkSource block b ∈ s'.blockMap :=
    fun b hb hne => (hr.mem_blockMap _).mpr ⟨b, hb, hne, rfl⟩
  refine ⟨hr.distinctPtrs h.distinctPtrs, ?_, ?_, ?_, ?_, ?_⟩
  · intro x q hq
    obtain ⟨hq, hne⟩ := hlinks.mp hq
    obtain ⟨b, hb, rfl⟩ := h.sources_live x q hq
    have hptr : b.ptr ≠ block.ptr := by
      intro hptr
      have heq := h.distinctPtrs.eq hb hblock hptr
      exact hne ⟨hptr, heq ▸ h.source_exit b hb x hq⟩
    exact ⟨_, hkeep b hb hptr, unlinkSource_ptr⟩
  · intro b' hb' x hx
    obtain ⟨b, hb, hne, rfl⟩ := (hr.mem_blockMap b').mp hb'
    rw [unlinkSource_ptr] at hx
    exact (relinked_unlinkSource block b).exists_exit.mpr (h.source_exit b hb x (hlinks.mp hx).1)
  · intro b' hb' x hx y hy
    obtain ⟨b, hb, hne, rfl⟩ := (hr.mem_blockMap b').mp hb'
    rw [unlinkSource_ptr] at hx ⊢
    have hexit := (relinked_unlinkSource block b).exists_exit.mp hy
    exact hlinks.mpr ⟨h.source_exits b hb x (hlinks.mp hx).1 y hexit, fun h => hne h.1⟩
  · intro b' hb' e he hstatus
    obtain ⟨b, hb, -, rfl⟩ := (hr.mem_blockMap b').mp hb'
    rcases mem_unlinkSource_linkData he with ⟨-, htarget⟩ | ⟨he, -⟩
    · exact htarget
    · exact h.unlinked b hb e he hstatus
  · intro b' hb' e he hstatus
    obtain ⟨b, hb, hne, rfl⟩ := (hr.mem_blockMap b').mp hb'
    rcases mem_unlinkSource_linkData he with ⟨hfalse, -⟩ | ⟨he, hother⟩
    · rw [hstatus] at hfalse
      cases hfalse
    · obtain ⟨hsource, d, hd, htarget, haddr, hflags⟩ := h.linked b hb e he hstatus
      -- the exit would have been unlinked if it led to the block
      have hptr : d.ptr ≠ block.ptr := by
        intro hptr
        have heq := h.distinctPtrs.eq hd hblock hptr
        subst heq
        exact hother ⟨haddr ▸ hsource, hflags.symm, haddr.symm⟩
      refine ⟨?_, _, hkeep d hd hptr, ?_, ?_, ?_⟩
      · rw [unlinkSource_ptr]
        exact hlinks.mpr ⟨hsource, fun h => hne h.1⟩
      · rw [unlinkSource_ptr, htarget]
      · rw [unlinkSource_effectiveAddress, haddr]
      · rw [unlinkSource_featureFlags, unlinkSource_featureFlags, hflags]

theorem LinkInv.destroyBlock {s₁ : Cache} (h : s.LinkInv) (hblock : block ∈ s.blockMap)
    (hd : s.destroyBlock entryPoints block = some s₁) :
    (s₁.eraseFromBlockMap block.ptr).LinkInv :=
  h.removed hblock (destroyBlock_removed hd)

/-! ## Creation -/

theorem LinkInv.added (h : s.LinkInv) (ha : Added entryPoints s block s')
    (hp : s.block? block.ptr = none)
    (hexits : ∀ e ∈ block.linkData, e.linkStatus = false ∧ e.target = none) : s'.LinkInv := by
  have hmem := ha.mem_blockMap
  -- the new block is not a source
  have hnew : ∀ x, block.ptr ∉ s'.linksTo x := by
    intro x hx
    rw [ha.linksTo] at hx
    obtain ⟨b, hb, hptr⟩ := h.sources_live x _ hx
    exact block?_eq_none.mp hp b hb hptr
  refine ⟨ha.distinctPtrs h.distinctPtrs, ?_, ?_, ?_, ?_, ?_⟩
  · intro x q hq
    rw [ha.linksTo] at hq
    obtain ⟨b, hb, hptr⟩ := h.sources_live x q hq
    exact ⟨b, (hmem b).mpr (Or.inr hb), hptr⟩
  · intro b hb x hx
    rcases (hmem b).mp hb with rfl | hb
    · exact absurd hx (hnew x)
    · exact h.source_exit b hb x (ha.linksTo ▸ hx)
  · intro b hb x hx y hy
    rcases (hmem b).mp hb with rfl | hb
    · exact absurd hx (hnew x)
    · rw [ha.linksTo] at hx ⊢
      exact h.source_exits b hb x hx y hy
  · intro b hb e he hstatus
    rcases (hmem b).mp hb with rfl | hb
    · exact (hexits e he).2
    · exact h.unlinked b hb e he hstatus
  · intro b hb e he hstatus
    rcases (hmem b).mp hb with rfl | hb
    · rw [(hexits e he).1] at hstatus
      cases hstatus
    · obtain ⟨hsource, d, hd, hlead⟩ := h.linked b hb e he hstatus
      exact ⟨ha.linksTo ▸ hsource, d, (hmem d).mpr (Or.inr hd), hlead⟩

theorem LinkInv.addLinksTo (h : s.LinkInv) (hblock : block ∈ s.blockMap) :
    (s.addLinksTo block.ptr (block.linkData.map LinkData.exitAddress)).LinkInv := by
  refine ⟨h.distinctPtrs, ?_, ?_, ?_, h.unlinked, ?_⟩
  · intro x q hq
    rcases mem_linksTo_addLinksTo.mp hq with hq | ⟨rfl, -⟩
    · exact h.sources_live x q hq
    · exact ⟨block, hblock, rfl⟩
  · intro b hb x hx
    rcases mem_linksTo_addLinksTo.mp hx with hx | ⟨hptr, hx⟩
    · exact h.source_exit b hb x hx
    · rw [h.distinctPtrs.eq hb hblock hptr]
      exact List.mem_map.mp hx
  · intro b hb x hx y hy
    rcases mem_linksTo_addLinksTo.mp hx with hx | ⟨hptr, -⟩
    · exact mem_linksTo_addLinksTo.mpr (Or.inl (h.source_exits b hb x hx y hy))
    · rw [h.distinctPtrs.eq hb hblock hptr] at hy
      exact mem_linksTo_addLinksTo.mpr (Or.inr ⟨hptr, List.mem_map.mpr hy⟩)
  · intro b hb e he hstatus
    obtain ⟨hsource, hlead⟩ := h.linked b hb e he hstatus
    exact ⟨mem_linksTo_addLinksTo.mpr (Or.inl hsource), hlead⟩

theorem mem_linkBlockExits_linkData {tr : Translation} {e : LinkData}
    (he : e ∈ (s.linkBlockExits tr b).linkData) :
    e ∈ b.linkData ∨ e.linkStatus = true ∧ (∃ e' ∈ b.linkData, e'.exitAddress = e.exitAddress) ∧
      s.LeadsToLive b e := by
  obtain ⟨e', he', rfl⟩ := List.mem_map.mp he
  cases hstatus : e'.linkStatus with
  | true =>
    rw [if_pos rfl]
    exact Or.inl he'
  | false =>
    rw [if_neg Bool.false_ne_true]
    cases hfind : s.getBlockFromStartAddress tr e'.exitAddress b.featureFlags with
    | none => exact Or.inl he'
    | some d =>
      obtain ⟨hd, haddr, hflags⟩ := getBlockFromStartAddress_eq_some hfind
      exact Or.inr ⟨rfl, ⟨e', he', rfl⟩, d, hd, rfl, haddr, hflags⟩

/-- Linking changes the links of sources only, which are sources under all their exits. -/
theorem LinkInv.linkBlock {tr : Translation} (h : s.LinkInv)
    (hself : ∀ y, (∃ e ∈ block.linkData, e.exitAddress = y) → block.ptr ∈ s.linksTo y)
    (hblock : block ∈ s.blockMap) (hs : s.linkBlock tr block = some s') : s'.LinkInv := by
  rw [linkBlock_eq_some hs]
  set f : JitBlock → JitBlock := s.linkSources tr block with hf
  have hrelinked : ∀ b, Relinked b (f b) := relinked_linkSources
  have hlead : ∀ b e, s.LeadsToLive b e → (s.mapBlocks f).LeadsToLive (f b) e := by
    rintro b e ⟨d, hd, htarget, haddr, hflags⟩
    refine ⟨f d, mem_mapBlocks.mpr ⟨d, hd, rfl⟩, ?_⟩
    obtain ⟨l, hl, -⟩ := hrelinked d
    obtain ⟨l', hl', -⟩ := hrelinked b
    rw [hl, hl']
    exact ⟨htarget, haddr, hflags⟩
  have hexit : ∀ b ∈ s.blockMap, ∀ e ∈ (f b).linkData, e ∈ b.linkData ∨
      e.linkStatus = true ∧ b.ptr ∈ s.linksTo e.exitAddress ∧ s.LeadsToLive b e := by
    intro b hb e he
    simp only [hf, linkSources] at he
    by_cases hcond : b.ptr = block.ptr ∨
        b.ptr ∈ s.linksTo block.effectiveAddress ∧ b.featureFlags = block.featureFlags
    · rw [if_pos hcond] at he
      rcases mem_linkBlockExits_linkData he with he | ⟨hstatus, hex, hlive⟩
      · exact Or.inl he
      · refine Or.inr ⟨hstatus, ?_, hlive⟩
        rcases hcond with hptr | ⟨hsource, -⟩
        · rw [h.distinctPtrs.eq hb hblock hptr] at hex ⊢
          exact hself _ hex
        · exact h.source_exits b hb _ hsource _ hex
    · rw [if_neg hcond] at he
      exact Or.inl he
  refine ⟨h.distinctPtrs.mapBlocks fun b => (hrelinked b).ptr, ?_, ?_, ?_, ?_, ?_⟩
  · intro x q hq
    obtain ⟨b, hb, rfl⟩ := h.sources_live x q hq
    exact ⟨f b, mem_mapBlocks.mpr ⟨b, hb, rfl⟩, (hrelinked b).ptr⟩
  · intro b' hb' x hx
    obtain ⟨b, hb, rfl⟩ := mem_mapBlocks.mp hb'
    rw [(hrelinked b).ptr] at hx
    exact (hrelinked b).exists_exit.mpr (h.source_exit b hb x hx)
  · intro b' hb' x hx y hy
    obtain ⟨b, hb, rfl⟩ := mem_mapBlocks.mp hb'
    rw [(hrelinked b).ptr] at hx ⊢
    exact h.source_exits b hb x hx y ((hrelinked b).exists_exit.mp hy)
  · intro b' hb' e he hstatus
    obtain ⟨b, hb, rfl⟩ := mem_mapBlocks.mp hb'
    rcases hexit b hb e he with he | ⟨htrue, -⟩
    · exact h.unlinked b hb e he hstatus
    · rw [hstatus] at htrue
      cases htrue
  · intro b' hb' e he hstatus
    obtain ⟨b, hb, rfl⟩ := mem_mapBlocks.mp hb'
    rw [(hrelinked b).ptr]
    rcases hexit b hb e he with he | ⟨-, hsource, hlive⟩
    · obtain ⟨hsource, hlive⟩ := h.linked b hb e he hstatus
      exact ⟨hsource, hlead b e hlive⟩
    · exact ⟨hsource, hlead b e hlive⟩

section Compile

variable {tr : Translation} {emAddress featureFlags : ℕ} {code : Compiled}

theorem LinkInv.finalBlock (h : s.LinkInv) (hp : s.block? p = none)
    (ha : Added entryPoints s (Cache.finalBlock entryPoints tr emAddress featureFlags p code) s') :
    s'.LinkInv := by
  refine h.added ha hp fun e he => ?_
  obtain ⟨exit, -, rfl⟩ := List.mem_map.mp he
  exact ⟨rfl, rfl⟩

theorem LinkInv.finalBlock_exits (h : s.LinkInv) (hp : s.block? p = none)
    (ha : Added entryPoints s (Cache.finalBlock entryPoints tr emAddress featureFlags p code) s') :
    (s'.addLinksTo p code.exits).LinkInv ∧
      ∀ y, (∃ e ∈ (Cache.finalBlock entryPoints tr emAddress featureFlags p code).linkData,
        e.exitAddress = y) → p ∈ (s'.addLinksTo p code.exits).linksTo y := by
  have hexits : (Cache.finalBlock entryPoints tr emAddress featureFlags p code).linkData.map
      LinkData.exitAddress = code.exits := by
    simp [Cache.finalBlock, compiledBlock, Function.comp_def]
  constructor
  · have hadd := (h.finalBlock hp ha).addLinksTo ((ha.mem_blockMap _).mpr (Or.inl rfl))
    rwa [hexits] at hadd
  · intro y hy
    refine mem_linksTo_addLinksTo.mpr (Or.inr ⟨rfl, ?_⟩)
    rw [← hexits]
    exact List.mem_map.mpr hy

theorem LinkInv.compile {blockLink : Bool} (h : s.LinkInv) (hp : s.block? p = none)
    (hs : (s.allocateBlock tr emAddress featureFlags p).finalizeBlock entryPoints tr p blockLink
      code = some s') : s'.LinkInv := by
  obtain ⟨s₁, hadd, heq⟩ := finalizeBlock_eq entryPoints tr emAddress featureFlags blockLink
    code hp
  rw [heq] at hs
  cases blockLink with
  | false =>
    cases hs
    exact h.finalBlock hp hadd
  | true =>
    obtain ⟨hlinks, hself⟩ := h.finalBlock_exits hp hadd
    exact hlinks.linkBlock hself ((hadd.mem_blockMap _).mpr (Or.inl rfl)) hs

end Compile

/-! ## The other operations -/

theorem LinkInv.putFastEntry (h : s.LinkInv) (b : JitBlock) (index : ℕ) :
    (s.putFastEntry entryPoints b index).LinkInv := by
  set f : JitBlock → JitBlock := fun b' =>
    if b'.ptr = b.ptr then { b' with fastBlockMapIndex := index } else b' with hf
  have hsame : ∀ b', (f b').ptr = b'.ptr ∧ (f b').effectiveAddress = b'.effectiveAddress ∧
      (f b').featureFlags = b'.featureFlags ∧ (f b').linkData = b'.linkData := by
    intro b'
    simp only [hf]
    split <;> exact ⟨rfl, rfl, rfl, rfl⟩
  have hmem : ∀ b', b' ∈ (s.putFastEntry entryPoints b index).blockMap ↔
      ∃ b₀ ∈ s.blockMap, f b₀ = b' := fun b' => List.mem_map
  refine ⟨h.distinctPtrs.putFastEntry, ?_, ?_, ?_, ?_, ?_⟩
  · intro x q hq
    obtain ⟨b₀, hb₀, rfl⟩ := h.sources_live x q hq
    exact ⟨f b₀, (hmem _).mpr ⟨b₀, hb₀, rfl⟩, (hsame b₀).1⟩
  · intro b' hb' x hx
    obtain ⟨b₀, hb₀, rfl⟩ := (hmem b').mp hb'
    rw [(hsame b₀).1] at hx
    rw [(hsame b₀).2.2.2]
    exact h.source_exit b₀ hb₀ x hx
  · intro b' hb' x hx y hy
    obtain ⟨b₀, hb₀, rfl⟩ := (hmem b').mp hb'
    rw [(hsame b₀).1] at hx ⊢
    rw [(hsame b₀).2.2.2] at hy
    exact h.source_exits b₀ hb₀ x hx y hy
  · intro b' hb' e he
    obtain ⟨b₀, hb₀, rfl⟩ := (hmem b').mp hb'
    rw [(hsame b₀).2.2.2] at he
    exact h.unlinked b₀ hb₀ e he
  · intro b' hb' e he hstatus
    obtain ⟨b₀, hb₀, rfl⟩ := (hmem b').mp hb'
    rw [(hsame b₀).2.2.2] at he
    obtain ⟨hsource, d, hd, htarget, haddr, hflags⟩ := h.linked b₀ hb₀ e he hstatus
    rw [(hsame b₀).1]
    refine ⟨hsource, f d, (hmem _).mpr ⟨d, hd, rfl⟩, ?_, ?_, ?_⟩
    · rw [(hsame d).1, htarget]
    · rw [(hsame d).2.1, haddr]
    · rw [(hsame d).2.2.1, (hsame b₀).2.2.1, hflags]

theorem LinkInv.moveBlockIntoFastCache (h : s.LinkInv) (tr : Translation)
    (addr featureFlags : ℕ) :
    (s.moveBlockIntoFastCache entryPoints tr addr featureFlags).1.LinkInv := by
  unfold Cache.moveBlockIntoFastCache
  split
  · exact h
  · next block _ =>
    have hdrop : (s.dropFastEntry entryPoints block).LinkInv := by
      rw [dropFastEntry_eq]
      exact h.congr rfl rfl
    exact hdrop.putFastEntry block _

theorem LinkInv.dispatch {tr : Translation} {pc featureFlags : ℕ} {r : Option ℕ}
    (h : s.LinkInv) (hs : s.dispatch entryPoints tr pc featureFlags = some (s', r)) :
    s'.LinkInv := by
  have hslow : (s.moveBlockIntoFastCache entryPoints tr pc featureFlags).1.LinkInv :=
    h.moveBlockIntoFastCache tr pc featureFlags
  unfold Cache.dispatch at hs
  dsimp only at hs
  split at hs
  · cases hs
    exact hslow
  · split at hs
    · cases hs
      exact h
    · obtain ⟨block, -, hs⟩ := Option.map_eq_some_iff.mp hs
      split at hs
      · cases hs
        exact hslow
      · cases hs
        exact h

theorem LinkInv.eraseOverlapping {address length key : ℕ} (h : s.LinkInv)
    (hs : eraseOverlapping entryPoints address length key s p = some s') : s'.LinkInv := by
  obtain ⟨block, hblock, hs⟩ := Option.bind_eq_some_iff.mp hs
  split at hs
  · obtain ⟨s₁, hdestroy, hs⟩ := Option.bind_eq_some_iff.mp hs
    cases hs
    obtain ⟨hmem, rfl⟩ := block?_eq_some hblock
    have h₀ : (s.removeFromRangeMap block.ptr
        (block.physicalAddresses.filter fun addr => macroBlock addr ≠ key)).LinkInv :=
      h.congr rfl rfl
    exact (h₀.destroyBlock hmem hdestroy).congr rfl rfl
  · cases hs
    exact h

variable {H : HashOrder}

theorem LinkInv.eraseMacroBlock {address length key : ℕ} (h : s.LinkInv)
    (hs : s.eraseMacroBlock entryPoints H address length key = some s') : s'.LinkInv := by
  obtain ⟨s₁, hfold, rfl⟩ := Option.map_eq_some_iff.mp hs
  have h₁ : s₁.LinkInv := foldlM_invariant
    (fun _ _ _ _ h hs => LinkInv.eraseOverlapping h hs) h hfold
  split
  · exact h₁.congr rfl rfl
  · exact h₁

theorem LinkInv.eraseMacroBlocks {address length : ℕ} {last start : Option ℕ} {fuel : ℕ}
    (h : s.LinkInv)
    (hs : eraseMacroBlocks entryPoints H address length last fuel s start = some s') :
    s'.LinkInv := by
  induction fuel generalizing s start with
  | zero => cases hs
  | succ fuel ih =>
    rw [eraseMacroBlocks_succ] at hs
    split at hs
    · cases hs
      exact h
    · obtain ⟨key, -, hs⟩ := Option.bind_eq_some_iff.mp hs
      obtain ⟨s₁, hkey, hs⟩ := Option.bind_eq_some_iff.mp hs
      exact ih (h.eraseMacroBlock hkey) hs

theorem LinkInv.invalidateICacheInternal {physicalAddress length : ℕ} (h : s.LinkInv)
    (hs : s.invalidateICacheInternal entryPoints H physicalAddress length = some s') :
    s'.LinkInv := by
  have herase : ∀ (v : ℕ → Bool), ({ s with validBlock := v }).erasePhysicalRange entryPoints H
      physicalAddress length = some s' → s'.LinkInv :=
    fun v hs => LinkInv.eraseMacroBlocks (s := { s with validBlock := v }) (h.congr rfl rfl) hs
  unfold Cache.invalidateICacheInternal at hs
  split at hs
  · split at hs
    · cases hs
      exact h
    · exact herase _ hs
  · split at hs
    · exact herase _ hs
    · exact herase s.validBlock hs

/-- **Each step keeps the links right.** -/
theorem LinkInv.step {a : Action} (h : s.LinkInv) (hs : JitCache.step entryPoints H s a = some s') :
    s'.LinkInv := by
  obtain ⟨hpossible, hs⟩ := Option.ite_none_right_eq_some.mp hs
  cases a with
  | compile tr emAddress featureFlags ptr blockLink code => exact h.compile hpossible.1 hs
  | invalidateICache tr address length =>
    exact foldlM_invariant
      (fun _ _ _ _ h hs => LinkInv.invalidateICacheInternal h hs) h hs
  | invalidateICacheLine tr address =>
    exact foldlM_invariant
      (fun _ _ _ _ h hs => LinkInv.invalidateICacheInternal h hs) h hs
  | erasePhysicalRange address length => exact h.eraseMacroBlocks hs
  | eraseSingleBlock ptr =>
    obtain ⟨block, hblock, hs⟩ := Option.bind_eq_some_iff.mp hs
    obtain ⟨s₁, hdestroy, rfl⟩ := Option.map_eq_some_iff.mp hs
    have h₀ : (s.removeFromRangeMap block.ptr block.physicalAddresses).LinkInv := h.congr rfl rfl
    exact h₀.destroyBlock (block?_eq_some hblock).1 hdestroy
  | dispatch tr pc featureFlags =>
    obtain ⟨r, hdispatch, rfl⟩ := Option.map_eq_some_iff.mp hs
    exact h.dispatch hdispatch
  | clear =>
    obtain ⟨s₁, -, rfl⟩ := Option.map_eq_some_iff.mp hs
    exact linkInv_init.congr rfl rfl

end Cache

/-- **Links lead to live blocks.** In every run each linked exit was last made to jump to a block
that is live and has the address of the exit and the flags of the source; an exit that is not linked
jumps to no block. -/
theorem linked_exits_live (entryPoints : Bool) (H : HashOrder) (s : Cache)
    (hs : Reach (step entryPoints H) anyStep .init s) (b : JitBlock) (hb : b ∈ s.blockMap)
    (e : LinkData) (he : e ∈ b.linkData) :
    (e.linkStatus = true → ∃ d ∈ s.blockMap, e.target = some d.ptr ∧
      d.effectiveAddress = e.exitAddress ∧ d.featureFlags = b.featureFlags) ∧
    (∀ p, e.target = some p → e.linkStatus = true ∧ ∃ d ∈ s.blockMap, d.ptr = p) := by
  have hinv : s.LinkInv := hs.invariant Cache.linkInv_init fun _ _ _ h _ hs => h.step hs
  refine ⟨fun hstatus => (hinv.linked b hb e he hstatus).2, fun p hp => ?_⟩
  cases hstatus : e.linkStatus with
  | false =>
    rw [hinv.unlinked b hb e he hstatus] at hp
    cases hp
  | true =>
    obtain ⟨-, d, hd, htarget, -⟩ := hinv.linked b hb e he hstatus
    rw [hp] at htarget
    exact ⟨rfl, d, hd, (Option.some.inj htarget).symm⟩

/-- Translation is off. -/
def identity : Translation := fun addr => ⟨true, false, false, addr⟩

/-- A block jumps to a block that is compiled after it, and to one that is destroyed. -/
def linkRun : List Action :=
  [.compile identity 0x1000 0 1 true ⟨0x90, [0x2000, 0x3000], [0x1000, 0x1004]⟩,
    .compile identity 0x2000 0 2 true ⟨0x91, [0x2000], [0x2000]⟩,
    .compile identity 0x3000 0 3 true ⟨0x92, [], [0x3000]⟩,
    .erasePhysicalRange 0x3000 0x20]

theorem linked_exits_live_linkRun :
    ∃ s, Reach (step false ⟨id, fun _ => .refl _⟩) anyStep .init s ∧ ∃ b ∈ s.blockMap,
      b.linkData = [⟨0x2000, true, some 2⟩, ⟨0x3000, false, none⟩] ∧
      ∃ d ∈ s.blockMap, (some 2 : Option BlockPtr) = some d.ptr ∧ d.effectiveAddress = 0x2000 ∧
        d.featureFlags = b.featureFlags := by
  obtain ⟨s, hrun, hs⟩ := Option.map_eq_some_iff.mp
    (show (run (step false ⟨id, fun _ => .refl _⟩) anyStep .init linkRun).map
        (fun s => s.blockMap.head?) =
      some (some ⟨1, 0x90, 0, 0x1000, 0x1000, 0x400,
        [⟨0x2000, true, some 2⟩, ⟨0x3000, false, none⟩], [0x1000, 0x1004]⟩) by decide +kernel)
  have hmem := List.mem_of_mem_head? hs
  have hlive := linked_exits_live _ _ s (run_reach .refl hrun) _ hmem _ List.mem_cons_self
  exact ⟨s, run_reach .refl hrun, _, hmem, rfl, hlive.1 rfl⟩

end JitCache
