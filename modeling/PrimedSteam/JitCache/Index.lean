import PrimedSteam.JitCache.Links

/-!
# The indexes into the blocks

* `IndexInv`: the macro blocks hold exactly the live blocks that have an address in them, and the
  fast map holds live blocks only.
* `ValidInv`: the lines that live blocks have addresses in have their valid bit set.
* `IndexInv.removed`, `IndexInv.compile`, `IndexInv.dispatch`: the operations keep the invariant.
-/

set_option autoImplicit false

namespace JitCache

namespace Cache

variable {s s' : Cache} {b block : JitBlock} {p : BlockPtr} {entryPoints : Bool}

structure IndexInv (entryPoints : Bool) (s : Cache) : Prop where
  links : s.LinkInv
  sorted : ∀ b ∈ s.blockMap, b.physicalAddresses.Pairwise (· < ·)
  range_mem : ∀ b ∈ s.blockMap, ∀ a ∈ b.physicalAddresses,
    b.ptr ∈ s.blockRangeMap.get (macroBlock a)
  range_live : ∀ k, ∀ p ∈ s.blockRangeMap.get k,
    ∃ b ∈ s.blockMap, b.ptr = p ∧ ∃ a ∈ b.physicalAddresses, macroBlock a = k
  range_nodup : ∀ k, (s.blockRangeMap.get k).Nodup
  fast_live : ∀ i v, s.fastBlockMap i = some v →
    ∃ b ∈ s.blockMap, slot entryPoints b = v ∧ b.fastBlockMapIndex = i

def ValidInv (s : Cache) : Prop :=
  ∀ b ∈ s.blockMap, ∀ a ∈ b.physicalAddresses, s.validBlock (a / 32) = true

theorem indexInv_init : init.IndexInv entryPoints where
  links := linkInv_init
  sorted := fun _ h => absurd h List.not_mem_nil
  range_mem := fun _ h => absurd h List.not_mem_nil
  range_live := fun _ _ h => absurd h List.not_mem_nil
  range_nodup := fun _ => List.nodup_nil
  fast_live := fun _ _ h => nomatch h

/-- The invariant is not about the valid bits, nor about the macro blocks that are empty. -/
theorem IndexInv.congr (h : s.IndexInv entryPoints) (hblocks : s'.blockMap = s.blockMap)
    (hlinks : s'.linksTo = s.linksTo) (hfast : s'.fastBlockMap = s.fastBlockMap)
    (hrange : ∀ k, s'.blockRangeMap.get k = s.blockRangeMap.get k) : s'.IndexInv entryPoints where
  links := h.links.congr hblocks hlinks
  sorted := by
    rw [hblocks]
    exact h.sorted
  range_mem := by
    intro b hb a ha
    rw [hrange]
    rw [hblocks] at hb
    exact h.range_mem b hb a ha
  range_live := by
    intro k p hp
    rw [hrange] at hp
    rw [hblocks]
    exact h.range_live k p hp
  range_nodup := by
    intro k
    rw [hrange]
    exact h.range_nodup k
  fast_live := by
    rw [hblocks, hfast]
    exact h.fast_live

theorem IndexInv.mem_keys (h : s.IndexInv entryPoints) (hb : b ∈ s.blockMap) {a : ℕ}
    (ha : a ∈ b.physicalAddresses) : macroBlock a ∈ s.blockRangeMap.keys := by
  refine s.blockRangeMap.mem_keys_of_get fun hempty => ?_
  have hmem := h.range_mem b hb a ha
  rw [hempty] at hmem
  exact absurd hmem List.not_mem_nil

theorem slot_relinked (h : Relinked b block) : slot entryPoints block = slot entryPoints b := by
  obtain ⟨l, rfl, -⟩ := h
  rfl

theorem fastBlockMapIndex_relinked (h : Relinked b block) :
    block.fastBlockMapIndex = b.fastBlockMapIndex := by
  obtain ⟨l, rfl, -⟩ := h
  rfl

/-- **Removing a block from the blocks and from all its macro blocks keeps the invariant.** The fast
map has the block in the entry that the block is asked for, if anywhere. -/
theorem IndexInv.removed (h : s.IndexInv entryPoints) (hblock : block ∈ s.blockMap)
    (hr : Removed entryPoints s block s')
    (hrange : ∀ k q, q ∈ s'.blockRangeMap.get k ↔
      q ∈ s.blockRangeMap.get k ∧ q ≠ block.ptr)
    (hnodup : ∀ k, (s'.blockRangeMap.get k).Nodup) : s'.IndexInv entryPoints where
  links := h.links.removed hblock hr
  sorted := by
    intro b' hb'
    obtain ⟨b, hb, -, rfl⟩ := (hr.mem_blockMap b').mp hb'
    rw [(relinked_unlinkSource block b).physicalAddresses]
    exact h.sorted b hb
  range_mem := by
    intro b' hb' a ha
    obtain ⟨b, hb, hne, rfl⟩ := (hr.mem_blockMap b').mp hb'
    rw [(relinked_unlinkSource block b).physicalAddresses] at ha
    rw [unlinkSource_ptr, hrange]
    exact ⟨h.range_mem b hb a ha, hne⟩
  range_live := by
    intro k p hp
    obtain ⟨hp, hne⟩ := (hrange k p).mp hp
    obtain ⟨b, hb, rfl, hk⟩ := h.range_live k p hp
    refine ⟨_, (hr.mem_blockMap _).mpr ⟨b, hb, hne, rfl⟩, unlinkSource_ptr, ?_⟩
    rwa [(relinked_unlinkSource block b).physicalAddresses]
  range_nodup := hnodup
  fast_live := by
    intro i v hv
    rw [hr.fastBlockMap] at hv
    obtain ⟨hother, hentry⟩ := Option.ite_none_left_eq_some.mp hv
    obtain ⟨b, hb, rfl, rfl⟩ := h.fast_live i v hentry
    have hne : b.ptr ≠ block.ptr := by
      intro hptr
      have heq := h.links.distinctPtrs.eq hb hblock hptr
      subst heq
      exact hother ⟨rfl, hentry⟩
    exact ⟨_, (hr.mem_blockMap _).mpr ⟨b, hb, hne, rfl⟩,
      slot_relinked (relinked_unlinkSource block b),
      fastBlockMapIndex_relinked (relinked_unlinkSource block b)⟩

/-! ## Creation -/

theorem IndexInv.added (h : s.IndexInv entryPoints) (ha : Added entryPoints s block s')
    (hlinks : s'.LinkInv) (hsorted : block.physicalAddresses.Pairwise (· < ·)) :
    s'.IndexInv entryPoints where
  links := hlinks
  sorted := by
    intro b hb
    rcases (ha.mem_blockMap b).mp hb with rfl | hb
    · exact hsorted
    · exact h.sorted b hb
  range_mem := by
    intro b hb a haddr
    rw [ha.blockRangeMap, mem_get_addPhysicalAddresses]
    rcases (ha.mem_blockMap b).mp hb with rfl | hb
    · exact Or.inr ⟨rfl, a, haddr, rfl⟩
    · exact Or.inl (h.range_mem b hb a haddr)
  range_live := by
    intro k p hp
    rw [ha.blockRangeMap, mem_get_addPhysicalAddresses] at hp
    rcases hp with hp | ⟨rfl, hk⟩
    · obtain ⟨b, hb, hlive⟩ := h.range_live k p hp
      exact ⟨b, (ha.mem_blockMap b).mpr (Or.inr hb), hlive⟩
    · exact ⟨block, (ha.mem_blockMap block).mpr (Or.inl rfl), rfl, hk⟩
  range_nodup := by
    intro k
    rw [ha.blockRangeMap]
    exact nodup_get_addPhysicalAddresses h.range_nodup
  fast_live := by
    intro i v hv
    rw [ha.fastBlockMap, Function.update_apply] at hv
    split at hv
    · next hi =>
      exact ⟨block, (ha.mem_blockMap block).mpr (Or.inl rfl), Option.some.inj hv, hi.symm⟩
    · obtain ⟨b, hb, hlive⟩ := h.fast_live i v hv
      exact ⟨b, (ha.mem_blockMap b).mpr (Or.inr hb), hlive⟩

theorem ValidInv.added (h : s.ValidInv) (ha : Added entryPoints s block s') : s'.ValidInv := by
  intro b hb a haddr
  rw [ha.validBlock, validBlock_addPhysicalAddresses]
  rcases (ha.mem_blockMap b).mp hb with rfl | hb
  · exact Or.inr ⟨a, haddr, rfl⟩
  · exact Or.inl (h b hb a haddr)

theorem IndexInv.relink (h : s.IndexInv entryPoints) {f : JitBlock → JitBlock}
    (hf : ∀ b, Relinked b (f b)) (hlinks : (s.mapBlocks f).LinkInv) :
    (s.mapBlocks f).IndexInv entryPoints where
  links := hlinks
  sorted := by
    intro b' hb'
    obtain ⟨b, hb, rfl⟩ := mem_mapBlocks.mp hb'
    rw [(hf b).physicalAddresses]
    exact h.sorted b hb
  range_mem := by
    intro b' hb' a ha
    obtain ⟨b, hb, rfl⟩ := mem_mapBlocks.mp hb'
    rw [(hf b).physicalAddresses] at ha
    rw [(hf b).ptr]
    exact h.range_mem b hb a ha
  range_live := by
    intro k p hp
    obtain ⟨b, hb, rfl, hk⟩ := h.range_live k p hp
    refine ⟨f b, mem_mapBlocks.mpr ⟨b, hb, rfl⟩, (hf b).ptr, ?_⟩
    rwa [(hf b).physicalAddresses]
  range_nodup := h.range_nodup
  fast_live := by
    intro i v hv
    obtain ⟨b, hb, rfl, rfl⟩ := h.fast_live i v hv
    exact ⟨f b, mem_mapBlocks.mpr ⟨b, hb, rfl⟩, slot_relinked (hf b),
      fastBlockMapIndex_relinked (hf b)⟩

theorem ValidInv.relink (h : s.ValidInv) {f : JitBlock → JitBlock} (hf : ∀ b, Relinked b (f b)) :
    (s.mapBlocks f).ValidInv := by
  intro b' hb' a ha
  obtain ⟨b, hb, rfl⟩ := mem_mapBlocks.mp hb'
  rw [(hf b).physicalAddresses] at ha
  exact h b hb a ha

/-- **Compiling a block is defined and keeps the invariants.** -/
theorem IndexInv.compile {tr : Translation} {emAddress featureFlags : ℕ} {blockLink : Bool}
    {code : Compiled} (h : s.IndexInv entryPoints) (hv : s.ValidInv) (hp : s.block? p = none)
    (hsorted : code.physicalAddresses.Pairwise (· < ·)) :
    ∃ s', (s.allocateBlock tr emAddress featureFlags p).finalizeBlock entryPoints tr p blockLink
      code = some s' ∧ s'.IndexInv entryPoints ∧ s'.ValidInv := by
  obtain ⟨s₁, hadd, heq⟩ := finalizeBlock_eq entryPoints tr emAddress featureFlags blockLink
    code hp
  rw [heq]
  have h₁ : s₁.IndexInv entryPoints := h.added hadd (h.links.finalBlock hp hadd) hsorted
  have hv₁ : s₁.ValidInv := hv.added hadd
  cases blockLink with
  | false => exact ⟨s₁, rfl, h₁, hv₁⟩
  | true =>
    obtain ⟨hlinks, hself⟩ := h.links.finalBlock_exits hp hadd
    have h₂ : (s₁.addLinksTo p code.exits).IndexInv entryPoints :=
      ⟨hlinks, h₁.sorted, h₁.range_mem, h₁.range_live, h₁.range_nodup, h₁.fast_live⟩
    have hsources := sources_isSome.mpr (hlinks.sources_live emAddress)
    obtain ⟨s', hs'⟩ := Option.isSome_iff_exists.mp (linkBlock_isSome tr
      (finalBlock entryPoints tr emAddress featureFlags p code) ▸ hsources)
    have hlinked := hlinks.linkBlock hself ((hadd.mem_blockMap _).mpr (Or.inl rfl)) hs'
    obtain rfl := linkBlock_eq_some hs'
    have hv₂ : (s₁.addLinksTo p code.exits).ValidInv := hv₁
    exact ⟨_, hs', h₂.relink relinked_linkSources hlinked, hv₂.relink relinked_linkSources⟩

/-! ## Lookup -/

theorem IndexInv.moveFastEntry (h : s.IndexInv entryPoints) (hblock : block ∈ s.blockMap)
    (index : ℕ) :
    ((s.dropFastEntry entryPoints block).putFastEntry entryPoints block index).IndexInv
      entryPoints := by
  set s' := (s.dropFastEntry entryPoints block).putFastEntry entryPoints block index with hs'
  set f : JitBlock → JitBlock := fun b =>
    if b.ptr = block.ptr then { b with fastBlockMapIndex := index } else b with hf
  have hsame : ∀ b, (f b).ptr = b.ptr ∧ (f b).physicalAddresses = b.physicalAddresses := by
    intro b
    simp only [hf]
    split <;> exact ⟨rfl, rfl⟩
  have hdrop := dropFastEntry_eq s entryPoints block
  have hmem : ∀ b', b' ∈ s'.blockMap ↔ ∃ b ∈ s.blockMap, f b = b' := by
    intro b'
    rw [hs', hdrop]
    exact List.mem_map
  have hrange : s'.blockRangeMap = s.blockRangeMap := by
    rw [hs', hdrop]
    rfl
  have hlinks : s'.LinkInv := by
    have hdropped : (s.dropFastEntry entryPoints block).LinkInv := by
      rw [hdrop]
      exact h.links.congr rfl rfl
    exact hdropped.putFastEntry block index
  refine ⟨hlinks, ?_, ?_, ?_, ?_, ?_⟩
  · intro b' hb'
    obtain ⟨b, hb, rfl⟩ := (hmem b').mp hb'
    rw [(hsame b).2]
    exact h.sorted b hb
  · intro b' hb' a ha
    obtain ⟨b, hb, rfl⟩ := (hmem b').mp hb'
    rw [(hsame b).2] at ha
    rw [(hsame b).1, hrange]
    exact h.range_mem b hb a ha
  · intro k p hp
    rw [hrange] at hp
    obtain ⟨b, hb, rfl, hk⟩ := h.range_live k p hp
    refine ⟨f b, (hmem _).mpr ⟨b, hb, rfl⟩, (hsame b).1, ?_⟩
    rwa [(hsame b).2]
  · intro k
    rw [hrange]
    exact h.range_nodup k
  · intro i v hv
    change Function.update (s.dropFastEntry entryPoints block).fastBlockMap index
      (some (slot entryPoints block)) i = some v at hv
    rw [Function.update_apply, fastBlockMap_dropFastEntry] at hv
    by_cases hi : i = index
    · rw [if_pos hi] at hv
      have hfblock : f block = { block with fastBlockMapIndex := index } := if_pos rfl
      refine ⟨f block, (hmem _).mpr ⟨block, hblock, rfl⟩, ?_, ?_⟩
      · rw [hfblock]
        exact Option.some.inj hv
      · rw [hfblock, hi]
    · rw [if_neg hi] at hv
      obtain ⟨hother, hentry⟩ := Option.ite_none_left_eq_some.mp hv
      obtain ⟨b, hb, rfl, rfl⟩ := h.fast_live i v hentry
      have hne : b.ptr ≠ block.ptr := by
        intro hptr
        have heq := h.links.distinctPtrs.eq hb hblock hptr
        subst heq
        exact hother ⟨rfl, hentry⟩
      have hfb : f b = b := if_neg hne
      exact ⟨b, (hmem _).mpr ⟨b, hb, hfb⟩, rfl, rfl⟩

theorem IndexInv.moveBlockIntoFastCache (h : s.IndexInv entryPoints) (tr : Translation)
    (addr featureFlags : ℕ) :
    (s.moveBlockIntoFastCache entryPoints tr addr featureFlags).1.IndexInv entryPoints := by
  unfold Cache.moveBlockIntoFastCache
  split
  · exact h
  · next block hfind => exact h.moveFastEntry (getBlockFromStartAddress_eq_some hfind).1 _

theorem ValidInv.moveBlockIntoFastCache (h : s.ValidInv) (tr : Translation)
    (addr featureFlags : ℕ) :
    (s.moveBlockIntoFastCache entryPoints tr addr featureFlags).1.ValidInv := by
  unfold Cache.moveBlockIntoFastCache
  split
  · exact h
  · rw [dropFastEntry_eq]
    intro b' hb' a ha
    obtain ⟨b, hb, rfl⟩ := List.mem_map.mp hb'
    refine h b hb a ?_
    split at ha <;> exact ha

/-- **`Dispatch` is defined and returns the entry of a live block.** -/
theorem IndexInv.dispatch (h : s.IndexInv entryPoints) (tr : Translation) (pc featureFlags : ℕ) :
    ∃ s' r, s.dispatch entryPoints tr pc featureFlags = some (s', r) ∧
      (s' = s ∨ s' = (s.moveBlockIntoFastCache entryPoints tr pc featureFlags).1) ∧
      ∀ entry, r = some entry → ∃ b ∈ s.blockMap, b.normalEntry = entry := by
  have hslow : ∀ entry, (s.moveBlockIntoFastCache entryPoints tr pc featureFlags).2.map
      JitBlock.normalEntry = some entry → ∃ b ∈ s.blockMap, b.normalEntry = entry := by
    intro entry hentry
    obtain ⟨b, hb, rfl⟩ := Option.map_eq_some_iff.mp hentry
    unfold Cache.moveBlockIntoFastCache at hb
    split at hb
    · cases hb
    · next block hfind =>
      cases hb
      exact ⟨b, (getBlockFromStartAddress_eq_some hfind).1, rfl⟩
  unfold Cache.dispatch
  cases hfast : s.fastBlockMap (fastLookupIndexForAddress entryPoints pc featureFlags) with
  | none => exact ⟨_, _, rfl, Or.inr rfl, hslow⟩
  | some v =>
    obtain ⟨b, hb, hslot, -⟩ := h.fast_live _ v hfast
    cases entryPoints with
    | true =>
      refine ⟨s, some v, rfl, Or.inl rfl, fun entry he => ⟨b, hb, ?_⟩⟩
      exact hslot.trans (Option.some.inj he)
    | false =>
      have hptr : b.ptr = v := hslot
      have hblock : s.block? v = some b := hptr ▸ h.links.distinctPtrs.block? hb
      dsimp only
      rw [if_neg Bool.false_ne_true, hblock]
      by_cases hother : b.effectiveAddress ≠ pc ∨ b.featureFlags ≠ featureFlags
      · refine ⟨_, _, congrArg some (if_pos hother), Or.inr rfl, hslow⟩
      · refine ⟨s, some b.normalEntry, congrArg some (if_neg hother), Or.inl rfl, ?_⟩
        intro entry he
        exact ⟨b, hb, Option.some.inj he⟩

/-! ## Destruction -/

/-- The blocks of `s'` are blocks of `s`. -/
def FewerBlocks (s s' : Cache) : Prop := ∀ b' ∈ s'.blockMap, ∃ b ∈ s.blockMap, Relinked b b'

theorem FewerBlocks.refl (s : Cache) : FewerBlocks s s := fun b hb => ⟨b, hb, Relinked.refl b⟩

theorem FewerBlocks.trans {s₁ : Cache} (h : FewerBlocks s s₁) (h' : FewerBlocks s₁ s') :
    FewerBlocks s s' := by
  intro b' hb'
  obtain ⟨b₁, hb₁, hrel'⟩ := h' b' hb'
  obtain ⟨b, hb, hrel⟩ := h b₁ hb₁
  exact ⟨b, hb, hrel.trans hrel'⟩

theorem Removed.fewerBlocks (h : Removed entryPoints s block s') : FewerBlocks s s' := by
  intro b' hb'
  obtain ⟨b, hb, -, rfl⟩ := (h.mem_blockMap b').mp hb'
  exact ⟨b, hb, relinked_unlinkSource block b⟩

theorem ValidInv.fewerBlocks (h : s.ValidInv) (hf : FewerBlocks s s')
    (hvalid : s'.validBlock = s.validBlock) : s'.ValidInv := by
  intro b' hb' a ha
  obtain ⟨b, hb, hrel⟩ := hf b' hb'
  rw [hrel.physicalAddresses] at ha
  rw [hvalid]
  exact h b hb a ha

theorem IndexInv.eraseSingleBlock (h : s.IndexInv entryPoints) (hblock : block ∈ s.blockMap) :
    ∃ s', s.eraseSingleBlock entryPoints block = some s' ∧ s'.IndexInv entryPoints ∧
      Removed entryPoints s block s' := by
  let s₀ := s.removeFromRangeMap block.ptr block.physicalAddresses
  obtain ⟨s₁, hdestroy⟩ := Option.isSome_iff_exists.mp
    ((destroyBlock_isSome (s := s₀) entryPoints).mpr
      (h.links.sources_live block.effectiveAddress))
  have hremoved := destroyBlock_removed hdestroy
  have hr : Removed entryPoints s block (s₁.eraseFromBlockMap block.ptr) :=
    ⟨hremoved.1, hremoved.2, hremoved.3, hremoved.4, hremoved.5⟩
  have hrange : s₁.blockRangeMap = s₀.blockRangeMap := destroyBlock_blockRangeMap hdestroy
  refine ⟨s₁.eraseFromBlockMap block.ptr, Option.map_eq_some_iff.mpr ⟨s₁, hdestroy, rfl⟩,
    h.removed hblock hr (fun k q => ?_) (fun k => ?_), hr⟩
  · change q ∈ s₁.blockRangeMap.get k ↔ _
    rw [hrange, mem_get_removeFromRangeMap]
    refine and_congr_right fun hq => ?_
    constructor
    · rintro hne rfl
      obtain ⟨b, hb, hptr, hk⟩ := h.range_live k _ hq
      rw [h.links.distinctPtrs.eq hb hblock hptr] at hk
      exact hne ⟨rfl, hk⟩
    · exact fun hne h => hne h.1
  · change (s₁.blockRangeMap.get k).Nodup
    rw [hrange]
    exact nodup_get_removeFromRangeMap h.range_nodup

/-- `Clear` is about to destroy the blocks `l` of `s`. -/
structure Clearing (entryPoints : Bool) (s : Cache) (l : List JitBlock) (t : Cache) : Prop where
  live : ∀ b ∈ s.blockMap, ∃ b', t.block? b.ptr = some b' ∧ Relinked b b'
  sources_live : ∀ x, ∀ p ∈ t.linksTo x, ∃ b ∈ s.blockMap, b.ptr = p
  fast_live : ∀ i v, t.fastBlockMap i = some v →
    ∃ b ∈ l, slot entryPoints b = v ∧ b.fastBlockMapIndex = i

theorem Clearing.step {l : List JitBlock} {t : Cache} (hb : b ∈ s.blockMap)
    (h : Clearing entryPoints s (b :: l) t) :
    ∃ t', (t.block? b.ptr).bind (t.destroyBlock entryPoints) = some t' ∧
      Clearing entryPoints s l t' := by
  obtain ⟨b₁, hb₁, hrel⟩ := h.live b hb
  have hsources : ∀ p ∈ t.linksTo b₁.effectiveAddress, ∃ b ∈ t.blockMap, b.ptr = p := by
    intro p hp
    obtain ⟨b₂, hb₂, rfl⟩ := h.sources_live _ p hp
    obtain ⟨b₃, hb₃, -⟩ := h.live b₂ hb₂
    exact ⟨b₃, block?_eq_some hb₃⟩
  obtain ⟨t', ht'⟩ := Option.isSome_iff_exists.mp
    ((destroyBlock_isSome entryPoints).mpr hsources)
  refine ⟨t', Option.bind_eq_some_iff.mpr ⟨b₁, hb₁, ht'⟩, ?_, ?_, ?_⟩
  · intro b₂ hb₂
    obtain ⟨b₃, hb₃, hrel₃⟩ := h.live b₂ hb₂
    obtain ⟨g, hg, hblock⟩ := destroyBlock_block? ht'
    exact ⟨g b₃, by rw [hblock, hb₃]; rfl, hrel₃.trans (hg b₃)⟩
  · exact fun x p hp => h.sources_live x p (destroyBlock_linksTo_subset ht' hp)
  · intro i v hv
    rw [destroyBlock_fastBlockMap ht'] at hv
    obtain ⟨hother, hentry⟩ := Option.ite_none_left_eq_some.mp hv
    obtain ⟨b₂, hb₂, rfl, rfl⟩ := h.fast_live i v hentry
    rcases List.mem_cons.mp hb₂ with rfl | hb₂
    · rw [← slot_relinked hrel] at hentry
      exact absurd ⟨(fastBlockMapIndex_relinked hrel).symm, hentry⟩ hother
    · exact ⟨b₂, hb₂, rfl, rfl⟩

theorem Clearing.fold {l : List JitBlock} {t : Cache} (hl : ∀ b ∈ l, b ∈ s.blockMap)
    (h : Clearing entryPoints s l t) :
    ∃ t', l.foldlM (fun (t : Cache) b => (t.block? b.ptr).bind (t.destroyBlock entryPoints)) t =
      some t' ∧ Clearing entryPoints s [] t' := by
  induction l generalizing t with
  | nil => exact ⟨t, rfl, h⟩
  | cons b l ih =>
    obtain ⟨t₁, ht₁, h₁⟩ := h.step (hl b List.mem_cons_self)
    obtain ⟨t', ht', h'⟩ := ih (fun b hb => hl b (List.mem_cons_of_mem _ hb)) h₁
    exact ⟨t', Option.bind_eq_some_iff.mpr ⟨t₁, ht₁, ht'⟩, h'⟩

/-- **`Clear` is defined and leaves nothing in the indexes.** -/
theorem IndexInv.clear (h : s.IndexInv entryPoints) :
    ∃ s', s.clear entryPoints = some s' ∧ s'.IndexInv entryPoints ∧ s'.ValidInv := by
  have hstart : Clearing entryPoints s s.blockMap s :=
    ⟨fun b hb => ⟨b, h.links.distinctPtrs.block? hb, Relinked.refl b⟩, h.links.sources_live,
      h.fast_live⟩
  obtain ⟨t, hfold, hend⟩ := hstart.fold fun _ hb => hb
  refine ⟨_, Option.map_eq_some_iff.mpr ⟨t, hfold, rfl⟩, ?_, fun _ h => absurd h List.not_mem_nil⟩
  refine indexInv_init.congr rfl rfl (funext fun i => ?_) fun _ => rfl
  have hnone : t.fastBlockMap i = none := by
    cases hv : t.fastBlockMap i with
    | none => rfl
    | some v =>
      obtain ⟨b, hb, -⟩ := hend.fast_live i v hv
      exact absurd hb List.not_mem_nil
  cases entryPoints
  · exact hnone
  · rfl

end Cache

end JitCache
