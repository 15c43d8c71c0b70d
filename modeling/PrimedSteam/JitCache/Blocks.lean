import PrimedSteam.JitCache.Model

/-!
# What the operations of the cache do

One lemma for each operation of `Cache`, about the field it changes. The fields it does not change
are left as they are by definition.
-/

set_option autoImplicit false

namespace JitCache

namespace Cache

variable {s s' : Cache} {b block : JitBlock} {p q : BlockPtr}

/-! ## Blocks -/

@[simp] theorem mem_mapBlocks {f : JitBlock → JitBlock} :
    b ∈ (s.mapBlocks f).blockMap ↔ ∃ b' ∈ s.blockMap, f b' = b :=
  List.mem_map

@[simp] theorem mem_eraseFromBlockMap :
    b ∈ (s.eraseFromBlockMap p).blockMap ↔ b ∈ s.blockMap ∧ b.ptr ≠ p := by
  simp [eraseFromBlockMap]

theorem mem_allocateBlock {tr : Translation} {emAddress featureFlags : ℕ} :
    b ∈ (s.allocateBlock tr emAddress featureFlags p).blockMap ↔
      b = ⟨p, 0, featureFlags, emAddress, (tr emAddress).address, 0, [], []⟩ ∨ b ∈ s.blockMap :=
  List.mem_orderedInsert _

theorem block?_eq_some (h : s.block? p = some b) : b ∈ s.blockMap ∧ b.ptr = p :=
  ⟨List.mem_of_find?_eq_some h, by simpa using List.find?_some h⟩

theorem block?_eq_none : s.block? p = none ↔ ∀ b ∈ s.blockMap, b.ptr ≠ p := by
  simp [block?, List.find?_eq_none]

/-- Different blocks have different addresses. -/
def DistinctPtrs (s : Cache) : Prop := (s.blockMap.map JitBlock.ptr).Nodup

theorem DistinctPtrs.eq (h : s.DistinctPtrs) (hb : b ∈ s.blockMap) (hblock : block ∈ s.blockMap)
    (hptr : b.ptr = block.ptr) : b = block :=
  List.inj_on_of_nodup_map h hb hblock hptr

theorem DistinctPtrs.block? (h : s.DistinctPtrs) (hb : b ∈ s.blockMap) :
    s.block? b.ptr = some b := by
  cases hfind : s.block? b.ptr with
  | none => exact absurd rfl (block?_eq_none.mp hfind b hb)
  | some b' =>
    have hb' := block?_eq_some hfind
    rw [h.eq hb hb'.1 hb'.2.symm]

theorem DistinctPtrs.mapBlocks (h : s.DistinctPtrs) {f : JitBlock → JitBlock}
    (hf : ∀ b, (f b).ptr = b.ptr) : (s.mapBlocks f).DistinctPtrs := by
  have hptr : JitBlock.ptr ∘ f = JitBlock.ptr := funext hf
  simpa [DistinctPtrs, Cache.mapBlocks, hptr] using h

theorem block?_mapBlocks {f : JitBlock → JitBlock} (hf : ∀ b, (f b).ptr = b.ptr) :
    (s.mapBlocks f).block? p = (s.block? p).map f := by
  have hptr : (fun b : JitBlock => decide (b.ptr = p)) ∘ f = fun b => decide (b.ptr = p) :=
    funext fun b => by simp [hf]
  rw [block?, Cache.mapBlocks, List.find?_map, hptr]
  rfl

theorem DistinctPtrs.modifyBlock (h : s.DistinctPtrs) {f : JitBlock → JitBlock}
    (hf : ∀ b, (f b).ptr = b.ptr) : (s.modifyBlock p f).DistinctPtrs := by
  refine h.mapBlocks fun b => ?_
  split
  · exact hf b
  · rfl

theorem DistinctPtrs.putFastEntry (h : s.DistinctPtrs) {entryPoints : Bool} {index : ℕ} :
    (s.putFastEntry entryPoints b index).DistinctPtrs := by
  have hmodify := h.modifyBlock (p := b.ptr)
    (f := fun b => { b with fastBlockMapIndex := index }) fun _ => rfl
  exact hmodify

theorem DistinctPtrs.eraseFromBlockMap (h : s.DistinctPtrs) :
    (s.eraseFromBlockMap p).DistinctPtrs :=
  List.Nodup.sublist (List.filter_sublist.map _) h

theorem DistinctPtrs.allocateBlock (h : s.DistinctPtrs) (hp : s.block? p = none)
    {tr : Translation} {emAddress featureFlags : ℕ} :
    (s.allocateBlock tr emAddress featureFlags p).DistinctPtrs := by
  have hperm := List.perm_orderedInsert (fun a b => a.physicalAddress < b.physicalAddress)
    ⟨p, 0, featureFlags, emAddress, (tr emAddress).address, 0, [], []⟩ s.blockMap
  refine (hperm.map JitBlock.ptr).nodup_iff.mpr (List.nodup_cons.mpr ⟨?_, h⟩)
  intro hmem
  obtain ⟨b, hb, hptr⟩ := List.mem_map.mp hmem
  exact block?_eq_none.mp hp b hb hptr

theorem getBlockFromStartAddress_eq_some {tr : Translation} {addr featureFlags : ℕ}
    (h : s.getBlockFromStartAddress tr addr featureFlags = some b) :
    b ∈ s.blockMap ∧ b.effectiveAddress = addr ∧ b.featureFlags = featureFlags := by
  have hfind := (Option.ite_none_left_eq_some.mp h).2
  have hmem := (List.mem_filter.mp (List.mem_of_find?_eq_some hfind)).1
  have hkeys := List.find?_some hfind
  exact ⟨hmem, by simpa using hkeys⟩

/-! ## Links -/

theorem sources_isSome {addr : ℕ} :
    (s.sources addr).isSome ↔ ∀ p ∈ s.linksTo addr, ∃ b ∈ s.blockMap, b.ptr = p := by
  unfold sources
  induction s.linksTo addr with
  | nil => simp
  | cons p l ih =>
    have hp : (s.block? p).isSome ↔ ∃ b ∈ s.blockMap, b.ptr = p := by
      rw [Option.isSome_iff_ne_none, ne_eq, block?_eq_none]
      push Not
      rfl
    rw [List.forall_mem_cons, ← ih, ← hp, List.mapM_cons]
    cases s.block? p <;> cases l.mapM s.block? <;> simp

theorem linkBlock_eq_some {tr : Translation} (h : s.linkBlock tr block = some s') :
    s' = s.mapBlocks (s.linkSources tr block) := by
  obtain ⟨_, -, h⟩ := Option.map_eq_some_iff.mp h
  exact h.symm

theorem linkBlock_isSome (tr : Translation) (block : JitBlock) :
    (s.linkBlock tr block).isSome = (s.sources block.effectiveAddress).isSome :=
  Option.isSome_map

theorem mem_linksTo_addLinksTo {exits : List ℕ} {x : ℕ} :
    q ∈ (s.addLinksTo p exits).linksTo x ↔ q ∈ s.linksTo x ∨ q = p ∧ x ∈ exits := by
  unfold addLinksTo
  dsimp only
  generalize s.linksTo = l
  induction exits generalizing l with
  | nil => simp
  | cons exit exits ih =>
    rw [List.foldl_cons, ih, Function.update_apply]
    by_cases hx : x = exit
    · rw [if_pos hx, List.mem_insert_iff, hx]
      simp
      tauto
    · rw [if_neg hx]
      simp [hx]

theorem mem_linksTo_removeLinksTo {x : ℕ} :
    q ∈ (s.removeLinksTo block).linksTo x ↔
      q ∈ s.linksTo x ∧ ¬ (q = block.ptr ∧ ∃ e ∈ block.linkData, e.exitAddress = x) := by
  unfold removeLinksTo
  dsimp only
  generalize s.linksTo = l
  induction block.linkData generalizing l with
  | nil => simp
  | cons e es ih =>
    rw [List.foldl_cons, ih, Function.update_apply]
    by_cases hx : x = e.exitAddress
    · rw [if_pos hx, List.mem_filter, hx]
      simp
      tauto
    · rw [if_neg hx]
      simp [Ne.symm hx]

/-! ## Macro blocks -/

theorem mem_get_addPhysicalAddresses {addrs : List ℕ} {k : ℕ} :
    q ∈ (s.addPhysicalAddresses p addrs).blockRangeMap.get k ↔
      q ∈ s.blockRangeMap.get k ∨ q = p ∧ ∃ a ∈ addrs, macroBlock a = k := by
  unfold addPhysicalAddresses
  dsimp only
  generalize s.blockRangeMap = m
  induction addrs generalizing m with
  | nil => simp
  | cons a addrs ih =>
    rw [List.foldl_cons, ih, OrderedMap.get_modify]
    by_cases hk : k = macroBlock a
    · rw [if_pos hk, List.mem_insert_iff, hk]
      simp
      tauto
    · rw [if_neg hk]
      simp [Ne.symm hk]

theorem nodup_get_addPhysicalAddresses {addrs : List ℕ} {k : ℕ}
    (h : ∀ k, (s.blockRangeMap.get k).Nodup) :
    ((s.addPhysicalAddresses p addrs).blockRangeMap.get k).Nodup := by
  unfold addPhysicalAddresses
  dsimp only
  generalize s.blockRangeMap = m at h
  induction addrs generalizing m with
  | nil => exact h k
  | cons a addrs ih =>
    refine ih _ fun k' => ?_
    rw [OrderedMap.get_modify]
    split
    · exact (h _).insert
    · exact h k'

theorem validBlock_addPhysicalAddresses {addrs : List ℕ} {i : ℕ} :
    (s.addPhysicalAddresses p addrs).validBlock i = true ↔
      s.validBlock i = true ∨ ∃ a ∈ addrs, a / 32 = i := by
  unfold addPhysicalAddresses
  dsimp only
  generalize s.validBlock = v
  induction addrs generalizing v with
  | nil => simp
  | cons a addrs ih =>
    rw [List.foldl_cons, ih, Function.update_apply]
    by_cases hi : i = a / 32
    · simp [hi]
    · rw [if_neg hi]
      simp [Ne.symm hi]

theorem mem_get_removeFromRangeMap {addrs : List ℕ} {k : ℕ} :
    q ∈ (s.removeFromRangeMap p addrs).blockRangeMap.get k ↔
      q ∈ s.blockRangeMap.get k ∧ ¬ (q = p ∧ ∃ a ∈ addrs, macroBlock a = k) := by
  unfold removeFromRangeMap
  dsimp only
  generalize s.blockRangeMap = m
  induction addrs generalizing m with
  | nil => simp
  | cons a addrs ih =>
    rw [List.foldl_cons, ih, OrderedMap.get_modify]
    by_cases hk : k = macroBlock a
    · rw [if_pos hk, List.mem_filter, hk]
      simp
      tauto
    · rw [if_neg hk]
      simp [Ne.symm hk]

theorem nodup_get_removeFromRangeMap {addrs : List ℕ} {k : ℕ}
    (h : ∀ k, (s.blockRangeMap.get k).Nodup) :
    ((s.removeFromRangeMap p addrs).blockRangeMap.get k).Nodup := by
  unfold removeFromRangeMap
  dsimp only
  generalize s.blockRangeMap = m at h
  induction addrs generalizing m with
  | nil => exact h k
  | cons a addrs ih =>
    refine ih _ fun k' => ?_
    rw [OrderedMap.get_modify]
    split
    · exact (h _).filter _
    · exact h k'

theorem mem_keys_removeFromRangeMap {addrs : List ℕ} {k : ℕ} :
    k ∈ (s.removeFromRangeMap p addrs).blockRangeMap.keys ↔
      k ∈ s.blockRangeMap.keys ∨ ∃ a ∈ addrs, macroBlock a = k := by
  unfold removeFromRangeMap
  dsimp only
  generalize s.blockRangeMap = m
  induction addrs generalizing m with
  | nil => simp
  | cons a addrs ih =>
    rw [List.foldl_cons, ih, OrderedMap.mem_keys_modify]
    have hcomm : macroBlock a = k ↔ k = macroBlock a := eq_comm
    simp only [List.mem_cons, exists_eq_or_imp]
    rw [hcomm]
    exact or_assoc.trans or_left_comm

/-! ## Link states -/

/-- `b'` is `b` but for the states of its links. -/
def Relinked (b b' : JitBlock) : Prop :=
  ∃ l, b' = { b with linkData := l } ∧
    l.map LinkData.exitAddress = b.linkData.map LinkData.exitAddress

theorem Relinked.refl (b : JitBlock) : Relinked b b := ⟨b.linkData, rfl, rfl⟩

theorem Relinked.ptr (h : Relinked b block) : block.ptr = b.ptr := by
  obtain ⟨l, rfl, -⟩ := h
  rfl

theorem Relinked.physicalAddresses (h : Relinked b block) :
    block.physicalAddresses = b.physicalAddresses := by
  obtain ⟨l, rfl, -⟩ := h
  rfl

theorem Relinked.trans {b' : JitBlock} (h : Relinked b block) (h' : Relinked block b') :
    Relinked b b' := by
  obtain ⟨l, rfl, hl⟩ := h
  obtain ⟨l', rfl, hl'⟩ := h'
  exact ⟨l', rfl, hl'.trans hl⟩

theorem Relinked.exists_exit (h : Relinked b block) {x : ℕ} :
    (∃ e ∈ block.linkData, e.exitAddress = x) ↔ ∃ e ∈ b.linkData, e.exitAddress = x := by
  obtain ⟨l, rfl, hl⟩ := h
  rw [← List.mem_map, ← List.mem_map, hl]

theorem relinked_linkBlockExits (tr : Translation) (b : JitBlock) :
    Relinked b (s.linkBlockExits tr b) := by
  refine ⟨_, rfl, ?_⟩
  rw [List.map_map]
  refine List.map_congr_left fun e _ => ?_
  simp only [Function.comp_apply]
  split
  · rfl
  · split <;> rfl

theorem relinked_linkSources {tr : Translation} (b : JitBlock) :
    Relinked b (s.linkSources tr block b) := by
  unfold linkSources
  split
  · exact relinked_linkBlockExits tr b
  · exact Relinked.refl b

theorem relinked_unlinkSource (block b : JitBlock) : Relinked b (s.unlinkSource block b) := by
  unfold unlinkSource
  split
  · refine ⟨_, rfl, ?_⟩
    rw [List.map_map]
    refine List.map_congr_left fun e _ => ?_
    simp only [Function.comp_apply]
    split <;> rfl
  · exact Relinked.refl b

theorem unlinkSource_ptr : (s.unlinkSource block b).ptr = b.ptr :=
  (relinked_unlinkSource block b).ptr

variable {entryPoints : Bool}

/-! ## Creation -/

section Compile

variable {tr : Translation} {emAddress featureFlags : ℕ} {blockLink : Bool} {code : Compiled}

/-- A block that has been compiled, before `FinalizeBlock`. -/
def compiledBlock (tr : Translation) (emAddress featureFlags : ℕ) (p : BlockPtr)
    (code : Compiled) : JitBlock :=
  ⟨p, code.normalEntry, featureFlags, emAddress, (tr emAddress).address, 0,
    code.exits.map fun exit => ⟨exit, false, none⟩, []⟩

/-- A block in the form in which `FinalizeBlock` puts it into the indexes. -/
def finalBlock (entryPoints : Bool) (tr : Translation) (emAddress featureFlags : ℕ) (p : BlockPtr)
    (code : Compiled) : JitBlock :=
  { compiledBlock tr emAddress featureFlags p code with
    fastBlockMapIndex := fastLookupIndexForAddress entryPoints emAddress featureFlags
    physicalAddresses := code.physicalAddresses }

/-- `s'` is `s` with a new block in it that is in the fast map and in the macro blocks, but not yet
linked. -/
structure Added (entryPoints : Bool) (s : Cache) (block : JitBlock) (s' : Cache) : Prop where
  mem_blockMap : ∀ b, b ∈ s'.blockMap ↔ b = block ∨ b ∈ s.blockMap
  linksTo : s'.linksTo = s.linksTo
  blockRangeMap :
    s'.blockRangeMap = (s.addPhysicalAddresses block.ptr block.physicalAddresses).blockRangeMap
  validBlock :
    s'.validBlock = (s.addPhysicalAddresses block.ptr block.physicalAddresses).validBlock
  fastBlockMap : s'.fastBlockMap =
    Function.update s.fastBlockMap block.fastBlockMapIndex (some (slot entryPoints block))
  distinctPtrs : s.DistinctPtrs → s'.DistinctPtrs

theorem mem_modifyBlock_new {f : JitBlock → JitBlock} {new : JitBlock}
    (hs : ∀ b, b ∈ s'.blockMap ↔ b = new ∨ b ∈ s.blockMap) (hnew : ∀ b ∈ s.blockMap, b.ptr ≠ p)
    (hptr : new.ptr = p) :
    ∀ b, b ∈ (s'.modifyBlock p f).blockMap ↔ b = f new ∨ b ∈ s.blockMap := by
  intro b
  simp only [modifyBlock, mem_mapBlocks, hs]
  constructor
  · rintro ⟨b', rfl | hb', rfl⟩
    · exact Or.inl (if_pos hptr)
    · rw [if_neg (hnew b' hb')]
      exact Or.inr hb'
  · rintro (rfl | hb)
    · exact ⟨new, Or.inl rfl, if_pos hptr⟩
    · exact ⟨b, Or.inr hb, if_neg (hnew b hb)⟩

variable (entryPoints tr emAddress featureFlags blockLink code) in
/-- **`FinalizeBlock` on a newly allocated block** adds it to the indexes, then links it. -/
theorem finalizeBlock_eq (hp : s.block? p = none) :
    ∃ s₁, Added entryPoints s (finalBlock entryPoints tr emAddress featureFlags p code) s₁ ∧
      (s.allocateBlock tr emAddress featureFlags p).finalizeBlock entryPoints tr p blockLink code =
        if blockLink then
          (s₁.addLinksTo p code.exits).linkBlock tr
            (finalBlock entryPoints tr emAddress featureFlags p code)
        else some s₁ := by
  have hnew := block?_eq_none.mp hp
  let s₀ := (s.allocateBlock tr emAddress featureFlags p).modifyBlock p fun b =>
    { b with
      normalEntry := code.normalEntry
      linkData := code.exits.map fun exit => ⟨exit, false, none⟩ }
  have hs₀ : ∀ b, b ∈ s₀.blockMap ↔
      b = compiledBlock tr emAddress featureFlags p code ∨ b ∈ s.blockMap :=
    mem_modifyBlock_new (fun b => mem_allocateBlock) hnew rfl
  have hblock : s₀.block? p = some (compiledBlock tr emAddress featureFlags p code) := by
    cases hfind : s₀.block? p with
    | none => exact absurd rfl (block?_eq_none.mp hfind _ ((hs₀ _).mpr (Or.inl rfl)))
    | some b =>
      obtain ⟨hb, hptr⟩ := block?_eq_some hfind
      rcases (hs₀ b).mp hb with rfl | hb
      · rfl
      · exact absurd hptr (hnew b hb)
  let s₁ := ((s₀.putFastEntry entryPoints (compiledBlock tr emAddress featureFlags p code)
    (fastLookupIndexForAddress entryPoints emAddress featureFlags)).modifyBlock p fun b =>
      { b with physicalAddresses := code.physicalAddresses }).addPhysicalAddresses p
        code.physicalAddresses
  refine ⟨s₁, ⟨?_, rfl, rfl, rfl, rfl, fun hs => ?_⟩, ?_⟩
  · exact mem_modifyBlock_new (mem_modifyBlock_new hs₀ hnew rfl) hnew rfl
  · have h₀ : s₀.DistinctPtrs := (hs.allocateBlock hp).modifyBlock fun _ => rfl
    have h₁ : (s₀.putFastEntry entryPoints (compiledBlock tr emAddress featureFlags p code)
        (fastLookupIndexForAddress entryPoints emAddress featureFlags)).DistinctPtrs :=
      h₀.putFastEntry
    exact h₁.modifyBlock (f := fun b => { b with physicalAddresses := code.physicalAddresses })
      fun _ => rfl
  · show (s₀.block? p).bind _ = _
    rw [hblock]
    rfl

end Compile

/-! ## Destruction -/

theorem dropFastEntry_eq (s : Cache) (entryPoints : Bool) (b : JitBlock) :
    s.dropFastEntry entryPoints b =
      { s with fastBlockMap := (s.dropFastEntry entryPoints b).fastBlockMap } := by
  unfold dropFastEntry
  split <;> rfl

theorem fastBlockMap_dropFastEntry {i : ℕ} :
    (s.dropFastEntry entryPoints b).fastBlockMap i =
      if i = b.fastBlockMapIndex ∧ s.fastBlockMap i = some (slot entryPoints b) then none
      else s.fastBlockMap i := by
  unfold dropFastEntry
  by_cases hi : i = b.fastBlockMapIndex
  · subst hi
    by_cases hslot : s.fastBlockMap b.fastBlockMapIndex = some (slot entryPoints b)
    · rw [if_pos hslot, if_pos ⟨rfl, hslot⟩]
      exact Function.update_self _ _ _
    · have hcond : ¬ (b.fastBlockMapIndex = b.fastBlockMapIndex ∧
          s.fastBlockMap b.fastBlockMapIndex = some (slot entryPoints b)) := fun h => hslot h.2
      rw [if_neg hslot, if_neg hcond]
  · have hcond : ¬ (i = b.fastBlockMapIndex ∧ s.fastBlockMap i = some (slot entryPoints b)) :=
      fun h => hi h.1
    rw [if_neg hcond]
    split
    · exact Function.update_of_ne hi _ _
    · rfl

/-- `s'` is `s` after the block has been destroyed and erased from the map of blocks, whatever has
become of the macro blocks. -/
structure Removed (entryPoints : Bool) (s : Cache) (block : JitBlock) (s' : Cache) : Prop where
  mem_blockMap : ∀ b, b ∈ s'.blockMap ↔
    ∃ b' ∈ s.blockMap, b'.ptr ≠ block.ptr ∧ s.unlinkSource block b' = b
  linksTo : s'.linksTo = (s.removeLinksTo block).linksTo
  validBlock : s'.validBlock = s.validBlock
  fastBlockMap : ∀ i, s'.fastBlockMap i =
    if i = block.fastBlockMapIndex ∧ s.fastBlockMap i = some (slot entryPoints block) then none
    else s.fastBlockMap i
  distinctPtrs : s.DistinctPtrs → s'.DistinctPtrs

variable (entryPoints) in
theorem destroyBlock_isSome :
    (s.destroyBlock entryPoints block).isSome ↔
      ∀ p ∈ s.linksTo block.effectiveAddress, ∃ b ∈ s.blockMap, b.ptr = p := by
  rw [destroyBlock, dropFastEntry_eq, Option.isSome_map, unlinkBlock, Option.isSome_map,
    sources_isSome]

theorem destroyBlock_blockRangeMap (h : s.destroyBlock entryPoints block = some s') :
    s'.blockRangeMap = s.blockRangeMap := by
  rw [destroyBlock, dropFastEntry_eq] at h
  obtain ⟨s₁, hunlink, rfl⟩ := Option.map_eq_some_iff.mp h
  obtain ⟨_, -, rfl⟩ := Option.map_eq_some_iff.mp hunlink
  rfl

/-- What the block in the map becomes when it is not erased. -/
theorem destroyBlock_block? (h : s.destroyBlock entryPoints block = some s') :
    ∃ g, (∀ b, Relinked b (g b)) ∧ ∀ p, s'.block? p = (s.block? p).map g := by
  rw [destroyBlock, dropFastEntry_eq] at h
  obtain ⟨s₁, hunlink, rfl⟩ := Option.map_eq_some_iff.mp h
  obtain ⟨_, -, rfl⟩ := Option.map_eq_some_iff.mp hunlink
  set f : JitBlock → JitBlock := fun b =>
    if b.ptr = block.ptr then
      { b with linkData := b.linkData.map fun e => { e with target := none } }
    else b with hf
  have hrelinked : ∀ b, Relinked b (f b) := by
    intro b
    simp only [hf]
    split
    · exact ⟨_, rfl, List.map_map⟩
    · exact Relinked.refl b
  refine ⟨fun b => s.unlinkSource block (f b),
    fun b => (hrelinked b).trans (relinked_unlinkSource block (f b)), fun p => ?_⟩
  have h₁ : (s.mapBlocks f).block? p = (s.block? p).map f :=
    block?_mapBlocks fun b => (hrelinked b).ptr
  have h₂ : ((s.mapBlocks f).mapBlocks (s.unlinkSource block)).block? p =
      ((s.mapBlocks f).block? p).map (s.unlinkSource block) :=
    block?_mapBlocks fun b => unlinkSource_ptr
  rw [h₁, Option.map_map] at h₂
  exact h₂

theorem destroyBlock_linksTo_subset (h : s.destroyBlock entryPoints block = some s') {x : ℕ}
    (hq : q ∈ s'.linksTo x) : q ∈ s.linksTo x := by
  rw [destroyBlock, dropFastEntry_eq] at h
  obtain ⟨s₁, hunlink, rfl⟩ := Option.map_eq_some_iff.mp h
  obtain ⟨_, -, rfl⟩ := Option.map_eq_some_iff.mp hunlink
  exact (mem_linksTo_removeLinksTo.mp hq).1

theorem destroyBlock_removed (h : s.destroyBlock entryPoints block = some s') :
    Removed entryPoints s block (s'.eraseFromBlockMap block.ptr) := by
  rw [destroyBlock, dropFastEntry_eq] at h
  obtain ⟨s₁, hunlink, rfl⟩ := Option.map_eq_some_iff.mp h
  obtain ⟨_, -, rfl⟩ := Option.map_eq_some_iff.mp hunlink
  refine ⟨fun b => ?_, rfl, rfl, fun i => fastBlockMap_dropFastEntry, fun hs => ?_⟩
  · rw [mem_eraseFromBlockMap]
    show b ∈ (((s.modifyBlock _ _).mapBlocks _).blockMap) ∧ _ ↔ _
    rw [mem_mapBlocks]
    constructor
    · rintro ⟨⟨b₁, hb₁, rfl⟩, hne⟩
      obtain ⟨b', hb', rfl⟩ := mem_mapBlocks.mp hb₁
      rw [unlinkSource_ptr] at hne
      by_cases hptr : b'.ptr = block.ptr
      · rw [if_pos hptr] at hne
        exact absurd hptr hne
      · rw [if_neg hptr]
        exact ⟨b', hb', hptr, rfl⟩
    · rintro ⟨b', hb', hne, rfl⟩
      refine ⟨⟨b', mem_mapBlocks.mpr ⟨b', hb', if_neg hne⟩, rfl⟩, ?_⟩
      rwa [unlinkSource_ptr]
  · refine DistinctPtrs.eraseFromBlockMap (DistinctPtrs.mapBlocks (DistinctPtrs.mapBlocks hs ?_) ?_)
    · intro b
      split <;> rfl
    · intro b
      exact unlinkSource_ptr

theorem destroyBlock_fastBlockMap (h : s.destroyBlock entryPoints block = some s') (i : ℕ) :
    s'.fastBlockMap i =
      if i = block.fastBlockMapIndex ∧ s.fastBlockMap i = some (slot entryPoints block) then none
      else s.fastBlockMap i :=
  (destroyBlock_removed h).fastBlockMap i

theorem eraseMacroBlocks_succ {H : HashOrder} {address length fuel : ℕ} {last start : Option ℕ} :
    eraseMacroBlocks entryPoints H address length last (fuel + 1) s start =
      if start = last then some s
      else start.bind fun key =>
        (s.eraseMacroBlock entryPoints H address length key).bind fun s =>
          eraseMacroBlocks entryPoints H address length last fuel s (s.blockRangeMap.next key) := by
  cases start <;> rfl

end Cache

end JitCache
