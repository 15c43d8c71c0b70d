import PrimedSteam.Memcard.Chains

/-!
# The directory and the BAT agree

* `Agree`: the blocks of the files are linked and in one file each, and the other blocks are free.
* `Agree.import`, `Agree.remove`: what an import and a removal do to it.
* `Agree.checkForErrorsWithBat`: the check of the directory against the BAT finds no error.
-/

set_option autoImplicit false

namespace GCMemcard

open Memcard (mcFstBlocks)
open Successors BlockAlloc

/-- A removal of the entry fails: its blocks are not a chain of the length that it tells. -/
def Removed (size : ℕ) (e : DEntry) : Prop :=
  ¬e.Used ∧ (e.firstBlock.toNat = noBlock ∧ e.blockCount.toNat ≠ 0 ∨
    e.blockCount.toNat = 0 ∧ mcFstBlocks ≤ e.firstBlock.toNat ∧ e.firstBlock.toNat < size)

/-- The blocks of the file of `e` are `l`. -/
def IsFile (bat : BlockAlloc) (e : DEntry) (l : List ℕ) : Prop :=
  l ≠ [] ∧ l.length = e.blockCount.toNat ∧ Linked bat.getNextBlock e.firstBlock.toNat l noBlock

/-- The files of a directory have the blocks `chain` of a card of `size` blocks. -/
structure Agree (size : ℕ) (entries : Fin dirLen → DEntry) (bat : BlockAlloc)
    (chain : Fin dirLen → List ℕ) : Prop where
  file : ∀ i, (entries i).Used → IsFile bat (entries i) (chain i)
  removed : ∀ i, ¬(entries i).Used → Removed size (entries i) ∧ chain i = []
  bounds : ∀ i, ∀ block ∈ chain i, mcFstBlocks ≤ block ∧ block < size
  nodup : ∀ i, (chain i).Nodup
  disjoint : ∀ i j, i ≠ j → (chain i).Disjoint (chain j)
  used : ∀ block, bat.map block ≠ 0 ↔ ∃ i, block ∈ chain i
  freeBlocks : bat.freeBlocks.toNat = (bat.free size).card
  last : bat.lastAllocatedBlock.toNat < size

variable {size : ℕ} {entries : Fin dirLen → DEntry} {bat bat' : BlockAlloc}
  {chain : Fin dirLen → List ℕ}

theorem removed_erased : Removed size .erased :=
  ⟨fun h => h rfl, .inl ⟨rfl, by decide⟩⟩

theorem megabits_bounds : ∀ megabits ∈ validMegabits, 4 ≤ megabits ∧ megabits ≤ 128 := by decide

theorem toNat_mbitToFreeBlocks {sizeMbits : Word} (hsize : sizeMbits.toNat ∈ validMegabits) :
    (mbitToFreeBlocks sizeMbits).toNat = sizeMbits.toNat * mbitToBlocks - mcFstBlocks := by
  have hbounds := megabits_bounds _ hsize
  unfold mbitToFreeBlocks mbitToBlocks mcFstBlocks Memcard.blockSize
  bv_omega

theorem agree_formatted {sizeMbits : Word} (hsize : sizeMbits.toNat ∈ validMegabits) :
    Agree (sizeMbits.toNat * mbitToBlocks) (fun _ => .erased) (.formatted sizeMbits) fun _ => [] := by
  have hbounds := megabits_bounds _ hsize
  have hblocks : mbitToBlocks = 16 := rfl
  have hfst : mcFstBlocks = 5 := rfl
  rw [hblocks]
  constructor
  case file => exact fun i h => absurd rfl h
  case removed => exact fun i _ => ⟨removed_erased, rfl⟩
  case bounds => simp
  case nodup => simp
  case disjoint => simp
  case used => simp [BlockAlloc.formatted, BlockAlloc.fixChecksums]
  case freeBlocks =>
    have hfree : (BlockAlloc.formatted sizeMbits).free (sizeMbits.toNat * 16) =
        Finset.Ico mcFstBlocks (sizeMbits.toNat * 16) :=
      Finset.filter_true_of_mem fun _ _ => rfl
    have hcount : (BlockAlloc.formatted sizeMbits).freeBlocks =
        (mbitToFreeBlocks sizeMbits).setWidth 16 := rfl
    rw [hfree, Nat.card_Ico, hcount, BitVec.toNat_setWidth, toNat_mbitToFreeBlocks hsize, hblocks]
    omega
  case last =>
    have hlast : (BlockAlloc.formatted sizeMbits).lastAllocatedBlock.toNat = 4 := rfl
    omega

namespace Agree

theorem size_bound (h : Agree size entries bat chain) {i : Fin dirLen} {block : ℕ}
    (hsize : size ≤ 4091) (hblock : block ∈ chain i) :
    ¬(block = noBlock ∨ block = 0) := by
  have hb := h.bounds i block hblock
  unfold noBlock mcFstBlocks at *
  omega

/-- Only the map, the count of the free blocks and the last block matter. -/
theorem congr (h : Agree size entries bat chain) (hmap : bat'.map = bat.map)
    (hfree : bat'.freeBlocks = bat.freeBlocks)
    (hlast : bat'.lastAllocatedBlock = bat.lastAllocatedBlock) :
    Agree size entries bat' chain where
  file i hi :=
    have ⟨hne, hlength, hlinked⟩ := h.file i hi
    ⟨hne, hlength, hlinked.congr fun _ _ => getNextBlock_congr (congrFun hmap _)⟩
  removed := h.removed
  bounds := h.bounds
  nodup := h.nodup
  disjoint := h.disjoint
  used block := by rw [hmap]; exact h.used block
  freeBlocks := by rw [hfree, h.freeBlocks, free_congr hmap]
  last := by rw [hlast]; exact h.last

theorem used_of_mem (h : Agree size entries bat chain) {i : Fin dirLen} {block : ℕ}
    (hblock : block ∈ chain i) : bat.map block ≠ 0 :=
  (h.used block).mpr ⟨i, hblock⟩

/-! ## An import -/

theorem not_mem_allocated (h : Agree size entries bat chain) {i : Fin dirLen} {first block : ℕ}
    {l : List ℕ} (hbat : Allocated size bat first l bat') (hblock : block ∈ chain i) : block ∉ l :=
  fun hl => h.used_of_mem hblock (mem_free.mp (hbat.free block hl)).2

end Agree

theorem Allocated.card_free {first : ℕ} {l : List ℕ} (h : Allocated size bat first l bat') :
    (bat'.free size).card = (bat.free size).card - l.length := by
  have hfree : bat'.free size = bat.free size \ l.toFinset := by
    ext block
    rw [Finset.mem_sdiff, List.mem_toFinset, mem_free, mem_free]
    by_cases hl : block ∈ l
    · exact iff_of_false (fun hfree => h.used block hl hfree.2) fun hdiff => hdiff.2 hl
    · simp [hl, h.frame block hl]
  have hsub : l.toFinset ⊆ bat.free size := fun block hblock =>
    h.free block (List.mem_toFinset.mp hblock)
  rw [hfree, Finset.card_sdiff_of_subset hsub, List.toFinset_card_of_nodup h.nodup]

namespace Agree

/-- **An import of a file** puts the free blocks `l` in its chain. -/
theorem add (h : Agree size entries bat chain) {i : Fin dirLen} {e : DEntry} {l : List ℕ}
    (hi : ¬(entries i).Used) (hused : e.Used) (hl : l ≠ [])
    (hlength : l.length = e.blockCount.toNat)
    (hbat : Allocated size bat e.firstBlock.toNat l bat')
    (hfree : e.blockCount.toNat ≤ bat.freeBlocks.toNat) :
    Agree size (Function.update entries i e)
      { bat' with freeBlocks := bat'.freeBlocks - e.blockCount } (Function.update chain i l) := by
  have hnil : chain i = [] := (h.removed i hi).2
  constructor
  case file =>
    intro j hj
    by_cases hji : j = i
    · subst hji
      simp only [Function.update_self]
      exact ⟨hl, hlength, hbat.linked.congr fun _ _ => rfl⟩
    · simp only [Function.update_of_ne hji] at hj ⊢
      have ⟨hne, hlen, hlinked⟩ := h.file j hj
      exact ⟨hne, hlen, hlinked.congr fun block hblock =>
        getNextBlock_congr (hbat.frame block (h.not_mem_allocated hbat hblock))⟩
  case removed =>
    intro j hj
    by_cases hji : j = i
    · subst hji
      rw [Function.update_self] at hj
      exact absurd hused hj
    · simp only [Function.update_of_ne hji] at hj ⊢
      exact h.removed j hj
  case bounds =>
    intro j block hblock
    by_cases hji : j = i
    · subst hji
      rw [Function.update_self] at hblock
      exact (mem_free.mp (hbat.free block hblock)).1
    · rw [Function.update_of_ne hji] at hblock
      exact h.bounds j block hblock
  case nodup =>
    intro j
    by_cases hji : j = i
    · subst hji
      rw [Function.update_self]
      exact hbat.nodup
    · rw [Function.update_of_ne hji]
      exact h.nodup j
  case disjoint =>
    intro j k hjk
    by_cases hji : j = i
    · subst hji
      rw [Function.update_self, Function.update_of_ne (Ne.symm hjk)]
      exact fun block hblock hk => h.not_mem_allocated hbat hk hblock
    · rw [Function.update_of_ne hji]
      by_cases hki : k = i
      · subst hki
        rw [Function.update_self]
        exact fun block hblock hk => h.not_mem_allocated hbat hblock hk
      · rw [Function.update_of_ne hki]
        exact h.disjoint j k hjk
  case used =>
    intro block
    by_cases hblock : block ∈ l
    · exact ⟨fun _ => ⟨i, by rwa [Function.update_self]⟩, fun _ => hbat.used block hblock⟩
    · change bat'.map block ≠ 0 ↔ _
      rw [hbat.frame block hblock, h.used block]
      refine exists_congr fun j => ?_
      by_cases hji : j = i
      · subst hji
        rw [Function.update_self, hnil]
        simp [hblock]
      · rw [Function.update_of_ne hji]
  case freeBlocks =>
    have hcard := hbat.card_free
    rw [← h.freeBlocks] at hcard
    change (bat'.freeBlocks - e.blockCount).toNat = (bat'.free size).card
    rw [hcard, hlength, hbat.freeBlocks, BitVec.toNat_sub_of_le (by bv_omega)]
  case last => exact hbat.last

theorem add_empty (h : Agree size entries bat chain) {i : Fin dirLen} {e : DEntry}
    (hi : ¬(entries i).Used) (he : Removed size e) :
    Agree size (Function.update entries i e) bat chain where
  file j hj := by
    by_cases hji : j = i
    · subst hji
      rw [Function.update_self] at hj
      exact absurd hj he.1
    · simp only [Function.update_of_ne hji] at hj ⊢
      exact h.file j hj
  removed j hj := by
    by_cases hji : j = i
    · subst hji
      rw [Function.update_self]
      exact ⟨he, (h.removed j hi).2⟩
    · simp only [Function.update_of_ne hji] at hj ⊢
      exact h.removed j hj
  bounds := h.bounds
  nodup := h.nodup
  disjoint := h.disjoint
  used := h.used
  freeBlocks := h.freeBlocks
  last := h.last

/-! ## A removal -/

theorem length_chain_le (h : Agree size entries bat chain) (i : Fin dirLen) (hsize : size ≤ 4091) :
    (chain i).length ≤ batSize + 1 := by
  have hsub : (chain i).toFinset ⊆ Finset.Ico mcFstBlocks size := fun block hblock =>
    Finset.mem_Ico.mpr (h.bounds i block (List.mem_toFinset.mp hblock))
  have hcard := Finset.card_le_card hsub
  rw [List.toFinset_card_of_nodup (h.nodup i), Nat.card_Ico] at hcard
  unfold batSize
  omega

/-- The blocks of a file that come from one of them are read from the BAT. -/
theorem chain_suffix (h : Agree size entries bat chain) {i : Fin dirLen} (hsize : size ≤ 4091)
    {first : ℕ} {l : List ℕ} (hl : l <:+ chain i)
    (hlinked : Linked bat.getNextBlock first l noBlock) :
    bat.chain first = some (l, noBlock) :=
  walk_of_linked hlinked (.inl rfl) (fun _ hb => h.size_bound hsize (hl.subset hb))
    (hl.length_le.trans (h.length_chain_le i hsize))

/-- The BAT without the blocks `l`. -/
def cleared (bat : BlockAlloc) (l : List ℕ) : BlockAlloc :=
  { bat with
    map := fun block => if block ∈ l then 0 else bat.map block
    freeBlocks := bat.freeBlocks + BitVec.ofNat 16 l.length }

theorem cleared_map {l : List ℕ} {block : ℕ} (h : block ∉ l) :
    (cleared bat l).map block = bat.map block := by
  simp [cleared, h]

theorem card_free_cleared (h : Agree size entries bat chain) (i : Fin dirLen) :
    ((cleared bat (chain i)).free size).card = (bat.free size).card + (chain i).length := by
  have hfree : (cleared bat (chain i)).free size = bat.free size ∪ (chain i).toFinset := by
    ext block
    rw [Finset.mem_union, List.mem_toFinset, mem_free, mem_free]
    by_cases hblock : block ∈ chain i
    · have hmap : (cleared bat (chain i)).map block = 0 := by simp [cleared, hblock]
      exact iff_of_true ⟨h.bounds i block hblock, hmap⟩ (.inr hblock)
    · simp [hblock, cleared_map hblock]
  have hdisjoint : Disjoint (bat.free size) (chain i).toFinset := by
    refine Finset.disjoint_left.mpr fun block hblock hmem => ?_
    exact h.used_of_mem (List.mem_toFinset.mp hmem) (mem_free.mp hblock).2
  rw [hfree, Finset.card_union_of_disjoint hdisjoint, List.toFinset_card_of_nodup (h.nodup i)]

theorem card_free_le : (bat.free size).card ≤ size := by
  have hle := Finset.card_filter_le (Finset.Ico mcFstBlocks size) fun i => bat.map i = 0
  rw [Nat.card_Ico] at hle
  exact hle.trans (Nat.sub_le size mcFstBlocks)

/-- **A removal of a file** gives its blocks back. -/
theorem remove (h : Agree size entries bat chain) {i : Fin dirLen} (hi : (entries i).Used)
    (hsize : size ≤ 4091) :
    Agree size (Function.update entries i .erased) (cleared bat (chain i))
      (Function.update chain i []) := by
  constructor
  case file =>
    intro j hj
    by_cases hji : j = i
    · subst hji
      rw [Function.update_self] at hj
      exact absurd rfl hj
    · simp only [Function.update_of_ne hji] at hj ⊢
      have ⟨hne, hlen, hlinked⟩ := h.file j hj
      exact ⟨hne, hlen, hlinked.congr fun block hblock =>
        getNextBlock_congr (cleared_map (h.disjoint j i hji hblock))⟩
  case removed =>
    intro j hj
    by_cases hji : j = i
    · subst hji
      simp only [Function.update_self]
      exact ⟨removed_erased, trivial⟩
    · simp only [Function.update_of_ne hji] at hj ⊢
      exact h.removed j hj
  case bounds =>
    intro j block hblock
    by_cases hji : j = i
    · simp [hji] at hblock
    · rw [Function.update_of_ne hji] at hblock
      exact h.bounds j block hblock
  case nodup =>
    intro j
    by_cases hji : j = i
    · simp [hji]
    · rw [Function.update_of_ne hji]
      exact h.nodup j
  case disjoint =>
    intro j k hjk
    by_cases hji : j = i
    · simp [hji]
    · by_cases hki : k = i
      · simp [hki]
      · rw [Function.update_of_ne hji, Function.update_of_ne hki]
        exact h.disjoint j k hjk
  case used =>
    intro block
    by_cases hblock : block ∈ chain i
    · refine iff_of_false (by simp [cleared, hblock]) ?_
      rintro ⟨j, hj⟩
      by_cases hji : j = i
      · simp [hji] at hj
      · rw [Function.update_of_ne hji] at hj
        exact h.disjoint j i hji hj hblock
    · rw [cleared_map hblock, h.used block]
      refine exists_congr fun j => ?_
      by_cases hji : j = i
      · simp [hji, hblock]
      · rw [Function.update_of_ne hji]
  case freeBlocks =>
    have hcard := h.card_free_cleared i
    have hle : ((cleared bat (chain i)).free size).card ≤ size := card_free_le
    rw [hcard, ← h.freeBlocks] at hle
    rw [hcard, ← h.freeBlocks]
    simp only [cleared, BitVec.toNat_add, BitVec.toNat_ofNat]
    omega
  case last => exact h.last

theorem clearBlocks_used (h : Agree size entries bat chain) {i : Fin dirLen}
    (hi : (entries i).Used) (hsize : size ≤ 4091) :
    bat.clearBlocks (entries i).firstBlock.toNat (entries i).blockCount.toNat =
      some (true, cleared bat (chain i)) := by
  have hlength := (h.file i hi).2.1
  have hpos : noBlock > 0 := by decide
  have hchain := h.chain_suffix hsize List.suffix_rfl (h.file i hi).2.2
  simp only [clearBlocks, hchain, Option.map_some, if_pos hpos, hlength, ne_eq,
    not_true, if_false, cleared]

theorem clearBlocks_removed (h : Agree size entries bat chain) {i : Fin dirLen}
    (hi : ¬(entries i).Used) (hsize : size ≤ 4091) :
    bat.clearBlocks (entries i).firstBlock.toNat (entries i).blockCount.toNat =
      some (false, bat) := by
  generalize hfirst : (entries i).firstBlock.toNat = first
  have hremoved := (h.removed i hi).1.2
  rw [hfirst] at hremoved
  rcases hremoved with ⟨rfl, hcount⟩ | ⟨hcount, hfst, hlt⟩
  · -- the search stops at once
    have hchain : bat.chain noBlock = some ([], noBlock) := walk_stop (.inl rfl)
    simp [clearBlocks, hchain, Ne.symm hcount]
  · have hstop : ¬(first = noBlock ∨ first = 0) := by
      unfold noBlock mcFstBlocks at *
      omega
    rw [hcount]
    by_cases hmap : bat.map first = 0
    · -- the block is free
      have hnext : bat.getNextBlock first = 0 := by rw [getNextBlock_eq hfst (by omega), hmap]; rfl
      have hchain : bat.chain first = some ([first], 0) :=
        walk_of_linked ⟨rfl, hnext⟩ (.inr rfl) (by simpa using hstop)
          (Nat.le_add_left 1 batSize)
      simp [clearBlocks, hchain]
    · -- the block is in a file
      obtain ⟨j, hj⟩ := (h.used first).mp hmap
      have hused : (entries j).Used := by
        by_contra hj'
        rw [(h.removed j hj').2] at hj
        cases hj
      obtain ⟨l, hsuffix, hne, hl⟩ := (h.file j hused).2.2.suffix hj
      have hchain := h.chain_suffix hsize hsuffix hl
      simp [clearBlocks, hchain, hne]

/-! ## The checks -/

theorem batBlockCountMatches_of_linked {a : ℕ} {l : List ℕ}
    (h : Linked bat.getNextBlock a l noBlock) (hne : l ≠ [])
    (hl : ∀ block ∈ l, ¬(block = noBlock ∨ block = 0)) :
    Directory.batBlockCountMatches bat l.length a = true := by
  induction l generalizing a with
  | nil => exact absurd rfl hne
  | cons b l ih =>
    obtain ⟨rfl, h⟩ := h
    cases l with
    | nil =>
      have hnext : bat.getNextBlock a = noBlock := h
      have hzero : noBlock ≠ 0 := by decide
      simp [Directory.batBlockCountMatches, hnext, hzero]
    | cons c l =>
      have hnext : bat.getNextBlock a = c := h.1
      have hc := hl c (List.mem_cons_of_mem a List.mem_cons_self)
      rw [not_or] at hc
      rw [List.length_cons, Directory.batBlockCountMatches]
      simp only [hnext, hc.1, hc.2, if_false]
      exact ih (hnext ▸ h) (List.cons_ne_nil c l) fun block hb => hl block (List.mem_cons_of_mem a hb)

/-- **The directory and the BAT pass the check.** -/
theorem checkForErrorsWithBat (h : Agree size entries bat chain) (hsize : size ≤ 4091)
    {d : Directory} (hd : d.dirEntries = entries) : d.checkForErrorsWithBat bat = ∅ := by
  rw [Directory.checkForErrorsWithBat, issue, if_neg]
  rintro ⟨i, hi, hmatches⟩
  rw [hd] at hi hmatches
  have ⟨hne, hlength, hlinked⟩ := h.file i hi
  rw [← hlength, batBlockCountMatches_of_linked hlinked hne fun _ hb => h.size_bound hsize hb]
    at hmatches
  cases hmatches

end Agree

end GCMemcard
