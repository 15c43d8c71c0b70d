import PrimedSteam.Memcard.GCMemcard
import Mathlib.Order.Interval.Finset.Nat

/-!
# Chains of blocks

A directory and a BAT agree on a card of `size` blocks (`Agree`): the blocks of each file are linked,
no block is in two files, and the other blocks are free. An import takes free blocks
(`writeBlocks_allocated`) and a removal gives the blocks of one file back.
-/

set_option autoImplicit false

namespace GCMemcard

open Memcard (GCMBlock mcFstBlocks)
open Successors

theorem countP_range' (p : ℕ → Prop) [DecidablePred p] (s n : ℕ) :
    (List.range' s n).countP (fun i => p i) = ((Finset.Ico s (s + n)).filter p).card := by
  have hval : (Finset.Ico s (s + n)).val = (List.range' s n : Multiset ℕ) := by
    change ((List.range' s (s + n - s) : List ℕ) : Multiset ℕ) = _
    rw [Nat.add_sub_cancel_left]
  rw [Finset.card_def, Finset.filter_val, hval, Multiset.filter_coe, Multiset.coe_card,
    List.countP_eq_length_filter]

/-! ## Free blocks -/

namespace BlockAlloc

/-- The blocks of a card of `size` blocks that no file uses. -/
def free (b : BlockAlloc) (size : ℕ) : Finset ℕ :=
  (Finset.Ico mcFstBlocks size).filter fun i => b.map i = 0

variable {b : BlockAlloc} {size start block : ℕ}

theorem mem_free : block ∈ b.free size ↔ (mcFstBlocks ≤ block ∧ block < size) ∧ b.map block = 0 := by
  simp [free]

theorem free_congr {b' : BlockAlloc} (h : b'.map = b.map) : b'.free size = b.free size := by
  simp only [free, h]

/-- The two ranges that are searched hold the blocks of the card and no others. -/
theorem mem_searched (hstart : start ≤ size) (hfst : mcFstBlocks ≤ size)
    (hsize : size ≤ batSize + mcFstBlocks) :
    block ∈ searched size start ↔ mcFstBlocks ≤ block ∧ block < size := by
  simp only [searched, List.mem_append, List.mem_range'_1]
  omega

theorem nextFreeBlock_mem (hstart : start ≤ size) (hfst : mcFstBlocks ≤ size)
    (hsize : size ≤ batSize + mcFstBlocks) (h : b.nextFreeBlock size start ≠ noBlock) :
    b.nextFreeBlock size start ∈ b.free size := by
  simp only [nextFreeBlock] at h ⊢
  split at h
  next hfree =>
    rw [if_pos hfree]
    cases hfind : (searched size start).find? fun i => b.map i = 0 with
    | none =>
      rw [hfind] at h
      exact absurd rfl h
    | some i =>
      have hmem := List.mem_of_find?_eq_some hfind
      have hzero := List.find?_some hfind
      rw [Option.getD_some, mem_free]
      exact ⟨(mem_searched hstart hfst hsize).mp hmem, by simpa using hzero⟩
  next => exact absurd rfl h

theorem nextFreeBlock_ne (hstart : start ≤ size) (hfst : mcFstBlocks ≤ size)
    (hsize : size ≤ batSize + mcFstBlocks) (hfree : 0 < b.freeBlocks.toNat)
    (hne : (b.free size).Nonempty) : b.nextFreeBlock size start ≠ noBlock := by
  obtain ⟨block, hblock⟩ := hne
  have hblock := mem_free.mp hblock
  have hmem := (mem_searched hstart hfst hsize).mpr hblock.1
  simp only [nextFreeBlock, if_pos hfree]
  cases hfind : (searched size start).find? fun i => b.map i = 0 with
  | none => exact absurd hblock.2 (by simpa using List.find?_eq_none.mp hfind block hmem)
  | some i =>
    have hi := (mem_searched hstart hfst hsize).mp (List.mem_of_find?_eq_some hfind)
    simp only [Option.getD_some, noBlock]
    unfold batSize mcFstBlocks at *
    omega

theorem searched_succ (hfst : mcFstBlocks ≤ start) (hstart : start < size)
    (hsize : size ≤ batSize + mcFstBlocks) :
    ∃ l, searched size (start + 1) = l ++ [start] ∧ start ∉ l := by
  refine ⟨List.range' (start + 1) (size - (start + 1)) ++
    List.range' mcFstBlocks (start - mcFstBlocks), ?_, ?_⟩
  · have hclamp : max mcFstBlocks (min (start + 1) (batSize + mcFstBlocks)) = start + 1 := by omega
    have hstop : max mcFstBlocks (min size (batSize + mcFstBlocks)) = size := by omega
    have hlen : start + 1 - mcFstBlocks = start - mcFstBlocks + 1 := by omega
    have hlast : mcFstBlocks + (start - mcFstBlocks) = start := by omega
    simp only [searched, hclamp, hstop, hlen, List.range'_1_concat, hlast, List.append_assoc]
  · simp only [List.mem_append, List.mem_range'_1]
    omega

theorem nextFreeBlock_succ_mem (hstart : start ∈ b.free size) (hsize : size ≤ batSize + mcFstBlocks)
    (hfree : 0 < b.freeBlocks.toNat) (hcount : 1 < (b.free size).card) :
    b.nextFreeBlock size (start + 1) ∈ (b.free size).erase start := by
  have hrange := (mem_free.mp hstart).1
  have hmem : b.nextFreeBlock size (start + 1) ∈ b.free size :=
    nextFreeBlock_mem (by omega) (by omega) hsize
      (nextFreeBlock_ne (by omega) (by omega) hsize hfree ⟨start, hstart⟩)
  refine Finset.mem_erase.mpr ⟨?_, hmem⟩
  obtain ⟨other, hother, hne⟩ := Finset.exists_mem_ne hcount start
  have hother := mem_free.mp hother
  obtain ⟨l, hl, hnot⟩ := searched_succ hrange.1 hrange.2 hsize
  have hin : other ∈ l := by
    have hsearched : other ∈ searched size (start + 1) :=
      (mem_searched (by omega) (by omega) hsize).mpr hother.1
    rw [hl, List.mem_append, List.mem_singleton] at hsearched
    exact hsearched.resolve_right hne
  simp only [nextFreeBlock, if_pos hfree, hl, List.find?_append]
  cases hfind : l.find? fun i => b.map i = 0 with
  | none => exact absurd hother.2 (by simpa using List.find?_eq_none.mp hfind other hin)
  | some i => exact fun heq => hnot (heq ▸ List.mem_of_find?_eq_some hfind)

end BlockAlloc

/-! ## The blocks of an imported file -/

/-- The blocks `l` from `first` on are linked in `bat'`; they are free in `bat`. -/
structure Allocated (size : ℕ) (bat : BlockAlloc) (first : ℕ) (l : List ℕ) (bat' : BlockAlloc) :
    Prop where
  linked : Linked bat'.getNextBlock first l noBlock
  nodup : l.Nodup
  free : ∀ block ∈ l, block ∈ bat.free size
  used : ∀ block ∈ l, bat'.map block ≠ 0
  frame : ∀ block ∉ l, bat'.map block = bat.map block
  freeBlocks : bat'.freeBlocks = bat.freeBlocks
  updateCounter : bat'.updateCounter = bat.updateCounter
  last : bat'.lastAllocatedBlock.toNat < size

namespace BlockAlloc

variable {b : BlockAlloc} {size first next block : ℕ}

@[simp] theorem link_map_self : (b.link first next).map first = BitVec.ofNat 16 next := by
  simp [link]

theorem link_map_of_ne (h : block ≠ first) : (b.link first next).map block = b.map block := by
  simp [link, h]

theorem free_link (hnext : 0 < next) (hbound : next < 2 ^ 16) :
    (b.link first next).free size = (b.free size).erase first := by
  ext block
  rw [Finset.mem_erase, mem_free, mem_free]
  by_cases h : block = first
  · subst h
    have hne : ¬BitVec.ofNat 16 next = 0#16 := by bv_omega
    simp [hne]
  · simp [h, link_map_of_ne h]

theorem getNextBlock_eq (hfst : mcFstBlocks ≤ block) (hblock : block ≤ 4091) :
    b.getNextBlock block = (b.map block).toNat := by
  rw [getNextBlock, if_neg (by omega)]

theorem getNextBlock_congr {b' : BlockAlloc} (h : b'.map block = b.map block) :
    b'.getNextBlock block = b.getNextBlock block := by
  simp only [getNextBlock, h]

end BlockAlloc

open BlockAlloc

theorem Allocated.cons {size first next : ℕ} {bat bat' : BlockAlloc} {l : List ℕ}
    (hfirst : first ∈ bat.free size) (hsize : size ≤ 4091) (hnext : 0 < next)
    (hbound : next < 2 ^ 16) (h : Allocated size (bat.link first next) next l bat') :
    Allocated size bat first (first :: l) bat' := by
  have hfree : ∀ block ∈ l, block ≠ first ∧ block ∈ bat.free size := by
    intro block hblock
    rw [← Finset.mem_erase, ← free_link hnext hbound]
    exact h.free block hblock
  have hnot : first ∉ l := fun hmem => (hfree first hmem).1 rfl
  have hmap : bat'.map first = BitVec.ofNat 16 next := by rw [h.frame first hnot, link_map_self]
  have hrange := (mem_free.mp hfirst).1
  constructor
  case linked =>
    refine ⟨rfl, ?_⟩
    rw [getNextBlock_eq hrange.1 (by omega), hmap, BitVec.toNat_ofNat, Nat.mod_eq_of_lt hbound]
    exact h.linked
  case nodup => exact List.nodup_cons.mpr ⟨hnot, h.nodup⟩
  case free => exact List.forall_mem_cons.mpr ⟨hfirst, fun block hb => (hfree block hb).2⟩
  case used =>
    refine List.forall_mem_cons.mpr ⟨?_, h.used⟩
    rw [hmap]
    bv_omega
  case frame =>
    intro block hblock
    have hne : block ≠ first := fun heq => hblock (heq ▸ List.mem_cons_self)
    have hmem : block ∉ l := fun hmem => hblock (List.mem_cons_of_mem first hmem)
    rw [h.frame block hmem, link_map_of_ne hne]
  case freeBlocks => exact h.freeBlocks
  case updateCounter => exact h.updateCounter
  case last => exact h.last

/-- One iteration: the block is linked to the one that is found, or ends the chain. -/
theorem writeBlocks_succ {size n first : ℕ} {block : GCMBlock} {blocks data : List GCMBlock}
    {bat : BlockAlloc} (hrange : Card.InRange data first) (hsize : size < 2 ^ 16)
    (hfirst : first + 1 < 2 ^ 16) :
    Card.writeBlocks size (n + 1) (block :: blocks) first (bat, data) =
      Card.writeBlocks size n blocks (if n = 0 then noBlock else bat.nextFreeBlock size (first + 1))
        (bat.link first (if n = 0 then noBlock else bat.nextFreeBlock size (first + 1)),
          data.set (first - mcFstBlocks) block) := by
  rw [Card.writeBlocks, if_pos hrange, Nat.mod_eq_of_lt hsize, Nat.mod_eq_of_lt hfirst]

/-- The blocks of a file are in the places `l` of the data, and the other places are kept. -/
structure Stored (l : List ℕ) (blocks data data' : List GCMBlock) : Prop where
  length : data'.length = data.length
  stored : l.map (fun block => data'[block - mcFstBlocks]?) = (blocks.take l.length).map some
  frame : ∀ block, mcFstBlocks ≤ block → block ∉ l →
    data'[block - mcFstBlocks]? = data[block - mcFstBlocks]?

/-- The first block of a file is stored before the others, in another place. -/
theorem Stored.cons {first : ℕ} {l : List ℕ} {block : GCMBlock} {blocks data data' : List GCMBlock}
    (hfirst : mcFstBlocks ≤ first) (hin : first - mcFstBlocks < data.length) (hnot : first ∉ l)
    (h : Stored l blocks (data.set (first - mcFstBlocks) block) data') :
    Stored (first :: l) (block :: blocks) data data' := by
  have hself : data'[first - mcFstBlocks]? = some block := by
    rw [h.frame first hfirst hnot, List.getElem?_set_self hin]
  constructor
  case length => rw [h.length, List.length_set]
  case stored => rw [List.map_cons, List.length_cons, List.take_succ_cons, List.map_cons, hself, h.stored]
  case frame =>
    intro other hother hmem
    rw [List.mem_cons, not_or] at hmem
    rw [h.frame other hother hmem.2, List.getElem?_set_ne (by omega)]

theorem stored_nil (blocks data : List GCMBlock) : Stored [] blocks data data :=
  ⟨rfl, rfl, fun _ _ _ => rfl⟩

/-- **The loop of an import links free blocks** and does not leave the card. -/
theorem writeBlocks_allocated {size : ℕ} (hsize : size ≤ 4091) {n first : ℕ}
    {blocks data : List GCMBlock} {bat : BlockAlloc} (hblocks : n < blocks.length)
    (hdata : data.length = size - mcFstBlocks) (hfirst : first ∈ bat.free size)
    (hcount : n < (bat.free size).card) (hfree : 0 < bat.freeBlocks.toNat) :
    ∃ l bat' data', Card.writeBlocks size (n + 1) blocks first (bat, data) = some (bat', data') ∧
      Allocated size bat first l bat' ∧ l.length = n + 1 ∧ Stored l blocks data data' := by
  induction n generalizing blocks first bat data with
  | zero =>
    obtain ⟨block, blocks, rfl⟩ := List.exists_cons_of_length_pos hblocks
    have hbounds := (mem_free.mp hfirst).1
    have hrange : Card.InRange data first := ⟨hbounds.1, by omega, by unfold batSize; omega⟩
    have hend : Allocated size (bat.link first noBlock) noBlock [] (bat.link first noBlock) := by
      refine ⟨rfl, List.nodup_nil, by simp, by simp, fun _ _ => rfl, rfl, rfl, ?_⟩
      simp only [link, BitVec.toNat_ofNat]
      omega
    refine ⟨[first], bat.link first noBlock, data.set (first - mcFstBlocks) block, ?_, ?_, rfl, ?_⟩
    · rw [writeBlocks_succ hrange (by omega) (by omega)]
      rfl
    · exact hend.cons hfirst hsize (by decide) (by decide)
    · exact (stored_nil blocks _).cons hbounds.1 hrange.2.1 List.not_mem_nil
  | succ n ih =>
    obtain ⟨block, blocks, rfl⟩ := List.exists_cons_of_length_pos (Nat.zero_lt_of_lt hblocks)
    have hbounds := (mem_free.mp hfirst).1
    have hrange : Card.InRange data first := ⟨hbounds.1, by omega, by unfold batSize; omega⟩
    have hnext := nextFreeBlock_succ_mem hfirst (by unfold batSize; omega) hfree (by omega)
    have hnextBounds := (mem_free.mp (Finset.mem_of_mem_erase hnext)).1
    generalize hn : bat.nextFreeBlock size (first + 1) = next at hnext hnextBounds
    have hpos : 0 < next := Nat.lt_of_lt_of_le (by decide) hnextBounds.1
    have herase : (bat.link first next).free size = (bat.free size).erase first :=
      free_link hpos (by omega)
    have hrest : n < blocks.length := by simpa using hblocks
    have hset : (data.set (first - mcFstBlocks) block).length = size - mcFstBlocks := by
      rw [List.length_set, hdata]
    have hcard : n < ((bat.link first next).free size).card := by
      rw [herase, Finset.card_erase_of_mem hfirst]
      omega
    obtain ⟨l, bat', data', heq, hallocated, hlength, hstored⟩ :=
      ih hrest hset (herase ▸ hnext) hcard hfree
    have hnot : first ∉ l := fun hmem =>
      (Finset.mem_erase.mp (herase ▸ hallocated.free first hmem)).1 rfl
    refine ⟨first :: l, bat', data', ?_, hallocated.cons hfirst hsize hpos (by omega), ?_, ?_⟩
    · rw [writeBlocks_succ hrange (by omega) (by omega), if_neg (by omega), hn]
      exact heq
    · rw [List.length_cons, hlength]
    · exact hstored.cons hbounds.1 hrange.2.1 hnot

end GCMemcard
