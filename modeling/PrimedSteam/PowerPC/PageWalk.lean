import PrimedSteam.PowerPC.PageScan
import PrimedSteam.Lib.WordMasks
import Mathlib.Tactic.IntervalCases

/-!
# The scan of a page table and the walk over it

* `getPageIndex_eq_some_iff`: which bits of the hash `get_page_index` compares.
* `walkGroup_mem`, `adds_walkLo`: what the walk finds is visited by the scan and belongs to the page.
* `findPte_eq_some`: the walk finds the entry with the least priority number in its groups.
* **`scan_agrees_iff`**: the scan and the walk agree on a page iff each entry that the scan maps to the
  page from a group outside the walk gives way to one inside.
* `agrees_of_small`: so they do with at most six bits in HTABMASK.
-/

set_option autoImplicit false

namespace PowerPC.Mmu

/-! ## The groups of the walk -/

/-- The bits of the registers that `SDRUpdated` sets. -/
structure Accepted (mmu : Mmu) : Prop where
  base_low : ∀ i < 16, mmu.pagetableBase.getLsbD i = false
  mask_low : ∀ i < 6, mmu.pagetableMask.getLsbD i = false
  mask_mid : ∀ i, 6 ≤ i → i < 16 → mmu.pagetableMask.getLsbD i = true
  mask_high : ∀ i, 25 ≤ i → mmu.pagetableMask.getLsbD i = false

theorem accepted_sdrUpdated (mmu : Mmu) (sdr : BitVec 32) : Accepted (mmu.sdrUpdated sdr) where
  base_low i hi := by
    simp only [sdrUpdated, BitVec.getLsbD_shiftLeft]
    simp [hi]
  mask_low i hi := by
    simp only [sdrUpdated, BitVec.getLsbD_or, BitVec.getLsbD_shiftLeft]
    interval_cases i <;> simp
  mask_mid i hlow hhigh := by
    simp only [sdrUpdated, BitVec.getLsbD_or, BitVec.getLsbD_shiftLeft]
    interval_cases i <;> simp
  mask_high i hi := by
    by_cases h32 : 32 ≤ i
    · exact BitVec.getLsbD_of_ge _ _ h32
    · simp only [sdrUpdated, BitVec.getLsbD_or, BitVec.getLsbD_shiftLeft, BitVec.getLsbD_setWidth,
        BitVec.getLsbD_extractLsb']
      have h9 : ¬i - 16 < 9 := by omega
      simp only [h9, decide_false, Bool.false_and, Bool.and_false, Bool.false_or]
      have hi' : i < 32 := by omega
      interval_cases i <;> decide

theorem sdrUpdated_sr (mmu : Mmu) (sdr : BitVec 32) : (mmu.sdrUpdated sdr).sr = mmu.sr := by
  simp only [sdrUpdated]

section Walk

variable (mmu : Mmu)

/-- The hash of a page, from the first or the second hash function. -/
def pageHash (page : LogicalPage) (h : Bool) : BitVec 32 :=
  let hash := (mmu.srVsid page.sr).setWidth 32 ^^^ page.pageIndex.setWidth 32
  if h then ~~~hash else hash

/-- The bits of the mask that the base leaves to the offset. -/
def offsetMask : BitVec 32 := mmu.pagetableMask &&& ~~~mmu.pagetableBase

/-- The offset in the page table at which the walk looks for a page. -/
def walkOffset (page : LogicalPage) (h : Bool) : BitVec 32 :=
  (mmu.pageHash page h <<< 6) &&& mmu.offsetMask

def walkGroup (page : LogicalPage) (h : Bool) : ℕ := (mmu.walkOffset page h).toNat / 64

/-- The entry that the walk looks for. -/
def walkLo (page : LogicalPage) (h : Bool) : PteLo :=
  ⟨true, mmu.srVsid page.sr, h, page.pageIndex.extractLsb' 10 6⟩

variable {mmu} {page : LogicalPage} {h : Bool}

theorem walkOffset_mod : (mmu.walkOffset page h).toNat % 64 = 0 := by
  have hzero : mmu.walkOffset page h &&& 63#32 = 0#32 := by
    refine BitVec.eq_of_getLsbD_eq fun i hi => ?_
    rw [BitVec.getLsbD_and, BitVec.getLsbD_zero]
    by_cases h6 : i < 6
    · rw [walkOffset, BitVec.getLsbD_and, BitVec.getLsbD_shiftLeft]
      simp [h6]
    · have h63 : (63#32).getLsbD i = false := by
        interval_cases i <;> first | omega | decide
      rw [h63, Bool.and_false]
  have hnat := congrArg BitVec.toNat hzero
  rw [BitVec.toNat_and] at hnat
  have hmod := Nat.and_two_pow_sub_one_eq_mod (mmu.walkOffset page h).toNat 6
  exact hmod.symm.trans hnat

theorem walkOffset_eq :
    (mmu.walkOffset page h).toNat = 64 * mmu.walkGroup page h := by
  have hmod := @walkOffset_mod mmu page h
  unfold walkGroup
  omega

theorem ofNat_walkGroup : BitVec.ofNat 32 (mmu.walkGroup page h) = mmu.walkOffset page h >>> 6 := by
  refine BitVec.eq_of_toNat_eq ?_
  have hlt := (mmu.walkOffset page h).isLt
  rw [BitVec.toNat_ofNat, BitVec.toNat_ushiftRight, Nat.shiftRight_eq_div_pow, walkGroup,
    Nat.mod_eq_of_lt (by omega)]

theorem ptegAddr_eq : mmu.ptegAddr (mmu.pageHash page h) =
    mmu.pagetableBase + BitVec.ofNat 32 (64 * mmu.walkGroup page h) := by
  have hoffset : BitVec.ofNat 32 (64 * mmu.walkGroup page h) = mmu.walkOffset page h := by
    rw [← walkOffset_eq, BitVec.ofNat_toNat, BitVec.setWidth_eq]
  have hdisjoint : mmu.pagetableBase &&& mmu.walkOffset page h = 0#32 := by
    refine BitVec.eq_of_getLsbD_eq fun i hi => ?_
    rw [walkOffset, offsetMask]
    simp only [BitVec.getLsbD_and, BitVec.getLsbD_not, BitVec.getLsbD_zero]
    cases mmu.pagetableBase.getLsbD i <;> simp
  rw [hoffset, BitVec.add_eq_or_of_and_eq_zero _ _ hdisjoint, ptegAddr, walkOffset, offsetMask]
  refine BitVec.eq_of_getLsbD_eq fun i hi => ?_
  simp only [BitVec.getLsbD_and, BitVec.getLsbD_or, BitVec.getLsbD_not, hi, decide_true, Bool.true_and]
  cases mmu.pagetableBase.getLsbD i <;> simp

/-- `page_index_from_hash` for the entry that the walk looks for. -/
def indexFromHash (mmu : Mmu) (page : LogicalPage) (h : Bool) (hash : BitVec 32) : BitVec 32 :=
  if h then ~~~(hash ^^^ (mmu.srVsid page.sr).setWidth 32)
  else hash ^^^ (mmu.srVsid page.sr).setWidth 32

theorem indexFromHash_getLsbD {hash : BitVec 32} {i : ℕ} (hi : i < 16) :
    (mmu.indexFromHash page h hash).getLsbD i = page.pageIndex.getLsbD i ↔
      hash.getLsbD i = (mmu.pageHash page h).getLsbD i := by
  have h32 : i < 32 := by omega
  have h24 : i < 24 := by omega
  unfold indexFromHash pageHash
  cases h <;>
    simp only [BitVec.getLsbD_xor, BitVec.getLsbD_not, BitVec.getLsbD_setWidth, h32, decide_true,
      Bool.true_and, if_true, Bool.false_eq_true, if_false] <;>
    cases (mmu.srVsid page.sr).getLsbD i <;> cases page.pageIndex.getLsbD i <;>
    cases hash.getLsbD i <;> decide

theorem lt_of_getLsbD_3f {i : ℕ} (h : (0x3F#32).getLsbD i = true) : i < 6 := by
  have hi : i < 32 := BitVec.lt_of_getLsbD h
  interval_cases i <;> first | decide | exact absurd h (by decide)

theorem getLsbD_3f {i : ℕ} (h : i < 6) : (0x3F#32).getLsbD i = true := by
  interval_cases i <;> rfl

/-- **What `get_page_index` compares**: the ten low bits of the hash are right, and those of the six
bits above them that the table has. -/
theorem getPageIndex_eq_some_iff {hash : BitVec 32} :
    mmu.getPageIndex (mmu.walkLo page h) hash = some page.pageIndex ↔
      (∀ i < 10, hash.getLsbD i = (mmu.pageHash page h).getLsbD i) ∧
        ∀ i < 6, mmu.offsetMask.getLsbD (16 + i) = true →
          hash.getLsbD (10 + i) = (mmu.pageHash page h).getLsbD (10 + i) := by
  have happly : mmu.getPageIndex (mmu.walkLo page h) hash =
      if (page.pageIndex.extractLsb' 10 6).setWidth 32 &&& ((mmu.offsetMask >>> 16) &&& 0x3F#32) ≠
          (mmu.indexFromHash page h hash >>> 10) &&& ((mmu.offsetMask >>> 16) &&& 0x3F#32) then none
      else some (page.pageIndex.extractLsb' 10 6 ++
        (mmu.indexFromHash page h hash).extractLsb' 0 10) := rfl
  have hapi : ∀ i, ((mmu.offsetMask >>> 16) &&& 0x3F#32).getLsbD i = true ↔
      mmu.offsetMask.getLsbD (16 + i) = true ∧ i < 6 := by
    intro i
    rw [BitVec.getLsbD_and, Bool.and_eq_true, BitVec.getLsbD_ushiftRight]
    exact and_congr_right fun _ => ⟨lt_of_getLsbD_3f, getLsbD_3f⟩
  generalize (mmu.offsetMask >>> 16) &&& 0x3F#32 = apiMask at hapi happly
  rw [happly, Option.ite_none_left_eq_some, not_not, Option.some_inj, and_comm]
  refine and_congr ⟨fun heq i hi => ?_, fun hbits => ?_⟩ ⟨fun heq i hi hmask => ?_, fun hbits => ?_⟩
  · have hbit := congrArg (fun x : BitVec 16 => x.getLsbD i) heq
    simp only [BitVec.getLsbD_append, hi, if_true, BitVec.getLsbD_extractLsb', Nat.zero_add,
      decide_true, Bool.true_and] at hbit
    exact (indexFromHash_getLsbD (by omega)).mp hbit
  · refine BitVec.eq_of_getLsbD_eq fun i hi => ?_
    rw [BitVec.getLsbD_append]
    by_cases h10 : i < 10
    · rw [if_pos h10, BitVec.getLsbD_extractLsb', Nat.zero_add, decide_eq_true h10, Bool.true_and]
      exact (indexFromHash_getLsbD hi).mpr (hbits i h10)
    · have hsum : 10 + (i - 10) = i := by omega
      rw [if_neg h10, BitVec.getLsbD_extractLsb', decide_eq_true (by omega : i - 10 < 6), Bool.true_and,
        hsum]
  · have hbit := congrArg (fun x : BitVec 32 => x.getLsbD i) heq
    have h32 : i < 32 := by omega
    simp only [BitVec.getLsbD_and, (hapi i).mpr ⟨hmask, hi⟩, Bool.and_true, BitVec.getLsbD_setWidth,
      BitVec.getLsbD_extractLsb', BitVec.getLsbD_ushiftRight, hi, h32, decide_true, Bool.true_and] at hbit
    exact (indexFromHash_getLsbD (by omega)).mp hbit.symm
  · refine BitVec.eq_of_getLsbD_eq fun i hi => ?_
    rw [BitVec.getLsbD_and, BitVec.getLsbD_and]
    cases hmask : apiMask.getLsbD i with
    | false => rw [Bool.and_false, Bool.and_false]
    | true =>
      obtain ⟨hbit, h6⟩ := (hapi i).mp hmask
      rw [Bool.and_true, Bool.and_true, BitVec.getLsbD_setWidth, BitVec.getLsbD_extractLsb',
        BitVec.getLsbD_ushiftRight, (indexFromHash_getLsbD (by omega)).mpr (hbits i h6 hbit),
        decide_eq_true hi, decide_eq_true h6, Bool.true_and, Bool.true_and]

theorem walkHash_getLsbD {i : ℕ} (hi : i < 26) :
    (mmu.walkOffset page h >>> 6).getLsbD i =
      ((mmu.pageHash page h).getLsbD i && mmu.offsetMask.getLsbD (6 + i)) := by
  have h6 : ¬6 + i < 6 := by omega
  have h32 : 6 + i < 32 := by omega
  rw [BitVec.getLsbD_ushiftRight, walkOffset, BitVec.getLsbD_and, BitVec.getLsbD_shiftLeft,
    Nat.add_sub_cancel_left, decide_eq_true h32, decide_eq_false h6]
  rfl

theorem offsetMask_mid (hmmu : Accepted mmu) {i : ℕ} (hi : i < 10) :
    mmu.offsetMask.getLsbD (6 + i) = true := by
  rw [offsetMask, BitVec.getLsbD_and, BitVec.getLsbD_not, hmmu.mask_mid _ (by omega) (by omega),
    hmmu.base_low _ (by omega), decide_eq_true (by omega : 6 + i < 32)]
  rfl

theorem getPageIndex_walkLo (hmmu : Accepted mmu) :
    mmu.getPageIndex (mmu.walkLo page h) (mmu.walkOffset page h >>> 6) = some page.pageIndex := by
  refine getPageIndex_eq_some_iff.mpr ⟨fun i hi => ?_, fun i hi hmask => ?_⟩
  · rw [walkHash_getLsbD (by omega), offsetMask_mid hmmu hi, Bool.and_true]
  · have hsum : 6 + (10 + i) = 16 + i := by omega
    rw [walkHash_getLsbD (by omega), hsum, hmask, Bool.and_true]

/-- **The entry that the walk looks for belongs to the page** in the scan too. -/
theorem adds_walkLo (hmmu : Accepted mmu) (ht : mmu.srT page.sr = false) {pte : Pte} {slot : ℕ}
    (hlo : pte.lo = mmu.walkLo page h) (hslot : slot / 8 = mmu.walkGroup page h) :
    mmu.Adds pte slot page := by
  constructor
  · rw [hslot, ofNat_walkGroup, hlo]
    exact getPageIndex_walkLo hmmu
  · constructor
    · rw [hlo]
      rfl
    · exact ht

/-- An entry that the scan maps to the page is the one that the walk looks for, in some group. -/
theorem lo_of_adds {pte : Pte} {slot : ℕ} (hv : pte.lo.v = true) (hadds : mmu.Adds pte slot page) :
    pte.lo = mmu.walkLo page pte.lo.h := by
  obtain ⟨hindex, hvsid, -⟩ := hadds
  unfold getPageIndex at hindex
  dsimp only at hindex
  rw [Option.ite_none_left_eq_some, Option.some_inj] at hindex
  have hapi : pte.lo.api = page.pageIndex.extractLsb' 10 6 := by
    rw [← hindex.2]
    refine BitVec.eq_of_getLsbD_eq fun i hi => ?_
    have h10 : ¬10 + i < 10 := by omega
    rw [BitVec.getLsbD_extractLsb', decide_eq_true hi, Bool.true_and, BitVec.getLsbD_append, if_neg h10,
      Nat.add_sub_cancel_left]
  unfold walkLo
  rw [← hv, hvsid, ← hapi]

/-! ### The group is visited -/

theorem getLsbD_ffff {i : ℕ} (hi : i < 32) : (0xFFFF#32).getLsbD i = decide (i < 16) := by
  interval_cases i <;> rfl

theorem getLsbD_ffc0 {i : ℕ} (hi : i < 32) : (0xFFC0#32).getLsbD i = decide (6 ≤ i ∧ i < 16) := by
  interval_cases i <;> rfl

theorem pagetableBase_mod (hmmu : Accepted mmu) : mmu.pagetableBase.toNat % 65536 = 0 := by
  have hzero : mmu.pagetableBase &&& 0xFFFF#32 = 0#32 := by
    refine BitVec.eq_of_getLsbD_eq fun i hi => ?_
    rw [BitVec.getLsbD_and, getLsbD_ffff hi, BitVec.getLsbD_zero]
    by_cases h16 : i < 16
    · rw [hmmu.base_low i h16, Bool.false_and]
    · rw [decide_eq_false h16, Bool.and_false]
  have hnat := congrArg BitVec.toNat hzero
  rw [BitVec.toNat_and] at hnat
  exact (Nat.and_two_pow_sub_one_eq_mod mmu.pagetableBase.toNat 16).symm.trans hnat

theorem offsetMask_mod (hmmu : Accepted mmu) : mmu.offsetMask.toNat % 65536 = 0xFFC0 := by
  have hlow : mmu.offsetMask &&& 0xFFFF#32 = 0xFFC0#32 := by
    refine BitVec.eq_of_getLsbD_eq fun i hi => ?_
    rw [BitVec.getLsbD_and, getLsbD_ffff hi, getLsbD_ffc0 hi, offsetMask, BitVec.getLsbD_and,
      BitVec.getLsbD_not]
    by_cases h16 : i < 16
    · rw [hmmu.base_low i h16]
      by_cases h6 : i < 6
      · rw [hmmu.mask_low i h6]
        simp [h6]
      · rw [hmmu.mask_mid i (by omega) h16]
        simp [h16, hi]
        omega
    · simp [h16]
  have hnat := congrArg BitVec.toNat hlow
  rw [BitVec.toNat_and] at hnat
  exact (Nat.and_two_pow_sub_one_eq_mod mmu.offsetMask.toNat 16).symm.trans hnat

theorem offsetMask_lt (hmmu : Accepted mmu) : mmu.offsetMask.toNat < 2 ^ 25 := by
  have hzero : mmu.offsetMask >>> 25 = 0#32 := by
    refine BitVec.eq_of_getLsbD_eq fun i hi => ?_
    rw [BitVec.getLsbD_ushiftRight, offsetMask, BitVec.getLsbD_and, hmmu.mask_high _ (by omega),
      Bool.false_and, BitVec.getLsbD_zero]
  have hnat := congrArg BitVec.toNat hzero
  rw [BitVec.toNat_ushiftRight, Nat.shiftRight_eq_div_pow, BitVec.toNat_ofNat] at hnat
  omega

theorem toNat_and_not_ffff (x : BitVec 32) : (x &&& ~~~0xFFFF#32).toNat = x.toNat / 65536 * 65536 :=
  @WordMask.toNat_and_not 16 32 x 0xFFFF#32 (by decide) rfl

theorem base_or_mask : mmu.pagetableBase ||| mmu.pagetableMask = mmu.pagetableBase + mmu.offsetMask := by
  have hdisjoint : mmu.pagetableBase &&& mmu.offsetMask = 0#32 := by
    refine BitVec.eq_of_getLsbD_eq fun i hi => ?_
    rw [offsetMask]
    simp only [BitVec.getLsbD_and, BitVec.getLsbD_not, BitVec.getLsbD_zero]
    cases mmu.pagetableBase.getLsbD i <;> simp
  rw [BitVec.add_eq_or_of_and_eq_zero _ _ hdisjoint, offsetMask]
  refine BitVec.eq_of_getLsbD_eq fun i hi => ?_
  simp only [BitVec.getLsbD_and, BitVec.getLsbD_or, BitVec.getLsbD_not, hi, decide_true, Bool.true_and]
  cases mmu.pagetableBase.getLsbD i <;> simp

theorem tableSize_eq (hmmu : Accepted mmu) :
    mmu.tableSize.toNat = (mmu.offsetMask.toNat / 65536 + 1) * 65536 := by
  have hbase := pagetableBase_mod hmmu
  have hmod := offsetMask_mod hmmu
  have hlt := offsetMask_lt hmmu
  have hbaseLt := mmu.pagetableBase.isLt
  have hsize : mmu.tableSize = ((mmu.pagetableBase ||| mmu.pagetableMask) + 0xFFFF#32 &&& ~~~0xFFFF#32) -
    mmu.pagetableBase := rfl
  have hsum : (mmu.pagetableBase + mmu.offsetMask + 0xFFFF#32).toNat =
      (mmu.pagetableBase.toNat + mmu.offsetMask.toNat + 65535) % 2 ^ 32 := by
    rw [BitVec.toNat_add, BitVec.toNat_add, BitVec.toNat_ofNat]
    omega
  rw [hsize, BitVec.toNat_sub, base_or_mask, toNat_and_not_ffff, hsum]
  omega

/-- **The group that the walk looks at is one that the scan visits.** -/
theorem walkGroup_mem (hmmu : Accepted mmu) :
    mmu.walkGroup page h ∈ mmu.groups mmu.tableSize.toNat := by
  have hle : (mmu.walkOffset page h).toNat ≤ mmu.offsetMask.toNat := by
    rw [walkOffset, BitVec.toNat_and]
    exact Nat.and_le_right
  have hgroup := @walkOffset_eq mmu page h
  have hvisits : mmu.Visits (mmu.walkGroup page h / 1024 * pageTableMinSize) := by
    have hcut : BitVec.ofNat 32 (mmu.walkGroup page h / 1024 * pageTableMinSize) =
        mmu.walkOffset page h &&& ~~~0xFFFF#32 := by
      refine BitVec.eq_of_toNat_eq ?_
      have hlt := (mmu.walkOffset page h).isLt
      rw [toNat_and_not_ffff, BitVec.toNat_ofNat, pageTableMinSize]
      omega
    rw [Visits, hcut]
    constructor
    · refine BitVec.eq_of_getLsbD_eq fun i hi => ?_
      simp only [walkOffset, offsetMask, BitVec.getLsbD_and]
      cases mmu.pagetableMask.getLsbD i <;> simp
    · refine BitVec.eq_of_getLsbD_eq fun i hi => ?_
      simp only [walkOffset, offsetMask, BitVec.getLsbD_and, BitVec.getLsbD_not]
      cases mmu.pagetableBase.getLsbD i <;> simp
  rw [groups, List.mem_flatMap]
  refine ⟨mmu.walkGroup page h / 1024, List.mem_filter.mpr ⟨List.mem_range.mpr ?_, ?_⟩, ?_⟩
  · rw [tableSize_eq hmmu, pageTableMinSize]
    omega
  · exact decide_eq_true hvisits
  · rw [List.mem_range'_1]
    omega

theorem mem_slots (hmmu : Accepted mmu) {slot : ℕ} (hslot : slot / 8 = mmu.walkGroup page h) :
    slot ∈ mmu.slots mmu.tableSize.toNat := by
  rw [slots, List.mem_flatMap]
  have hgroup : mmu.walkGroup page h ∈ mmu.groups mmu.tableSize.toNat := walkGroup_mem hmmu
  refine ⟨mmu.walkGroup page h, hgroup, ?_⟩
  rw [List.mem_range'_1]
  omega

/-! ### The walk -/

variable {memory : Words}

theorem searchGroup_eq (lo : PteLo) (n k : ℕ) (group : ℕ) :
    searchGroup memory lo n
        (mmu.pagetableBase + BitVec.ofNat 32 (64 * group) + BitVec.ofNat 32 (8 * k)) =
      ((List.range' k n).find? fun k => lo = ((mmu.tableInMemory memory).slot (8 * group + k)).lo).map
        fun k => (mmu.pagetableBase + BitVec.ofNat 32 (64 * group) + BitVec.ofNat 32 (8 * k),
          ((mmu.tableInMemory memory).slot (8 * group + k)).hi) := by
  have haddr : ∀ k, mmu.pagetableBase + BitVec.ofNat 32 (8 * (8 * group + k)) =
      mmu.pagetableBase + BitVec.ofNat 32 (64 * group) + BitVec.ofNat 32 (8 * k) := by
    intro k
    rw [BitVec.add_assoc, ← BitVec.ofNat_add, Nat.mul_add, ← Nat.mul_assoc]
  induction n generalizing k with
  | zero => rfl
  | succ n ih =>
    have hnext : mmu.pagetableBase + BitVec.ofNat 32 (64 * group) + BitVec.ofNat 32 (8 * k) + 8 =
        mmu.pagetableBase + BitVec.ofNat 32 (64 * group) + BitVec.ofNat 32 (8 * (k + 1)) := by
      rw [BitVec.add_assoc _ (BitVec.ofNat 32 (8 * k)), Nat.mul_add, BitVec.ofNat_add]
      rfl
    rw [searchGroup, hnext, ih, List.range'_succ, List.find?_cons]
    simp only [tableInMemory, haddr]
    by_cases hfound : lo = .ofHex (memory
        (mmu.pagetableBase + BitVec.ofNat 32 (64 * group) + BitVec.ofNat 32 (8 * k)))
    · rw [if_pos hfound, decide_eq_true hfound]
      rfl
    · rw [if_neg hfound, decide_eq_false hfound]

/-- The first entry of the group that is the one the walk looks for. -/
def firstInGroup (mmu : Mmu) (newTable : ℕ → Pte) (page : LogicalPage) (h : Bool) : Option ℕ :=
  (List.range 8).find? fun k => mmu.walkLo page h = (newTable (8 * mmu.walkGroup page h + k)).lo

theorem searchGroup_walk (hmmu : Accepted mmu) :
    (searchGroup memory (mmu.walkLo page h) 8 (mmu.ptegAddr (mmu.pageHash page h))).map
        (fun r => (r.2, r.1.toNat % 64 / 8)) =
      (mmu.firstInGroup (mmu.tableInMemory memory).slot page h).map fun k =>
        (((mmu.tableInMemory memory).slot (8 * mmu.walkGroup page h + k)).hi, k) := by
  have hbase := pagetableBase_mod hmmu
  have hstart := @searchGroup_eq mmu memory (mmu.walkLo page h) 8 0 (mmu.walkGroup page h)
  rw [Nat.mul_zero, BitVec.add_zero] at hstart
  rw [ptegAddr_eq, hstart, Option.map_map, firstInGroup, List.range_eq_range']
  refine Option.map_congr fun k hk => ?_
  have hlt : k < 8 := by
    have hmem := List.mem_of_find?_eq_some hk
    rw [List.mem_range'_1] at hmem
    omega
  have haddr : (mmu.pagetableBase + BitVec.ofNat 32 (64 * mmu.walkGroup page h) +
      BitVec.ofNat 32 (8 * k)).toNat % 64 / 8 = k := by
    rw [BitVec.toNat_add, BitVec.toNat_add, BitVec.toNat_ofNat, BitVec.toNat_ofNat]
    omega
  rw [Function.comp_apply, haddr]

/-- **The walk finds the first entry of the page in the primary group**, or in the secondary one. -/
theorem findPte_eq (hmmu : Accepted mmu) : mmu.findPte memory page =
    ((mmu.firstInGroup (mmu.tableInMemory memory).slot page false).map fun k =>
        (((mmu.tableInMemory memory).slot (8 * mmu.walkGroup page false + k)).hi, k)).or
      ((mmu.firstInGroup (mmu.tableInMemory memory).slot page true).map fun k =>
        (((mmu.tableInMemory memory).slot (8 * mmu.walkGroup page true + k)).hi, k ||| 8)) := by
  have hsecond := congrArg (Option.map fun r : PteHi × ℕ => (r.1, r.2 ||| 8))
    (@searchGroup_walk mmu page true memory hmmu)
  rw [Option.map_map, Option.map_map] at hsecond
  exact congrArg₂ Option.or (searchGroup_walk hmmu) hsecond

end Walk

/-! ## The scan and the walk -/

section Agreement

variable (mmu : Mmu) (memory : Words) (page : LogicalPage)

/-- The entries that the scan maps to a page, in the order in which they are added. -/
def candidates : List ℕ :=
  mmu.mapped (mmu.tableInMemory memory).slot false page (mmu.slots mmu.tableSize.toNat) ++
    mmu.mapped (mmu.tableInMemory memory).slot true page (mmu.slots mmu.tableSize.toNat)

def priority (slot : ℕ) : ℕ := entryPriority ((mmu.tableInMemory memory).slot slot).lo slot

def rpn (slot : ℕ) : BitVec 20 := ((mmu.tableInMemory memory).slot slot).hi.rpn

/-- The entry is in a group in which the walk does not look for the page. -/
def Stray (slot : ℕ) : Prop :=
  slot / 8 ≠ mmu.walkGroup page ((mmu.tableInMemory memory).slot slot).lo.h

/-- The page is mapped by the scan of the table iff the walk finds an entry, and by that one. -/
def Agrees : Prop :=
  ((mmu.tableUpdated (mmu.tableInMemory memory) .cleared).pageMappings page).map
      (fun mapping => (mapping.rpn, mapping.priority)) =
    (mmu.findPte memory page).map fun (pte2, priority) => (pte2.rpn, priority)

/-- Each stray entry gives way to one in a group of the walk. Of entries with the same priority number
the last one is mapped. -/
def StraysShadowed : Prop :=
  ∀ l₁ slot l₂, mmu.candidates memory page = l₁ ++ slot :: l₂ → mmu.Stray memory page slot →
    ∃ other ∈ mmu.candidates memory page, ¬mmu.Stray memory page other ∧
      (mmu.priority memory other < mmu.priority memory slot ∨
        mmu.priority memory other = mmu.priority memory slot ∧
          ∃ last ∈ slot :: l₂, mmu.priority memory last = mmu.priority memory slot ∧
            mmu.rpn memory last = mmu.rpn memory other)

variable {mmu memory page}

theorem mem_candidates {slot : ℕ} : slot ∈ mmu.candidates memory page ↔
    slot ∈ mmu.slots mmu.tableSize.toNat ∧ ((mmu.tableInMemory memory).slot slot).lo.v = true ∧
      mmu.Adds ((mmu.tableInMemory memory).slot slot) slot page := by
  rw [candidates, mapped, mapped, List.mem_append, List.mem_filter, List.mem_filter, decide_eq_true_eq,
    decide_eq_true_eq, IsEntry, IsEntry]
  cases ((mmu.tableInMemory memory).slot slot).lo.h <;> simp

theorem tableUpdated_pageMappings (mmu : Mmu) {table : TableBytes} {t : PageTables}
    (hmod : ¬table.size % pageTableMinSize ≠ 0) (hempty : t.pageTable.size ≠ table.size) (page : LogicalPage) :
    (mmu.tableUpdated table t).pageMappings page =
      mmu.merged table.slot page none (mmu.mapped table.slot false page (mmu.slots table.size) ++
        mmu.mapped table.slot true page (mmu.slots table.size)) := by
  unfold tableUpdated
  rw [if_neg hmod]
  dsimp only
  rw [if_neg hempty]
  exact scan_pageMappings table page rfl rfl rfl

theorem pageMappings_eq (hmmu : Accepted mmu) :
    (mmu.tableUpdated (mmu.tableInMemory memory) .cleared).pageMappings page =
      mmu.merged (mmu.tableInMemory memory).slot page none (mmu.candidates memory page) := by
  have hsize : (mmu.tableInMemory memory).size = mmu.tableSize.toNat := rfl
  have htable := tableSize_eq hmmu
  have hmod : ¬(mmu.tableInMemory memory).size % pageTableMinSize ≠ 0 := by
    rw [hsize, htable, pageTableMinSize]
    omega
  have hempty : PageTables.cleared.pageTable.size ≠ (mmu.tableInMemory memory).size := by
    have hzero : PageTables.cleared.pageTable.size = 0 := rfl
    rw [hsize, htable, hzero]
    omega
  rw [tableUpdated_pageMappings mmu hmod hempty, candidates, hsize]

theorem priority_of_h {slot : ℕ} {h : Bool} (hh : ((mmu.tableInMemory memory).slot slot).lo.h = h) :
    mmu.priority memory slot = slot % 8 + if h then 8 else 0 := by
  have hor : ∀ k < 8, k ||| 8 = k + 8 := by decide
  rw [priority, entryPriority, hh]
  cases h
  · exact Nat.or_zero _
  · exact hor _ (Nat.mod_lt _ (by decide))

theorem not_stray_iff (hmmu : Accepted mmu) (ht : mmu.srT page.sr = false) {slot : ℕ} :
    slot ∈ mmu.candidates memory page ∧ ¬mmu.Stray memory page slot ↔
      ∃ h, mmu.walkLo page h = ((mmu.tableInMemory memory).slot slot).lo ∧
        slot / 8 = mmu.walkGroup page h := by
  constructor
  · rintro ⟨hmem, hwalk⟩
    obtain ⟨-, hv, hadds⟩ := mem_candidates.mp hmem
    exact ⟨_, (lo_of_adds hv hadds).symm, not_not.mp hwalk⟩
  · rintro ⟨h, hlo, hslot⟩
    have hh : ((mmu.tableInMemory memory).slot slot).lo.h = h := by rw [← hlo]; rfl
    refine ⟨mem_candidates.mpr ⟨mem_slots hmmu hslot, ?_, adds_walkLo hmmu ht hlo.symm hslot⟩, ?_⟩
    · rw [← hlo]
      rfl
    · rw [Stray, hh, not_not]
      exact hslot

theorem eq_of_priority_eq {slot slot' : ℕ} (hwalk : ¬mmu.Stray memory page slot)
    (hwalk' : ¬mmu.Stray memory page slot')
    (heq : mmu.priority memory slot = mmu.priority memory slot') : slot = slot' := by
  rw [Stray, not_not] at hwalk hwalk'
  rw [priority_of_h rfl, priority_of_h rfl] at heq
  cases hh : ((mmu.tableInMemory memory).slot slot).lo.h <;>
    cases hh' : ((mmu.tableInMemory memory).slot slot').lo.h <;>
    rw [hh] at hwalk heq <;> rw [hh'] at hwalk' heq <;>
    simp only [if_true, Bool.false_eq_true, if_false] at heq <;> omega

theorem firstInGroup_eq_some {h : Bool} {k : ℕ}
    (hk : mmu.firstInGroup (mmu.tableInMemory memory).slot page h = some k) :
    k < 8 ∧ mmu.walkLo page h =
        ((mmu.tableInMemory memory).slot (8 * mmu.walkGroup page h + k)).lo ∧
      ∀ slot, slot / 8 = mmu.walkGroup page h →
        mmu.walkLo page h = ((mmu.tableInMemory memory).slot slot).lo → k ≤ slot % 8 := by
  obtain ⟨hlo, hmem, hfirst⟩ := List.find?_range_eq_some.mp hk
  refine ⟨List.mem_range.mp hmem, of_decide_eq_true hlo, fun slot hslot hlo' => ?_⟩
  by_contra hlt
  have hnot := hfirst (slot % 8) (not_le.mp hlt)
  have heq : 8 * mmu.walkGroup page h + slot % 8 = slot := by omega
  rw [heq, decide_eq_true hlo'] at hnot
  cases hnot

theorem firstInGroup_eq_none {h : Bool}
    (hnone : mmu.firstInGroup (mmu.tableInMemory memory).slot page h = none) {slot : ℕ}
    (hslot : slot / 8 = mmu.walkGroup page h) :
    mmu.walkLo page h ≠ ((mmu.tableInMemory memory).slot slot).lo := by
  intro hlo
  have hnot := List.find?_eq_none.mp hnone (slot % 8) (List.mem_range.mpr (Nat.mod_lt _ (by decide)))
  have heq : 8 * mmu.walkGroup page h + slot % 8 = slot := by omega
  rw [heq] at hnot
  exact hnot (decide_eq_true hlo)

/-- **What the walk finds** is the entry with the least priority number in its groups. -/
theorem findPte_eq_some (hmmu : Accepted mmu) (ht : mmu.srT page.sr = false) {r : PteHi × ℕ}
    (hfind : mmu.findPte memory page = some r) :
    ∃ slot ∈ mmu.candidates memory page, ¬mmu.Stray memory page slot ∧
      r = (((mmu.tableInMemory memory).slot slot).hi, mmu.priority memory slot) ∧
      ∀ other ∈ mmu.candidates memory page, ¬mmu.Stray memory page other →
        mmu.priority memory slot ≤ mmu.priority memory other := by
  -- the entry in the group of `h` that is found, and the entries in this group
  have hgroup : ∀ h k, mmu.firstInGroup (mmu.tableInMemory memory).slot page h = some k →
      ∃ slot ∈ mmu.candidates memory page, ¬mmu.Stray memory page slot ∧
        slot = 8 * mmu.walkGroup page h + k ∧ k < 8 ∧
        mmu.priority memory slot = k + (if h then 8 else 0) ∧
        ∀ other, mmu.walkLo page h = ((mmu.tableInMemory memory).slot other).lo →
          other / 8 = mmu.walkGroup page h →
            mmu.priority memory slot ≤ mmu.priority memory other := by
    intro h k hk
    obtain ⟨hlt, hlo, hfirst⟩ := firstInGroup_eq_some hk
    have hslot : (8 * mmu.walkGroup page h + k) / 8 = mmu.walkGroup page h := by omega
    have hmod : (8 * mmu.walkGroup page h + k) % 8 = k := by omega
    have hh : ∀ slot, mmu.walkLo page h = ((mmu.tableInMemory memory).slot slot).lo →
        ((mmu.tableInMemory memory).slot slot).lo.h = h := fun slot heq => by rw [← heq]; rfl
    obtain ⟨hmem, hwalk⟩ := (not_stray_iff hmmu ht).mpr ⟨h, hlo, hslot⟩
    refine ⟨_, hmem, hwalk, rfl, hlt, ?_, fun other hlo' hother => ?_⟩
    · rw [priority_of_h (hh _ hlo), hmod]
    · rw [priority_of_h (hh _ hlo), priority_of_h (hh _ hlo'), hmod]
      exact Nat.add_le_add_right (hfirst other hother hlo') _
  rw [findPte_eq hmmu] at hfind
  cases hfirst : mmu.firstInGroup (mmu.tableInMemory memory).slot page false with
  | some k =>
    obtain ⟨slot, hmem, hwalk, rfl, hlt, hprior, hleast⟩ := hgroup false k hfirst
    rw [hfirst, Option.map_some, Option.some_or, Option.some_inj] at hfind
    refine ⟨_, hmem, hwalk, ?_, fun other hother hwalk' => ?_⟩
    · rw [hprior, ← hfind]
      rfl
    · obtain ⟨h, hlo, hgroup'⟩ := (not_stray_iff hmmu ht).mp ⟨hother, hwalk'⟩
      cases h with
      | false => exact hleast other hlo hgroup'
      | true =>
        -- an entry of the secondary group comes after the primary ones
        have hh : ((mmu.tableInMemory memory).slot other).lo.h = true := by rw [← hlo]; rfl
        rw [hprior, priority_of_h hh, if_pos rfl, if_neg (by decide)]
        omega
  | none =>
    rw [hfirst, Option.map_none, Option.none_or, Option.map_eq_some_iff] at hfind
    obtain ⟨k, hk, rfl⟩ := hfind
    obtain ⟨slot, hmem, hwalk, rfl, hlt, hprior, hleast⟩ := hgroup true k hk
    have hor : ∀ k < 8, k ||| 8 = k + 8 := by decide
    refine ⟨_, hmem, hwalk, ?_, fun other hother hwalk' => ?_⟩
    · rw [hprior, hor k hlt]
      rfl
    · obtain ⟨h, hlo, hgroup'⟩ := (not_stray_iff hmmu ht).mp ⟨hother, hwalk'⟩
      cases h with
      | false => exact absurd hlo (firstInGroup_eq_none hfirst hgroup')
      | true => exact hleast other hlo hgroup'

theorem findPte_eq_none (hmmu : Accepted mmu) (ht : mmu.srT page.sr = false)
    (hfind : mmu.findPte memory page = none) {slot : ℕ} (hmem : slot ∈ mmu.candidates memory page) :
    mmu.Stray memory page slot := by
  rw [findPte_eq hmmu, Option.or_eq_none_iff, Option.map_eq_none_iff, Option.map_eq_none_iff] at hfind
  by_contra hwalk
  obtain ⟨h, hlo, hgroup⟩ := (not_stray_iff hmmu ht).mp ⟨hmem, hwalk⟩
  cases h with
  | false => exact firstInGroup_eq_none hfind.1 hgroup hlo
  | true => exact firstInGroup_eq_none hfind.2 hgroup hlo

theorem exists_mapped (hmmu : Accepted mmu) (hne : mmu.candidates memory page ≠ []) :
    ∃ l₁ slot l₂, mmu.candidates memory page = l₁ ++ slot :: l₂ ∧
      ((mmu.tableUpdated (mmu.tableInMemory memory) .cleared).pageMappings page).map
        (fun mapping => (mapping.rpn, mapping.priority)) =
          some (mmu.rpn memory slot, mmu.priority memory slot) ∧
      (∀ other ∈ mmu.candidates memory page,
        mmu.priority memory slot ≤ mmu.priority memory other) ∧
      ∀ other ∈ l₂, mmu.priority memory slot < mmu.priority memory other := by
  obtain ⟨l₁, slot, l₂, hsplit, hmerged, hbefore, hafter⟩ :=
    @merged_eq_some mmu (mmu.tableInMemory memory).slot _ page hne
  refine ⟨l₁, slot, l₂, hsplit, ?_, fun other hother => ?_, hafter⟩
  · rw [pageMappings_eq hmmu, hmerged]
    rfl
  · rw [hsplit] at hother
    rcases List.mem_append.mp hother with hother | hother
    · exact hbefore other hother
    · rcases List.mem_cons.mp hother with rfl | hother
      · exact le_rfl
      · exact (hafter other hother).le

theorem straysShadowed_of_agrees (hmmu : Accepted mmu) (ht : mmu.srT page.sr = false)
    (hagrees : mmu.Agrees memory page) : mmu.StraysShadowed memory page := by
  intro l₁' stray l₂' hsplit' hstray
  have hmem : stray ∈ mmu.candidates memory page := by
    rw [hsplit']
    exact List.mem_append_right _ List.mem_cons_self
  obtain ⟨l₁, slot, l₂, hsplit, hmapped, hleast, hafter⟩ := exists_mapped hmmu (List.ne_nil_of_mem hmem)
  rw [Agrees, hmapped, eq_comm, Option.map_eq_some_iff] at hagrees
  obtain ⟨r, hfind, heq⟩ := hagrees
  obtain ⟨other, hother, hwalk, rfl, -⟩ := findPte_eq_some hmmu ht hfind
  obtain ⟨hrpn, hprior⟩ := Prod.mk.inj heq
  refine ⟨other, hother, hwalk, ?_⟩
  rcases (hleast stray hmem).lt_or_eq with hlt | hsame
  · exact Or.inl (hprior.trans_lt hlt)
  · refine Or.inr ⟨hprior.trans hsame, slot, ?_, hsame, hrpn.symm⟩
    -- the entry that is mapped is not before the stray one
    rw [hsplit] at hsplit'
    rcases List.append_eq_append_iff.mp hsplit' with ⟨l, rfl, htail⟩ | ⟨l, rfl, htail⟩
    · cases l with
      | nil =>
        rw [List.nil_append, List.cons.injEq] at htail
        rw [htail.1]
        exact List.mem_cons_self
      | cons b l =>
        rw [List.cons_append, List.cons.injEq] at htail
        have hin : stray ∈ l₂ := by
          rw [htail.2]
          exact List.mem_append_right _ List.mem_cons_self
        exact absurd hsame (hafter stray hin).ne
    · rw [htail]
      exact List.mem_append_right _ List.mem_cons_self

theorem agrees_of_straysShadowed (hmmu : Accepted mmu) (ht : mmu.srT page.sr = false)
    (hshadowed : mmu.StraysShadowed memory page) : mmu.Agrees memory page := by
  unfold Agrees
  cases hfind : mmu.findPte memory page with
  | none =>
    -- an entry of the page would be stray, but not shadowed
    have hnil : mmu.candidates memory page = [] := by
      by_contra hne
      obtain ⟨slot, l, hsplit⟩ := List.exists_cons_of_ne_nil hne
      have hmem : slot ∈ mmu.candidates memory page := by
        rw [hsplit]
        exact List.mem_cons_self
      obtain ⟨other, hother, hwalk, -⟩ := hshadowed [] slot l hsplit
        (findPte_eq_none hmmu ht hfind hmem)
      exact hwalk (findPte_eq_none hmmu ht hfind hother)
    rw [pageMappings_eq hmmu, hnil]
    rfl
  | some r =>
    obtain ⟨first, hfirst, hwalk, rfl, hfirstLeast⟩ := findPte_eq_some hmmu ht hfind
    obtain ⟨l₁, slot, l₂, hsplit, hmapped, hleast, hafter⟩ := exists_mapped hmmu (List.ne_nil_of_mem hfirst)
    have hslot : slot ∈ mmu.candidates memory page := by
      rw [hsplit]
      exact List.mem_append_right _ List.mem_cons_self
    rw [hmapped, Option.map_some]
    by_cases hstray : mmu.Stray memory page slot
    · obtain ⟨other, hother, hwalk', hprior⟩ := hshadowed l₁ slot l₂ hsplit hstray
      rcases hprior with hlt | ⟨hsame, last, hlast, hlastPrior, hrpn⟩
      · exact absurd (hleast other hother) (not_le.mpr hlt)
      · -- the last entry with this priority number is the one that is mapped
        obtain rfl : last = slot := by
          rcases List.mem_cons.mp hlast with heq | hin
          · exact heq
          · exact absurd hlastPrior (hafter last hin).ne'
        have hfirstEq : mmu.priority memory first = mmu.priority memory other :=
          le_antisymm (hfirstLeast other hother hwalk') (hsame.le.trans (hleast first hfirst))
        rw [eq_of_priority_eq hwalk hwalk' hfirstEq, hrpn, hsame]
        rfl
    · have hsame : mmu.priority memory slot = mmu.priority memory first :=
        le_antisymm (hleast first hfirst) (hfirstLeast slot hslot hstray)
      rw [eq_of_priority_eq hstray hwalk hsame]
      rfl

/-- **When the scan agrees with the walk.** For every page whose segment is not a direct-store one, the
mapping of the page is that of the entry the walk finds iff each stray entry is shadowed. -/
theorem scan_agrees_iff (mmu : Mmu) (sdr : BitVec 32) (memory : Words) (page : LogicalPage)
    (ht : mmu.srT page.sr = false) :
    (mmu.sdrUpdated sdr).Agrees memory page ↔ (mmu.sdrUpdated sdr).StraysShadowed memory page := by
  have hmmu := accepted_sdrUpdated mmu sdr
  have ht : (mmu.sdrUpdated sdr).srT page.sr = false := by
    rw [srT, sdrUpdated_sr]
    exact ht
  exact ⟨straysShadowed_of_agrees hmmu ht, agrees_of_straysShadowed hmmu ht⟩

theorem group_lt (hmmu : Accepted mmu) {group : ℕ}
    (hgroup : group ∈ mmu.groups mmu.tableSize.toNat) : group < 2 ^ 26 := by
  have hlt := offsetMask_lt hmmu
  rw [groups, List.mem_flatMap] at hgroup
  obtain ⟨a, ha, hrange⟩ := hgroup
  have hsize := (List.mem_filter.mp ha).1
  rw [List.mem_range, tableSize_eq hmmu, pageTableMinSize] at hsize
  rw [List.mem_range'_1] at hrange
  omega

theorem mask_of_group (hmmu : Accepted mmu) {group : ℕ}
    (hgroup : group ∈ mmu.groups mmu.tableSize.toNat) {i : ℕ} (h10 : 10 ≤ i)
    (hi : (BitVec.ofNat 32 group).getLsbD i = true) : mmu.offsetMask.getLsbD (6 + i) = true := by
  have hgroup26 := group_lt hmmu hgroup
  rw [groups, List.mem_flatMap] at hgroup
  obtain ⟨a, ha, hrange⟩ := hgroup
  have hvisits := (List.mem_filter.mp ha).2
  rw [List.mem_range'_1] at hrange
  obtain ⟨hmask, hbase⟩ : mmu.Visits (a * pageTableMinSize) := of_decide_eq_true hvisits
  -- the bit in the offset of the group
  have hbit : (BitVec.ofNat 32 (a * pageTableMinSize)).getLsbD (6 + i) = true := by
    have hi32 := BitVec.lt_of_getLsbD hi
    have ha' : a = group / 2 ^ 10 := by omega
    rw [BitVec.getLsbD_ofNat, Bool.and_eq_true] at hi
    have hshift : group.testBit i = a.testBit (i - 10) := by
      rw [ha', Nat.testBit_div_two_pow, Nat.sub_add_cancel h10]
    have hi26 : i < 26 := by
      by_contra hge
      have hfalse := Nat.testBit_lt_two_pow (hgroup26.trans_le (Nat.pow_le_pow_right (by decide)
        (not_lt.mp hge)))
      rw [hfalse] at hi
      exact absurd hi.2 (by decide)
    have hsub : 6 + i - 16 = i - 10 := by omega
    rw [BitVec.getLsbD_ofNat, Bool.and_eq_true, decide_eq_true_eq]
    refine ⟨by omega, ?_⟩
    have hpow : a * pageTableMinSize = 2 ^ 16 * a := Nat.mul_comm _ _
    rw [hpow, Nat.testBit_two_pow_mul, hsub, ← hshift, hi.2, Bool.and_true, decide_eq_true_eq]
    omega
  have hmaskBit := congrArg (fun x : BitVec 32 => x.getLsbD (6 + i)) hmask
  have hbaseBit : (BitVec.ofNat 32 (a * pageTableMinSize) &&& mmu.pagetableBase).getLsbD (6 + i) =
      (0#32).getLsbD (6 + i) := congrArg (fun x : BitVec 32 => x.getLsbD (6 + i)) hbase
  rw [BitVec.getLsbD_and, hbit, Bool.true_and] at hbaseBit
  simp only [BitVec.getLsbD_and, hbit, Bool.true_and] at hmaskBit
  have h32 := BitVec.lt_of_getLsbD hbit
  rw [offsetMask, BitVec.getLsbD_and, BitVec.getLsbD_not, hmaskBit, hbaseBit, BitVec.getLsbD_zero,
    decide_eq_true h32]
  rfl

/-- **Without the upper three bits of HTABMASK no entry is stray**: the bits of the group are all
compared. -/
theorem not_stray_of_small (hmmu : Accepted mmu)
    (hsmall : ∀ i, 22 ≤ i → mmu.offsetMask.getLsbD i = false) {slot : ℕ}
    (hmem : slot ∈ mmu.candidates memory page) : ¬mmu.Stray memory page slot := by
  obtain ⟨hslots, hv, hadds⟩ := mem_candidates.mp hmem
  have hlo := lo_of_adds hv hadds
  rw [slots, List.mem_flatMap] at hslots
  obtain ⟨group, hgroup, hrange⟩ := hslots
  rw [List.mem_range'_1] at hrange
  obtain rfl : group = slot / 8 := by omega
  have hindex := hadds.1
  rw [hlo, getPageIndex_eq_some_iff] at hindex
  obtain ⟨hlow, hapi⟩ := hindex
  rw [Stray, not_not]
  generalize ((mmu.tableInMemory memory).slot slot).lo.h = h at hlow hapi ⊢
  have hsize : slot / 8 < 2 ^ 26 := group_lt hmmu hgroup
  have heq : BitVec.ofNat 32 (slot / 8) = mmu.walkOffset page h >>> 6 := by
    refine BitVec.eq_of_getLsbD_eq fun i hi => ?_
    by_cases h26 : i < 26
    · rw [walkHash_getLsbD h26]
      by_cases h10 : i < 10
      · rw [hlow i h10, offsetMask_mid hmmu h10, Bool.and_true]
      · -- a bit that the table does not have is zero on both sides
        cases hmask : mmu.offsetMask.getLsbD (6 + i) with
        | false =>
          rw [Bool.and_false]
          by_contra hbit
          rw [mask_of_group hmmu hgroup (by omega) (Bool.eq_true_of_not_eq_false hbit)] at hmask
          cases hmask
        | true =>
          have h16 : i < 16 := by
            by_contra hge
            rw [hsmall _ (by omega)] at hmask
            cases hmask
          have hsum : 10 + (i - 10) = i := by omega
          have hsum' : 16 + (i - 10) = 6 + i := by omega
          have hbit := hapi (i - 10) (by omega) (by rw [hsum']; exact hmask)
          rw [hsum] at hbit
          rw [hbit, Bool.and_true]
    · have hfalse : ∀ x : BitVec 32, (x >>> 6).getLsbD i = false := fun x => by
        rw [BitVec.getLsbD_ushiftRight, BitVec.getLsbD_of_ge _ _ (by omega)]
      have hbig : (slot / 8).testBit i = false :=
        Nat.testBit_lt_two_pow (hsize.trans_le (Nat.pow_le_pow_right (by decide) (not_lt.mp h26)))
      rw [hfalse, BitVec.getLsbD_ofNat, hbig, Bool.and_false]
  have hnat := congrArg BitVec.toNat heq
  rw [← ofNat_walkGroup, BitVec.toNat_ofNat, BitVec.toNat_ofNat, Nat.mod_eq_of_lt (by omega)] at hnat
  have hwalk : mmu.walkGroup page h < 2 ^ 32 := by
    have hlt := (mmu.walkOffset page h).isLt
    unfold walkGroup
    omega
  rwa [Nat.mod_eq_of_lt hwalk] at hnat

/-- **With at most six bits in HTABMASK the scan agrees with the walk.** -/
theorem agrees_of_small (hmmu : Accepted mmu) (hsmall : ∀ i, 22 ≤ i → mmu.offsetMask.getLsbD i = false)
    (ht : mmu.srT page.sr = false) : mmu.Agrees memory page :=
  agrees_of_straysShadowed hmmu ht fun l₁ slot l₂ hsplit hstray =>
    absurd hstray (not_stray_of_small hmmu hsmall (by
      rw [hsplit]
      exact List.mem_append_right _ List.mem_cons_self))

/-- Registers with all segments alike. -/
def sampleMmu : Mmu where
  pagetableBase := 0
  pagetableMask := 0
  sr := fun _ => 0
  dbatMapped := fun _ => false
  overlapsMemcheck := fun _ => false

/-- Memory with one valid entry, of the first page, at `addr`. -/
def sampleMemory (addr : BitVec 32) : Words := fun a =>
  if a = addr then 0x80000000 else if a = addr + 4 then 0x1000 else 0

theorem scan_agrees_iff_sample :
    (sampleMmu.sdrUpdated 0).Agrees (sampleMemory 0) ⟨0, 0⟩ ↔
      (sampleMmu.sdrUpdated 0).StraysShadowed (sampleMemory 0) ⟨0, 0⟩ :=
  scan_agrees_iff sampleMmu 0 (sampleMemory 0) ⟨0, 0⟩ (by decide)

/-- With seven bits in HTABMASK, the entry is 4 MiB behind the group of the page. -/
theorem stray_mapped :
    ¬∀ (mmu : Mmu) (sdr : BitVec 32) (memory : Words) (page : LogicalPage), mmu.srT page.sr = false →
      (mmu.sdrUpdated sdr).Agrees memory page := by
  intro hall
  have hagrees := hall sampleMmu 0x7F (sampleMemory 0x400000) ⟨0, 0⟩ (by decide)
  have hmmu := accepted_sdrUpdated sampleMmu 0x7F
  have hnone : (sampleMmu.sdrUpdated 0x7F).findPte (sampleMemory 0x400000) ⟨0, 0⟩ = none := by
    decide +kernel
  have hgroup : 0x10000 ∈ (sampleMmu.sdrUpdated 0x7F).groups
      (sampleMmu.sdrUpdated 0x7F).tableSize.toNat := by
    rw [groups, List.mem_flatMap]
    exact ⟨64, List.mem_filter.mpr ⟨List.mem_range.mpr (by decide +kernel), by decide +kernel⟩,
      List.mem_range'_1.mpr (by decide)⟩
  have hmem : 0x80000 ∈ (sampleMmu.sdrUpdated 0x7F).candidates (sampleMemory 0x400000) ⟨0, 0⟩ := by
    refine mem_candidates.mpr ⟨?_, by decide +kernel, by decide +kernel⟩
    rw [slots, List.mem_flatMap]
    exact ⟨0x10000, hgroup, List.mem_range'_1.mpr (by decide)⟩
  obtain ⟨_, slot, _, -, hmapped, -⟩ := exists_mapped hmmu (List.ne_nil_of_mem hmem)
  rw [Agrees, hmapped, hnone] at hagrees
  cases hagrees

end Agreement

end PowerPC.Mmu
