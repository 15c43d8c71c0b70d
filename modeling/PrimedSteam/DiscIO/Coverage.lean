import PrimedSteam.DiscIO.DataEntries
import Mathlib.Data.List.Forall2

/-!
# What the data entries cover

* `rawRanges`, `partitionRanges`: the ranges that one call of `AddRawDataEntry` and one encoded
  partition add.
* `encodedPartitions`: the partitions that are encoded as such, selected from the headers alone.
* `setUpPartitions_covers`, `setUpPartitions_adds`: the loop over the partitions, when every encoded
  partition fits into the disc and in general.
* **`data_entries_exact_iff`**: the data entries cover the disc exactly, and no subtraction
  underflows, if and only if the data of each encoded partition begins after the disc header and
  its last whole block ends inside the disc.
-/

set_option autoImplicit false

namespace DiscIO

open Tiling

theorem sub64_of_le {a b : ℕ} (hb : b ≤ a) (ha : a < 2 ^ 64) : sub64 a b = a - b := by
  unfold sub64
  omega

theorem alignDown_blockTotalSize (x : ℕ) :
    alignDown x blockTotalSize = x / blockTotalSize * blockTotalSize := by
  unfold alignDown blockTotalSize
  omega

namespace SetUp

variable (chunkSize : ℕ)

/-- No subtraction so far has underflowed. -/
def NoUnderflow (st : SetUp) : Prop := ∀ s ∈ st.subtractions, s.2 ≤ s.1

instance (st : SetUp) : Decidable st.NoUnderflow := by unfold NoUnderflow; infer_instance

/-- The data entries stand for the ranges `rs`, in this order. -/
def HasRanges (st : SetUp) (rs : List Range) : Prop :=
  List.Forall₂ (fun e r => st.range? e = some r) st.dataEntries rs

theorem prefix_getElem?_eq_some {α : Type*} {l l' : List α} (h : l <+: l') {i : ℕ} {a : α}
    (ha : l[i]? = some a) : l'[i]? = some a := by
  obtain ⟨t, rfl⟩ := h
  have hi : i < l.length := (List.getElem?_eq_some_iff.mp ha).1
  rw [List.getElem?_append_left hi, ha]

theorem range?_mono {st st' : SetUp} (hraw : st.rawDataEntries <+: st'.rawDataEntries)
    (hpart : st.partitionEntries <+: st'.partitionEntries) {e : DataEntry} {r : Range}
    (h : st.range? e = some r) : st'.range? e = some r := by
  unfold range? at h ⊢
  by_cases he : e.isPartition
  · rw [if_pos he] at h ⊢
    obtain ⟨p, hp, rfl⟩ := Option.map_eq_some_iff.mp h
    rw [prefix_getElem?_eq_some hpart hp]
    rfl
  · rw [if_neg he] at h ⊢
    obtain ⟨p, hp, rfl⟩ := Option.map_eq_some_iff.mp h
    rw [prefix_getElem?_eq_some hraw hp]
    rfl

theorem HasRanges.with_subtractions {st : SetUp} {rs : List Range} (h : st.HasRanges rs)
    (subs : List (ℕ × ℕ)) : HasRanges { st with subtractions := subs } rs :=
  h

theorem range?_partition {st : SetUp} {n i : ℕ} {e : PartitionEntry}
    (h : st.partitionEntries[n]? = some e) :
    st.range? ⟨n, true, i⟩ = some (e.dataEntry i).range := by
  unfold range?
  rw [if_pos rfl, h]
  rfl

theorem HasRanges.extend {st st' : SetUp} {rs new : List Range} (h : st.HasRanges rs)
    (hraw : st.rawDataEntries <+: st'.rawDataEntries)
    (hpart : st.partitionEntries <+: st'.partitionEntries) {added : List DataEntry}
    (hdata : st'.dataEntries = st.dataEntries ++ added)
    (hnew : List.Forall₂ (fun e r => st'.range? e = some r) added new) :
    st'.HasRanges (rs ++ new) := by
  unfold HasRanges
  rw [hdata]
  exact List.rel_append (h.imp fun _ _ he => range?_mono hraw hpart he) hnew

theorem HasRanges.unique {st : SetUp} {rs rs' : List Range} (h : st.HasRanges rs)
    (h' : st.HasRanges rs') : rs = rs' := by
  unfold HasRanges at h h'
  generalize st.dataEntries = es at h h'
  induction h generalizing rs' with
  | nil => cases h'; rfl
  | cons hr _ ih =>
    cases h' with
    | cons hr' ht' => rw [ih ht', Option.some.inj (hr.symm.trans hr')]

/-! ## Raw data -/

/-- The range that `AddRawDataEntry` adds, if it adds one. -/
def rawRanges (offset size : ℕ) : List Range :=
  let skip := headerSkip offset size
  let rest := sub64 size skip
  if rest = 0 then [] else [(offset + skip, offset + skip + rest)]

theorem HasRanges.addRawDataEntry {st : SetUp} {rs : List Range} (h : st.HasRanges rs)
    (offset size : ℕ) :
    (addRawDataEntry chunkSize st offset size).HasRanges (rs ++ rawRanges offset size) := by
  unfold SetUp.addRawDataEntry rawRanges
  dsimp only
  by_cases hrest : sub64 size (headerSkip offset size) = 0
  · rw [if_pos hrest, if_pos hrest, List.append_nil]
    exact h
  · rw [if_neg hrest, if_neg hrest]
    refine h.extend (List.prefix_append _ _) List.prefix_rfl rfl (.cons ?_ .nil)
    simp [range?, RawDataEntry.range]

theorem headerSkip_le (offset size : ℕ) : headerSkip offset size ≤ size := by
  unfold headerSkip
  split
  · exact min_le_right _ _
  · exact Nat.zero_le _

/-- The raw ranges go on from the disc header, or from where they start behind it. -/
theorem rawRanges_tiles (offset size : ℕ) (h : offset + size < 2 ^ 64) :
    Tiles (max skipSize offset) (max skipSize (offset + size)) (rawRanges offset size) := by
  have hskip : headerSkip offset size = min (skipSize - offset) size := by
    unfold headerSkip
    by_cases ho : offset < skipSize
    · rw [if_pos ho, sub64_of_le ho.le (by unfold skipSize; omega)]
    · rw [if_neg ho]
      omega
  unfold rawRanges
  dsimp only
  rw [sub64_of_le (headerSkip_le offset size) (by omega), hskip]
  by_cases hrest : size - min (skipSize - offset) size = 0
  · rw [if_pos hrest]
    show max skipSize offset = max skipSize (offset + size)
    omega
  · rw [if_neg hrest]
    refine ⟨?_, ?_, ?_⟩
    · show offset + min (skipSize - offset) size = max skipSize offset
      omega
    · exact Nat.le_add_right _ _
    · show offset + min (skipSize - offset) size + (size - min (skipSize - offset) size) =
        max skipSize (offset + size)
      omega

theorem NoUnderflow.append {st : SetUp} (h : st.NoUnderflow) {subs : List (ℕ × ℕ)}
    (hsubs : ∀ s ∈ subs, s.2 ≤ s.1) :
    NoUnderflow { st with subtractions := st.subtractions ++ subs } := by
  intro s hs
  rcases List.mem_append.mp hs with hs | hs
  · exact h s hs
  · exact hsubs s hs

theorem NoUnderflow.addRawDataEntry {st : SetUp} (h : st.NoUnderflow) (offset size : ℕ) :
    (addRawDataEntry chunkSize st offset size).NoUnderflow := by
  have hsubs : ∀ s ∈ (if offset < skipSize then [(skipSize, offset)] else []) ++
      [(size, headerSkip offset size)], s.2 ≤ s.1 := by
    intro s hs
    rcases List.mem_append.mp hs with hs | hs
    · by_cases ho : offset < skipSize
      · rw [if_pos ho, List.mem_singleton] at hs
        rw [hs]
        exact ho.le
      · rw [if_neg ho] at hs
        exact absurd hs List.not_mem_nil
    · rw [List.mem_singleton.mp hs]
      exact headerSkip_le offset size
  have hall := h.append hsubs
  unfold SetUp.addRawDataEntry
  dsimp only
  split <;> exact hall

/-! ## Partitions -/

/-- The two ranges of an encoded partition whose data is divided at `split`. -/
def partitionRanges (dataStart split dataEnd : ℕ) : List Range :=
  [(dataStart, alignDown split blockTotalSize),
    (alignDown split blockTotalSize, alignDown dataEnd blockTotalSize)]

/-- The ranges that an encoded partition adds, with the raw data before it. -/
def encodedRanges (last partition dataOffset dataEnd fstEnd : ℕ) : List Range :=
  rawRanges last (partition - last) ++ rawRanges partition dataOffset ++
    partitionRanges (partition + dataOffset)
      (splitPoint (partition + dataOffset) dataEnd fstEnd) dataEnd

/-- What the loop body knows of a partition that it encodes. -/
structure Encodes (partition dataOffset dataEnd fstEnd : ℕ) : Prop where
  partition_lt : partition < 2 ^ 34
  aligned : (partition + dataOffset) % blockTotalSize = 0
  size_le : partition + dataOffset + blockTotalSize ≤ dataEnd
  dataEnd_lt : dataEnd < 2 ^ 36
  fstEnd_le : partition + dataOffset ≤ fstEnd
  fstEnd_lt : fstEnd < 2 ^ 40

section Encode

variable {partition dataOffset dataEnd fstEnd : ℕ}

theorem Encodes.splitPoint_spec (h : Encodes partition dataOffset dataEnd fstEnd) :
    let split := splitPoint (partition + dataOffset) dataEnd fstEnd
    partition + dataOffset ≤ split ∧ split ≤ dataEnd ∧
      (split = dataEnd ∨ split % blockTotalSize = 0) := by
  obtain ⟨-, halign, hsize, hend, hfst, hfstlt⟩ := h
  unfold splitPoint
  rw [sub64_of_le hfst (by omega)]
  generalize partition + dataOffset = dataStart at *
  unfold alignUp alignDown groupTotalSize
  unfold blockTotalSize at *
  dsimp only
  omega

theorem Encodes.partitionRanges_tiles (h : Encodes partition dataOffset dataEnd fstEnd) :
    Tiles (partition + dataOffset) (alignDown dataEnd blockTotalSize)
      (partitionRanges (partition + dataOffset)
        (splitPoint (partition + dataOffset) dataEnd fstEnd) dataEnd) := by
  obtain ⟨hle, hge, -⟩ := h.splitPoint_spec
  have halign := h.aligned
  generalize splitPoint (partition + dataOffset) dataEnd fstEnd = split at *
  generalize partition + dataOffset = dataStart at *
  unfold partitionRanges
  unfold alignDown blockTotalSize at *
  exact ⟨rfl, by dsimp only; omega, rfl, by dsimp only; omega, rfl⟩

theorem Encodes.encodedRanges_tiles (h : Encodes partition dataOffset dataEnd fstEnd) {last : ℕ}
    (hlast : last ≤ partition) (hstart : partition + dataOffset ≠ 0) :
    Tiles (max skipSize last) (max skipSize (alignDown dataEnd blockTotalSize))
      (encodedRanges last partition dataOffset dataEnd fstEnd) := by
  have hgap := rawRanges_tiles last (partition - last) (by have := h.partition_lt; omega)
  have hhead := rawRanges_tiles partition dataOffset
    (by have := h.size_le; have := h.dataEnd_lt; omega)
  have hdata := h.partitionRanges_tiles
  have hle := hdata.le
  have halign := h.aligned
  have hbig : skipSize ≤ partition + dataOffset := by
    unfold skipSize blockTotalSize at *
    omega
  rw [Nat.add_sub_cancel' hlast] at hgap
  rw [Nat.max_eq_right hbig] at hhead
  rw [Nat.max_eq_right (hbig.trans hle)]
  exact (hgap.append hhead).append hdata

theorem Encodes.copies_pos (h : Encodes partition dataOffset dataEnd fstEnd) (last : ℕ) {x : ℕ}
    (hx : partition + dataOffset ≤ x ∧ x < alignDown dataEnd blockTotalSize) :
    0 < copies (encodedRanges last partition dataOffset dataEnd fstEnd) x := by
  have hdata := h.partitionRanges_tiles.copies_eq x
  rw [if_pos hx] at hdata
  unfold encodedRanges
  rw [copies_append, hdata]
  omega

theorem createPartitionDataEntry_range (st : SetUp) {offset size : ℕ} (index : ℕ)
    (ho : offset < 2 ^ 40) (hs : size < 2 ^ 40) :
    (createPartitionDataEntry chunkSize st offset size index).1.range =
      (alignDown offset blockTotalSize,
        alignDown offset blockTotalSize + alignDown size blockTotalSize) := by
  rw [alignDown_blockTotalSize, alignDown_blockTotalSize]
  unfold createPartitionDataEntry PartitionDataEntry.range toU32 blockTotalSize
  dsimp only
  rw [Nat.mod_eq_of_lt (a := offset / 0x8000) (by omega),
    Nat.mod_eq_of_lt (a := size / 0x8000) (by omega)]

/-- **What encoding a partition adds.** -/
theorem HasRanges.encodePartition {st : SetUp} {rs : List Range} (h : st.HasRanges rs)
    (he : Encodes partition dataOffset dataEnd fstEnd) (key : BitVec 128)
    (hlast : st.lastPartitionEndOffset ≤ partition) :
    (encodePartition chunkSize st partition dataOffset dataEnd fstEnd key).HasRanges
      (rs ++ encodedRanges st.lastPartitionEndOffset partition dataOffset dataEnd fstEnd) := by
  obtain ⟨hle, hge, hsplits⟩ := he.splitPoint_spec
  obtain ⟨hplt, halign, -, helt, -, -⟩ := he
  have hraw := (h.addRawDataEntry chunkSize st.lastPartitionEndOffset
    (partition - st.lastPartitionEndOffset)).addRawDataEntry chunkSize partition dataOffset
  unfold SetUp.encodePartition encodedRanges partitionRanges
  dsimp only
  generalize splitPoint (partition + dataOffset) dataEnd fstEnd = split at *
  rw [sub64_of_le hlast (by omega), sub64_of_le hle (by omega), sub64_of_le hge (by omega),
    ← List.append_assoc, ← List.append_assoc]
  refine hraw.extend List.prefix_rfl (List.prefix_append _ _) (List.append_assoc _ _ _) ?_
  have hsplit : alignDown (partition + dataOffset) blockTotalSize +
      alignDown (split - (partition + dataOffset)) blockTotalSize =
        alignDown split blockTotalSize := by
    generalize partition + dataOffset = dataStart at *
    unfold alignDown blockTotalSize at *
    omega
  have hend : alignDown split blockTotalSize + alignDown (dataEnd - split) blockTotalSize =
      alignDown dataEnd blockTotalSize := by
    unfold alignDown blockTotalSize at *
    omega
  have hstart : alignDown (partition + dataOffset) blockTotalSize = partition + dataOffset := by
    unfold alignDown
    omega
  refine .cons ((range?_partition List.getElem?_concat_length).trans (congrArg some ?_))
    (.cons ((range?_partition List.getElem?_concat_length).trans (congrArg some ?_)) .nil)
  · refine (createPartitionDataEntry_range chunkSize _ 0 (by omega) (by omega)).trans ?_
    rw [hsplit, hstart]
  · refine (createPartitionDataEntry_range chunkSize _ 1 (by omega) (by omega)).trans ?_
    rw [hend]

/-- The next entry starts where the last whole block of the partition ends. -/
theorem Encodes.lastPartitionEndOffset_eq (he : Encodes partition dataOffset dataEnd fstEnd)
    (st : SetUp) (key : BitVec 128) :
    (encodePartition chunkSize st partition dataOffset dataEnd fstEnd key).lastPartitionEndOffset =
      alignDown dataEnd blockTotalSize := by
  obtain ⟨hle, hge, hsplit⟩ := he.splitPoint_spec
  obtain ⟨-, -, -, helt, -, -⟩ := he
  unfold encodePartition createPartitionDataEntry
  dsimp only
  generalize splitPoint (partition + dataOffset) dataEnd fstEnd = split at *
  rw [sub64_of_le hge (by omega)]
  unfold alignDown toU32
  unfold blockTotalSize at *
  omega

theorem NoUnderflow.encodePartition {st : SetUp} (h : st.NoUnderflow)
    (he : Encodes partition dataOffset dataEnd fstEnd) (key : BitVec 128)
    (hlast : st.lastPartitionEndOffset ≤ partition) :
    (encodePartition chunkSize st partition dataOffset dataEnd fstEnd key).NoUnderflow := by
  obtain ⟨hle, hge, -⟩ := he.splitPoint_spec
  refine NoUnderflow.append ((h.addRawDataEntry chunkSize _ _).addRawDataEntry chunkSize _ _) ?_
  intro s hs
  simp only [List.mem_cons, List.not_mem_nil, or_false] at hs
  rcases hs with rfl | rfl | rfl | rfl
  · exact hlast
  · exact he.fstEnd_le
  · exact hle
  · exact hge

end Encode

@[simp] theorem correctDataSize_lastPartitionEndOffset (st : SetUp)
    (isoSize partition dataOffset dataEnd : ℕ) :
    (st.correctDataSize isoSize partition dataOffset dataEnd).lastPartitionEndOffset =
      st.lastPartitionEndOffset := by
  unfold correctDataSize
  split <;> rfl

theorem HasRanges.correctDataSize {st : SetUp} {rs : List Range} (h : st.HasRanges rs)
    (isoSize partition dataOffset dataEnd : ℕ) :
    (st.correctDataSize isoSize partition dataOffset dataEnd).HasRanges rs := by
  unfold SetUp.correctDataSize
  split <;> exact h

theorem NoUnderflow.correctDataSize {st : SetUp} (h : st.NoUnderflow)
    {isoSize partition dataOffset : ℕ} (dataEnd : ℕ) (hle : partition + dataOffset ≤ isoSize)
    (hiso : isoSize < 2 ^ 64) :
    (st.correctDataSize isoSize partition dataOffset dataEnd).NoUnderflow := by
  unfold SetUp.correctDataSize
  by_cases hlarge : dataEnd > isoSize
  · rw [if_pos hlarge, sub64_of_le (by omega) hiso]
    refine h.append fun s hs => ?_
    simp only [List.mem_cons, List.not_mem_nil, or_false] at hs
    rcases hs with rfl | rfl
    · exact (Nat.le_add_left _ _).trans hle
    · exact Nat.le_sub_of_add_le hle
  · rw [if_neg hlarge]
    exact h

end SetUp

open SetUp

/-! ## The loop over the partitions -/

namespace Volume

variable (v : Volume)

def dataStart (partition : ℕ) : ℕ := partition + v.partitionDataOffset partition

def dataEnd (partition : ℕ) : ℕ :=
  v.dataStart partition + (v.readSwappedAndShifted (partition + 0x2bc)).getD 0

/-- The header is that of a partition whose data is aligned and holds at least one block. -/
def WellFormed (partition : ℕ) : Prop :=
  v.readSwapped partition = some 0x10001#32 ∧ v.dataStart partition % blockTotalSize = 0 ∧
    v.dataStart partition + blockTotalSize ≤ v.dataEnd partition

instance (partition : ℕ) : Decidable (v.WellFormed partition) := by
  unfold WellFormed; infer_instance

/-- The partitions that are encoded as such: the well-formed ones that do not begin before the last
whole block of the one encoded before them, which ends at `last`. -/
def encodedPartitions : ℕ → List ℕ → List ℕ
  | _, [] => []
  | last, partition :: partitions =>
    if last ≤ partition ∧ v.WellFormed partition then
      partition :: encodedPartitions (alignDown (v.dataEnd partition) blockTotalSize) partitions
    else encodedPartitions last partitions

theorem wellFormed_of_encoded {last : ℕ} {partitions : List ℕ} {p : ℕ}
    (h : p ∈ v.encodedPartitions last partitions) : v.WellFormed p := by
  induction partitions generalizing last with
  | nil => exact absurd h List.not_mem_nil
  | cons q qs ih =>
    unfold encodedPartitions at h
    by_cases hq : last ≤ q ∧ v.WellFormed q
    · rw [if_pos hq] at h
      rcases List.mem_cons.mp h with rfl | h
      · exact hq.2
      · exact ih h
    · rw [if_neg hq] at h
      exact ih h

theorem readSwappedAndShifted_lt {offset x : ℕ} (h : v.readSwappedAndShifted offset = some x) :
    x < 2 ^ 34 := by
  obtain ⟨w, -, rfl⟩ := Option.map_eq_some_iff.mp h
  have := w.isLt
  omega

theorem getPartitions_lt : ∀ partition ∈ v.getPartitions, partition < 2 ^ 34 := by
  intro partition h
  unfold getPartitions at h
  rw [List.mem_insertionSort, List.mem_dedup, List.mem_flatMap] at h
  obtain ⟨group, -, h⟩ := h
  unfold partitionGroup at h
  split at h
  · obtain ⟨i, -, h⟩ := List.mem_filterMap.mp h
    unfold partitionTableEntry at h
    obtain ⟨offset, hoffset, h⟩ := Option.bind_eq_some_iff.mp h
    obtain ⟨_, -, h⟩ := Option.bind_eq_some_iff.mp h
    cases h
    exact v.readSwappedAndShifted_lt hoffset
  · exact absurd h List.not_mem_nil

end Volume

section Loop

variable {v : Volume} {chunkSize isoSize : ℕ}

/-- **What one iteration does**: it leaves everything as it is, or it encodes the partition. -/
theorem setUpPartition_cases {st st' : SetUp} {partition : ℕ}
    (h : setUpPartition v chunkSize isoSize st partition = .ok st') (hp : partition < 2 ^ 34) :
    (¬ (st.lastPartitionEndOffset ≤ partition ∧ v.WellFormed partition) ∧ st' = st) ∨
    (st.lastPartitionEndOffset ≤ partition ∧ v.WellFormed partition ∧ ∃ fstEnd key,
      Encodes partition (v.partitionDataOffset partition) (v.dataEnd partition) fstEnd ∧
      st' = encodePartition chunkSize
        (st.correctDataSize isoSize partition (v.partitionDataOffset partition)
          (v.dataEnd partition))
        partition (v.partitionDataOffset partition) (v.dataEnd partition) fstEnd key) := by
  unfold setUpPartition at h
  by_cases hlast : partition < st.lastPartitionEndOffset
  · rw [if_pos hlast] at h
    cases h
    exact Or.inl ⟨fun hc => absurd hc.1 (by omega), rfl⟩
  rw [if_neg hlast] at h
  by_cases hmagic : v.readSwapped partition = some 0x10001#32
  swap
  · rw [if_pos hmagic] at h
    cases h
    exact Or.inl ⟨fun hc => hmagic hc.2.1, rfl⟩
  rw [if_neg (not_not.mpr hmagic)] at h
  split at h
  swap
  · cases h
  next dataOffset dataSize hoffset hsize =>
  have hdo : v.partitionDataOffset partition = dataOffset := by
    unfold Volume.partitionDataOffset
    rw [hoffset, Option.getD_some]
  have hde : v.dataEnd partition = partition + dataOffset + dataSize := by
    unfold Volume.dataEnd Volume.dataStart
    rw [hdo, hsize, Option.getD_some]
  have holt := v.readSwappedAndShifted_lt hoffset
  have hslt := v.readSwappedAndShifted_lt hsize
  dsimp only at h
  by_cases halign : (partition + dataOffset) % blockTotalSize = 0
  swap
  · rw [if_pos halign] at h
    cases h
    refine Or.inl ⟨fun hc => halign ?_, rfl⟩
    have := hc.2.2.1
    rwa [Volume.dataStart, hdo] at this
  rw [if_neg (not_not.mpr halign)] at h
  by_cases hsmall : dataSize < blockTotalSize
  · rw [if_pos hsmall] at h
    cases h
    refine Or.inl ⟨fun hc => ?_, rfl⟩
    have := hc.2.2.2
    rw [Volume.dataStart, hdo, hde] at this
    omega
  rw [if_neg hsmall] at h
  split at h
  swap
  · cases h
  next fstOffset fstSize key hfo hfs hkey =>
  obtain ⟨fo, -, rfl⟩ := Option.map_eq_some_iff.mp hfo
  obtain ⟨fs, -, rfl⟩ := Option.map_eq_some_iff.mp hfs
  have hfolt := fo.isLt
  have hfslt := fs.isLt
  cases h
  refine Or.inr ⟨by omega, ⟨hmagic, ?_, ?_⟩,
    v.partitionOffsetToRawOffset (fo.toNat * 4 + fs.toNat * 4) partition, key,
    ⟨hp, ?_, ?_, ?_, ?_, ?_⟩, ?_⟩
  · rwa [Volume.dataStart, hdo]
  · rw [Volume.dataStart, hdo, hde]
    omega
  · rwa [hdo]
  · rw [hdo, hde]
    omega
  · omega
  · unfold Volume.partitionOffsetToRawOffset
    omega
  · unfold Volume.partitionOffsetToRawOffset blockDataSize blockTotalSize
    omega
  · rw [hdo, hde]

/-- The ranges so far cover the disc from its header to the running end offset, without an
underflow. -/
structure Covers (isoSize : ℕ) (st : SetUp) : Prop where
  ranges : ∃ rs, st.HasRanges rs ∧ Tiles skipSize (max skipSize st.lastPartitionEndOffset) rs
  noUnderflow : st.NoUnderflow
  last_le : st.lastPartitionEndOffset ≤ isoSize

theorem covers_empty (isoSize : ℕ) : Covers isoSize .empty where
  ranges := ⟨[], .nil, rfl⟩
  noUnderflow := fun _ h => absurd h List.not_mem_nil
  last_le := Nat.zero_le _

theorem Covers.encodePartition {st : SetUp} (h : Covers isoSize st)
    {partition dataOffset dataEnd fstEnd : ℕ}
    (he : Encodes partition dataOffset dataEnd fstEnd) (key : BitVec 128)
    (hlast : st.lastPartitionEndOffset ≤ partition) (hstart : partition + dataOffset ≠ 0)
    (hend : alignDown dataEnd blockTotalSize ≤ isoSize) (hiso : isoSize < 2 ^ 64) :
    Covers isoSize (SetUp.encodePartition chunkSize
      (st.correctDataSize isoSize partition dataOffset dataEnd)
      partition dataOffset dataEnd fstEnd key) := by
  obtain ⟨rs, hrs, htiles⟩ := h.ranges
  have hle := he.partitionRanges_tiles.le.trans hend
  have heq := st.correctDataSize_lastPartitionEndOffset isoSize partition dataOffset dataEnd
  have hrs₁ := hrs.correctDataSize isoSize partition dataOffset dataEnd
  have hno₁ := h.noUnderflow.correctDataSize dataEnd hle hiso
  generalize st.correctDataSize isoSize partition dataOffset dataEnd = st₁ at *
  rw [← heq] at hlast htiles
  refine ⟨⟨_, hrs₁.encodePartition chunkSize he key hlast, ?_⟩,
    hno₁.encodePartition chunkSize he key hlast, ?_⟩
  · rw [he.lastPartitionEndOffset_eq]
    exact htiles.append (he.encodedRanges_tiles hlast hstart)
  · rw [he.lastPartitionEndOffset_eq]
    exact hend

/-- **When every encoded partition fits, the loop covers the disc up to the last of them.** -/
theorem setUpPartitions_covers (hiso : isoSize < 2 ^ 64) {partitions : List ℕ} {st st' : SetUp}
    (h : setUpPartitions v chunkSize isoSize partitions st = .ok st')
    (hlt : ∀ p ∈ partitions, p < 2 ^ 34)
    (hfit : ∀ p ∈ v.encodedPartitions st.lastPartitionEndOffset partitions,
      v.dataStart p ≠ 0 ∧ alignDown (v.dataEnd p) blockTotalSize ≤ isoSize)
    (hst : Covers isoSize st) : Covers isoSize st' := by
  induction partitions generalizing st with
  | nil => cases h; exact hst
  | cons p ps ih =>
    unfold setUpPartitions at h
    split at h
    swap
    · cases h
    next st₁ h₁ =>
    have hps : ∀ q ∈ ps, q < 2 ^ 34 := fun q hq => hlt q (List.mem_cons_of_mem p hq)
    unfold Volume.encodedPartitions at hfit
    rcases setUpPartition_cases h₁ (hlt p List.mem_cons_self) with
      ⟨hskip, rfl⟩ | ⟨hlast, hwf, fstEnd, key, he, rfl⟩
    · rw [if_neg hskip] at hfit
      exact ih h hps hfit hst
    · rw [if_pos ⟨hlast, hwf⟩] at hfit
      obtain ⟨hstart, hend⟩ := hfit p List.mem_cons_self
      refine ih h hps ?_ (hst.encodePartition he key hlast hstart hend hiso)
      rw [he.lastPartitionEndOffset_eq]
      exact fun q hq => hfit q (List.mem_cons_of_mem p hq)

/-- **The loop adds the whole blocks of every encoded partition.** -/
theorem setUpPartitions_adds {partitions : List ℕ} {st st' : SetUp}
    (h : setUpPartitions v chunkSize isoSize partitions st = .ok st')
    (hlt : ∀ p ∈ partitions, p < 2 ^ 34) {rs : List Range} (hrs : st.HasRanges rs) :
    ∃ new, st'.HasRanges (rs ++ new) ∧
      ∀ p ∈ v.encodedPartitions st.lastPartitionEndOffset partitions, ∀ x,
        v.dataStart p ≤ x ∧ x < alignDown (v.dataEnd p) blockTotalSize → 0 < copies new x := by
  induction partitions generalizing st rs with
  | nil =>
    cases h
    exact ⟨[], by rwa [List.append_nil], fun p hp => absurd hp List.not_mem_nil⟩
  | cons p ps ih =>
    unfold setUpPartitions at h
    split at h
    swap
    · cases h
    next st₁ h₁ =>
    have hps : ∀ q ∈ ps, q < 2 ^ 34 := fun q hq => hlt q (List.mem_cons_of_mem p hq)
    unfold Volume.encodedPartitions
    rcases setUpPartition_cases h₁ (hlt p List.mem_cons_self) with
      ⟨hskip, rfl⟩ | ⟨hlast, hwf, fstEnd, key, he, rfl⟩
    · rw [if_neg hskip]
      exact ih h hps hrs
    · rw [if_pos ⟨hlast, hwf⟩]
      have hrs₁ := hrs.correctDataSize isoSize p (v.partitionDataOffset p) (v.dataEnd p)
      obtain ⟨new, hnew, hall⟩ :=
        ih h hps (hrs₁.encodePartition chunkSize he key (by simpa using hlast))
      rw [List.append_assoc] at hnew
      refine ⟨_, hnew, fun q hq x hx => ?_⟩
      rw [copies_append]
      rcases List.mem_cons.mp hq with rfl | hq
      · exact Nat.add_pos_left (he.copies_pos _ hx) _
      · rw [he.lastPartitionEndOffset_eq] at hall
        exact Nat.add_pos_right _ (hall q hq x hx)

end Loop

/-! ## The whole disc -/

theorem partitionsForWriting_lt (volume : Option Volume) :
    ∀ p ∈ partitionsForWriting volume, p < 2 ^ 34 := by
  unfold partitionsForWriting
  split
  · next v =>
    split
    · intro p hp
      exact v.getPartitions_lt p ((List.mem_insertionSort _).mp hp)
    · exact fun p hp => absurd hp List.not_mem_nil
  · exact fun p hp => absurd hp List.not_mem_nil

theorem Covers.setUpRest {isoSize : ℕ} {st : SetUp} (h : Covers isoSize st) (chunkSize : ℕ)
    (hheader : skipSize < isoSize) (hiso : isoSize < 2 ^ 64) :
    (∃ rs, (setUpRest chunkSize isoSize st).HasRanges rs ∧ ExactCover skipSize isoSize rs) ∧
      (setUpRest chunkSize isoSize st).NoUnderflow := by
  obtain ⟨rs, hrs, htiles⟩ := h.ranges
  have hle := h.last_le
  have hrest := rawRanges_tiles st.lastPartitionEndOffset (isoSize - st.lastPartitionEndOffset)
    (by omega)
  rw [Nat.add_sub_cancel' hle, Nat.max_eq_right hheader.le] at hrest
  unfold DiscIO.setUpRest
  rw [sub64_of_le hle hiso]
  have hno : NoUnderflow { st with
      subtractions := st.subtractions ++ [(isoSize, st.lastPartitionEndOffset)] } :=
    h.noUnderflow.append fun s hs => by rw [List.mem_singleton.mp hs]; exact hle
  refine ⟨⟨_, (hrs.with_subtractions _).addRawDataEntry chunkSize _ _, ?_⟩, hno.addRawDataEntry chunkSize _ _⟩
  exact (htiles.append hrest).exactCover

/-- **When the data entries cover the disc exactly.** They hold each byte from the end of the disc
header to the end of the disc once and in order, and no other byte, and no `u64` subtraction
underflows on the way, if and only if the data of each partition that is encoded begins after the
disc header and its last whole block ends inside the disc. -/
theorem data_entries_exact_iff {volume : Option Volume} {chunkSize isoSize : ℕ} {st : SetUp}
    (hheader : skipSize < isoSize) (hiso : isoSize < 2 ^ 64)
    (h : setUpDataEntriesForWriting volume chunkSize isoSize = .ok st) :
    ((∃ rs, st.HasRanges rs ∧ ExactCover skipSize isoSize rs) ∧ st.NoUnderflow) ↔
      ∀ v, volume = some v → ∀ p ∈ v.encodedPartitions 0 (partitionsForWriting volume),
        v.dataStart p ≠ 0 ∧ alignDown (v.dataEnd p) blockTotalSize ≤ isoSize := by
  unfold setUpDataEntriesForWriting at h
  split at h
  · obtain rfl := Except.ok.inj h
    refine ⟨fun _ v hv => absurd hv (by simp), fun _ => ?_⟩
    exact (covers_empty isoSize).setUpRest chunkSize hheader hiso
  next v =>
  split at h
  swap
  · cases h
  next st₁ h₁ =>
  obtain rfl := Except.ok.inj h
  have hlt := partitionsForWriting_lt (some v)
  constructor
  · rintro ⟨⟨rs, hrs, hcover⟩, -⟩ v' hv p hp
    obtain rfl := Option.some.inj hv
    obtain ⟨new, hnew, hall⟩ := setUpPartitions_adds h₁ hlt (List.Forall₂.nil : SetUp.empty.HasRanges [])
    have hrest : (setUpRest chunkSize isoSize st₁).HasRanges _ :=
      (hnew.with_subtractions _).addRawDataEntry chunkSize _ _
    obtain rfl := hrs.unique hrest
    have honce : ∀ x, v.dataStart p ≤ x ∧ x < alignDown (v.dataEnd p) blockTotalSize →
        skipSize ≤ x ∧ x < isoSize := by
      intro x hx
      have hpos := hall p hp x hx
      by_contra hout
      have hzero := hcover.once x
      rw [if_neg hout, List.nil_append, copies_append] at hzero
      omega
    obtain ⟨-, halign, hsize⟩ := v.wellFormed_of_encoded hp
    unfold alignDown at honce ⊢
    unfold skipSize at honce
    unfold blockTotalSize at honce halign hsize ⊢
    have hfirst := honce (v.dataStart p) (by omega)
    have hlast := honce (v.dataEnd p - v.dataEnd p % 0x8000 - 1) (by omega)
    omega
  · intro hfit
    refine Covers.setUpRest ?_ chunkSize hheader hiso
    exact setUpPartitions_covers hiso h₁ hlt (hfit v rfl) (covers_empty isoSize)

/-- A disc with one partition at `0x50000` whose data begins at `0x70000` and has the size
`dataSize * 4`. -/
def onePartitionDisc (dataSize : BitVec 32) : Volume where
  hasWiiHashes := true
  hasWiiEncryption := true
  readSwapped offset :=
    if offset = 0x40000 then some 1 -- number of partitions in group 0
    else if offset = 0x40004 then some (0x40020 / 4) -- partition table
    else if offset = 0x40020 then some (0x50000 / 4) -- partition
    else if offset = 0x50000 then some 0x10001
    else if offset = 0x502b8 then some (0x20000 / 4)
    else if offset = 0x502bc then some dataSize
    else some 0
  readSwappedIn _ offset := if offset = 0x424 then some (0x20000 / 4) else some (0x1000 / 4)
  ticket _ := some 0

theorem data_entries_exact_iff_onePartitionDisc :
    ∃ st, setUpDataEntriesForWriting (some (onePartitionDisc (0x20100 / 4))) 0x20000 0x90080 = .ok st ∧
      (∃ rs, st.HasRanges rs ∧ ExactCover skipSize 0x90080 rs) ∧ st.NoUnderflow := by
  obtain ⟨st, hst⟩ : ∃ st, setUpDataEntriesForWriting (some (onePartitionDisc (0x20100 / 4)))
      0x20000 0x90080 = .ok st := ⟨_, rfl⟩
  refine ⟨st, hst, (data_entries_exact_iff (by decide) (by decide) hst).mpr ?_⟩
  intro v hv
  obtain rfl := Option.some.inj hv
  decide +kernel

/-- **A too large partition.** Its size is corrected in a variable that nothing reads: the data
entries go on past the end of the disc, and the size of the last entry underflows. -/
theorem too_large_partition :
    ∃ st, setUpDataEntriesForWriting (some (onePartitionDisc (0x100000 / 4))) 0x20000 0x100000 =
        .ok st ∧
      st.dataEntries.map st.range? =
        [some (0x80, 0x50000), some (0x50000, 0x70000), some (0x70000, 0x170000),
          some (0x170000, 0x170000), some (0x170000, 2 ^ 64 + 0x100000)] ∧
      ¬ ((∃ rs, st.HasRanges rs ∧ ExactCover skipSize 0x100000 rs) ∧ st.NoUnderflow) := by
  refine ⟨_, rfl, by decide +kernel, fun h => ?_⟩
  exact absurd h.2 (by decide +kernel)

end DiscIO
