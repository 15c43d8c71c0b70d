import PrimedSteam.DiscIO.DataEntries
import PrimedSteam.Lib.IntervalIndex

/-!
# Data that overlaps in a WIA or RVZ file

* `FileEntries`: the partition entries and raw data entries that `Initialize` reads from a file.
* `FileEntries.mapped`: `m_data_entries`, the non-empty data entries under their end offsets.
* `FileEntries.hasDataOverlap`: the look-up of every start.
* `intervals`: the non-empty entries as intervals; `mapped_eq` and `hasDataOverlap_iff` connect the
  loops of the source with them.
* **`hasDataOverlap_eq_false_iff`**: there is no overlap if and only if the intervals end after their
  starts and are disjoint, and then every offset is looked up in its own entry.
-/

set_option autoImplicit false

namespace DiscIO

instance : Inhabited DataEntry := ⟨⟨0, false, 0⟩⟩

/-- What `Initialize` reads, in integers of 32 and 64 bits. -/
structure FileEntries where
  partitionEntries : List PartitionEntry
  rawDataEntries : List RawDataEntry
  partition_count : partitionEntries.length < 2 ^ 32
  raw_count : rawDataEntries.length < 2 ^ 32
  partition_fits : ∀ p ∈ partitionEntries, ∀ j,
    (p.dataEntry j).firstSector < 2 ^ 32 ∧ (p.dataEntry j).numberOfSectors < 2 ^ 32
  raw_fits : ∀ r ∈ rawDataEntries, r.dataOffset < 2 ^ 64 ∧ r.dataSize < 2 ^ 64

/-- The offset after the last sector, a number of 32 bits. -/
def PartitionDataEntry.endOffset (d : PartitionDataEntry) : ℕ :=
  toU32 (d.firstSector + d.numberOfSectors) * blockTotalSize

/-- The offset after the data, a number of 64 bits. -/
def RawDataEntry.endOffset (r : RawDataEntry) : ℕ := (r.dataOffset + r.dataSize) % 2 ^ 64

/-- `DataEntry(i, j)` -/
def DataEntry.partition (i j : ℕ) : DataEntry := ⟨toU32 i, true, j⟩

/-- `DataEntry(i)` -/
def DataEntry.raw (i : ℕ) : DataEntry := ⟨toU32 i, false, 0⟩

/-- The entries of one partition are put into the map. -/
def emplacePartition (m : OrderedMap ℕ DataEntry) (p : PartitionEntry × ℕ) :
    OrderedMap ℕ DataEntry :=
  [0, 1].foldl (fun m j =>
    if (p.1.dataEntry j).numberOfSectors ≠ 0 then
      m.emplace (p.1.dataEntry j).endOffset (.partition p.2 j)
    else m) m

/-- A raw data entry is put into the map. -/
def emplaceRaw (m : OrderedMap ℕ DataEntry) (r : RawDataEntry × ℕ) : OrderedMap ℕ DataEntry :=
  if r.1.dataSize ≠ 0 then m.emplace r.1.endOffset (.raw r.2) else m

/-- The entry that the look-up of a start has to yield is missing: nothing is there, or the data of
another entry. -/
def startMisses (m : OrderedMap ℕ DataEntry) (dataOffset : ℕ) (other : DataEntry → Bool) : Bool :=
  match m.next dataOffset with
  | none => true
  | some key => other (m.get key)

/-- The test of entry `j` of partition `i`. -/
def partitionOverlaps (m : OrderedMap ℕ DataEntry) (i j : ℕ) (d : PartitionDataEntry) : Bool :=
  if d.numberOfSectors = 0 then false
  else startMisses m (d.firstSector * blockTotalSize) fun e =>
    !e.isPartition || e.index != i || e.partitionDataIndex != j

/-- The test of raw data entry `i`. -/
def rawOverlaps (m : OrderedMap ℕ DataEntry) (i : ℕ) (r : RawDataEntry) : Bool :=
  if r.dataSize = 0 then false
  else startMisses m r.dataOffset fun e => e.isPartition || e.index != i

namespace FileEntries

variable (f : FileEntries)

/-- `m_data_entries` -/
def mapped : OrderedMap ℕ DataEntry :=
  f.rawDataEntries.zipIdx.foldl emplaceRaw (f.partitionEntries.zipIdx.foldl emplacePartition .empty)

/-- `HasDataOverlap` -/
def hasDataOverlap : Bool :=
  (f.partitionEntries.zipIdx.any fun p => [0, 1].any fun j =>
    partitionOverlaps f.mapped p.2 j (p.1.dataEntry j)) ||
  f.rawDataEntries.zipIdx.any fun r => rawOverlaps f.mapped r.2 r.1

/-! ## The intervals of the entries -/

/-- A partition's data entry as an interval of bytes. -/
def partitionInterval (p : PartitionEntry × ℕ) (j : ℕ) : Extent ℕ DataEntry :=
  ⟨(p.1.dataEntry j).firstSector * blockTotalSize, (p.1.dataEntry j).endOffset, .partition p.2 j⟩

/-- A raw data entry as an interval of bytes. -/
def rawInterval (r : RawDataEntry × ℕ) : Extent ℕ DataEntry :=
  ⟨r.1.dataOffset, r.1.endOffset, .raw r.2⟩

/-- The entries that are not empty. -/
def intervals : List (Extent ℕ DataEntry) :=
  (f.partitionEntries.zipIdx.flatMap fun p =>
    ([0, 1].filter fun j => (p.1.dataEntry j).numberOfSectors ≠ 0).map (partitionInterval p)) ++
  (f.rawDataEntries.zipIdx.filter fun r => r.1.dataSize ≠ 0).map rawInterval

/-- **The map of the ends is the index of the intervals.** -/
theorem mapped_eq : f.mapped = Extent.byEnd f.intervals := by
  rw [mapped, Extent.byEnd, intervals, List.foldl_append, List.foldl_flatMap]
  simp only [List.foldl_map, List.foldl_filter, decide_eq_true_eq]
  rfl

theorem lt_of_mem_zipIdx {α : Type*} {l : List α} {n : ℕ} (hl : l.length < n) {x : α × ℕ}
    (hx : x ∈ l.zipIdx) : x.2 < n := by
  have hlt : x.2 < 0 + l.length := List.snd_lt_add_of_mem_zipIdx hx
  omega

variable {f}

theorem mem_intervals {e : Extent ℕ DataEntry} :
    e ∈ f.intervals ↔
      (∃ p ∈ f.partitionEntries.zipIdx, ∃ j ∈ [0, 1],
        (p.1.dataEntry j).numberOfSectors ≠ 0 ∧ partitionInterval p j = e) ∨
      ∃ r ∈ f.rawDataEntries.zipIdx, r.1.dataSize ≠ 0 ∧ rawInterval r = e := by
  simp only [intervals, List.mem_append, List.mem_flatMap, List.mem_map, List.mem_filter,
    decide_eq_true_eq, and_assoc]

theorem toU32_index {p : PartitionEntry × ℕ} (hp : p ∈ f.partitionEntries.zipIdx) :
    toU32 p.2 = p.2 :=
  Nat.mod_eq_of_lt (lt_of_mem_zipIdx f.partition_count hp)

theorem toU32_raw_index {r : RawDataEntry × ℕ} (hr : r ∈ f.rawDataEntries.zipIdx) :
    toU32 r.2 = r.2 :=
  Nat.mod_eq_of_lt (lt_of_mem_zipIdx f.raw_count hr)

variable (f) in
theorem nodup_labels : (f.intervals.map Extent.label).Nodup := by
  have hindex : ∀ {α : Type} (l : List α), l.zipIdx.Pairwise fun a b => a.2 ≠ b.2 := by
    intro α l
    rw [← List.pairwise_map (f := Prod.snd) (R := (· ≠ ·)), List.zipIdx_map_snd]
    exact List.nodup_range' ..
  rw [List.Nodup, List.pairwise_map, intervals, List.pairwise_append]
  refine ⟨List.pairwise_flatMap.mpr ⟨fun p hp => ?_, ?_⟩, ?_, ?_⟩
  · rw [List.pairwise_map]
    refine List.Pairwise.filter _ ?_
    simp [partitionInterval, DataEntry.partition]
  · refine (hindex f.partitionEntries).imp_of_mem fun {p q} hp hq hne x hx y hy => ?_
    obtain ⟨j, -, rfl⟩ := List.mem_map.mp hx
    obtain ⟨k, -, rfl⟩ := List.mem_map.mp hy
    intro heq
    have hsame : toU32 p.2 = toU32 q.2 := congrArg DataEntry.index heq
    rw [toU32_index hp, toU32_index hq] at hsame
    exact hne hsame
  · rw [List.pairwise_map]
    refine List.Pairwise.filter _ ((hindex f.rawDataEntries).imp_of_mem fun {r s} hr hs hne heq => ?_)
    have hsame : toU32 r.2 = toU32 s.2 := congrArg DataEntry.index heq
    rw [toU32_raw_index hr, toU32_raw_index hs] at hsame
    exact hne hsame
  · intro x hx y hy heq
    obtain ⟨p, -, hx⟩ := List.mem_flatMap.mp hx
    obtain ⟨j, -, rfl⟩ := List.mem_map.mp hx
    obtain ⟨r, -, rfl⟩ := List.mem_map.mp hy
    exact Bool.noConfusion (congrArg DataEntry.isPartition heq)

theorem startMisses_eq_false_iff {e : Extent ℕ DataEntry} {other : DataEntry → Bool}
    (hother : ∀ e' ∈ f.intervals, other e'.label = false ↔ e'.label = e.label) :
    startMisses f.mapped e.start other = false ↔ Extent.Found f.mapped e := by
  rw [startMisses, Extent.Found, mapped_eq]
  cases hnext : (Extent.byEnd f.intervals).next e.start with
  | none => simp
  | some k =>
    have hk := ((OrderedMap.next_eq_some_iff _).mp hnext).1
    obtain ⟨e', he', -, hget⟩ := Extent.get_byEnd hk
    simp only [hget, hother e' he', Option.some.injEq, exists_eq_left']

theorem partitionOverlaps_eq_false_iff {p : PartitionEntry × ℕ} {j : ℕ}
    (hp : p ∈ f.partitionEntries.zipIdx) :
    partitionOverlaps f.mapped p.2 j (p.1.dataEntry j) = false ↔
      ((p.1.dataEntry j).numberOfSectors ≠ 0 → Extent.Found f.mapped (partitionInterval p j)) := by
  rw [partitionOverlaps]
  split
  · next hzero => exact iff_of_true rfl fun hne => absurd hzero hne
  · next hne =>
    rw [imp_iff_right hne]
    refine startMisses_eq_false_iff (e := partitionInterval p j) fun e' he' => ?_
    rcases mem_intervals.mp he' with ⟨q, hq, k, -, -, rfl⟩ | ⟨r, hr, -, rfl⟩
    · simp [partitionInterval, DataEntry.partition, toU32_index hp, toU32_index hq]
    · simp [partitionInterval, rawInterval, DataEntry.partition, DataEntry.raw]

theorem rawOverlaps_eq_false_iff {r : RawDataEntry × ℕ} (hr : r ∈ f.rawDataEntries.zipIdx) :
    rawOverlaps f.mapped r.2 r.1 = false ↔
      (r.1.dataSize ≠ 0 → Extent.Found f.mapped (rawInterval r)) := by
  rw [rawOverlaps]
  split
  · next hzero => exact iff_of_true rfl fun hne => absurd hzero hne
  · next hne =>
    rw [imp_iff_right hne]
    refine startMisses_eq_false_iff (e := rawInterval r) fun e' he' => ?_
    rcases mem_intervals.mp he' with ⟨q, hq, k, -, -, rfl⟩ | ⟨s, hs, -, rfl⟩
    · simp [partitionInterval, rawInterval, DataEntry.partition, DataEntry.raw]
    · simp [rawInterval, DataEntry.raw, toU32_raw_index hr, toU32_raw_index hs]

variable (f)

/-- **There is no overlap when every interval is found from its start.** -/
theorem hasDataOverlap_iff :
    f.hasDataOverlap = false ↔ ∀ e ∈ f.intervals, Extent.Found (Extent.byEnd f.intervals) e := by
  rw [hasDataOverlap, Bool.or_eq_false_iff, List.any_eq_false, List.any_eq_false, ← mapped_eq]
  constructor
  · rintro ⟨hpartition, hraw⟩ e he
    rcases mem_intervals.mp he with ⟨p, hp, j, hj, hne, rfl⟩ | ⟨r, hr, hne, rfl⟩
    · have hall := Bool.eq_false_of_not_eq_true (hpartition p hp)
      exact (partitionOverlaps_eq_false_iff hp).mp
        (Bool.eq_false_of_not_eq_true (List.any_eq_false.mp hall j hj)) hne
    · exact (rawOverlaps_eq_false_iff hr).mp (Bool.eq_false_of_not_eq_true (hraw r hr)) hne
  · intro hfound
    refine ⟨fun p hp => ?_, fun r hr => ?_⟩
    · rw [Bool.not_eq_true, List.any_eq_false]
      intro j hj
      rw [Bool.not_eq_true, partitionOverlaps_eq_false_iff hp]
      exact fun hne => hfound _ (mem_intervals.mpr (.inl ⟨p, hp, j, hj, hne, rfl⟩))
    · rw [Bool.not_eq_true, rawOverlaps_eq_false_iff hr]
      exact fun hne => hfound _ (mem_intervals.mpr (.inr ⟨r, hr, hne, rfl⟩))

theorem endOffset_eq {d : PartitionDataEntry} (hfirst : d.firstSector < 2 ^ 32)
    (hnumber : d.numberOfSectors < 2 ^ 32)
    (hproper : d.firstSector * blockTotalSize < d.endOffset) : d.endOffset = d.range.2 := by
  simp only [PartitionDataEntry.endOffset, PartitionDataEntry.range, toU32, blockTotalSize] at *
  omega

theorem raw_endOffset_eq {r : RawDataEntry} (hoffset : r.dataOffset < 2 ^ 64)
    (hsize : r.dataSize < 2 ^ 64) (hproper : r.dataOffset < r.endOffset) :
    r.endOffset = r.range.2 := by
  simp only [RawDataEntry.endOffset, RawDataEntry.range] at *
  omega

/-- **Overlap is found.** `HasDataOverlap` returns false if and only if every entry that is not empty
ends after its start and no two of them share a byte. Then no end is wrapped, and the look-up of every
offset inside an entry yields that entry. -/
theorem hasDataOverlap_eq_false_iff :
    (f.hasDataOverlap = false ↔
      (∀ e ∈ f.intervals, e.start < e.stop) ∧
        f.intervals.Pairwise fun a b =>
          Disjoint (Set.Ico a.start a.stop) (Set.Ico b.start b.stop)) ∧
    (f.hasDataOverlap = false →
      (∀ p ∈ f.partitionEntries.zipIdx, ∀ j ∈ [0, 1], (p.1.dataEntry j).numberOfSectors ≠ 0 →
        (p.1.dataEntry j).endOffset = (p.1.dataEntry j).range.2) ∧
      (∀ r ∈ f.rawDataEntries.zipIdx, r.1.dataSize ≠ 0 → r.1.endOffset = r.1.range.2) ∧
      ∀ e ∈ f.intervals, ∀ offset, e.start ≤ offset → offset < e.stop →
        f.mapped.next offset = some e.stop ∧ f.mapped.get e.stop = e.label) := by
  have hiff : f.hasDataOverlap = false ↔
      (∀ e ∈ f.intervals, e.start < e.stop) ∧ f.intervals.Pairwise Extent.Apart := by
    rw [hasDataOverlap_iff, Extent.found_iff_disjoint f.nodup_labels]
  refine ⟨?_, fun hfalse => ?_⟩
  · rw [hiff]
    refine and_congr_right fun hproper => ⟨fun h => ?_, fun h => ?_⟩
    · exact h.imp_of_mem fun ha hb =>
        (Extent.apart_iff_disjoint (hproper _ ha) (hproper _ hb)).mp
    · exact h.imp_of_mem fun ha hb =>
        (Extent.apart_iff_disjoint (hproper _ ha) (hproper _ hb)).mpr
  · have hproper := (hiff.mp hfalse).1
    refine ⟨fun p hp j hj hne => ?_, fun r hr hne => ?_, fun e he offset hstart hstop => ?_⟩
    · have hfits := f.partition_fits p.1 (List.fst_mem_of_mem_zipIdx hp) j
      exact endOffset_eq hfits.1 hfits.2
        (hproper _ (mem_intervals.mpr (.inl ⟨p, hp, j, hj, hne, rfl⟩)))
    · have hfits := f.raw_fits r.1 (List.fst_mem_of_mem_zipIdx hr)
      exact raw_endOffset_eq hfits.1 hfits.2
        (hproper _ (mem_intervals.mpr (.inr ⟨r, hr, hne, rfl⟩)))
    · rw [mapped_eq]
      exact ((f.hasDataOverlap_iff.mp hfalse) e he).next_eq f.nodup_labels he hstart hstop

end FileEntries

end DiscIO
