import PrimedSteam.Lib.While
import Mathlib.Data.List.Sort

/-!
# Scrubbing

`DiscScrubber` keeps a table of the 32 KiB clusters of a disc that no partition uses; such clusters are
left out when the disc is converted.

* `Volume`: what the scrubber reads of a disc. `WiiVolume` is a Wii disc.
* `setupScrub`: the marking of the clusters in use. `none` is a write outside the table.
* `markAsUsed_spec`: the clusters that a range marks; `Extends`: they stay marked.
* **`files_not_scrubbed`**: no cluster that stores a byte of a file of a hashed partition is free.
-/

set_option autoImplicit false

namespace DiscScrubber

open While

def clusterSize : ℕ := 0x8000

/-- The values of `u64` and `u32` computations. -/
def u64 (x : ℕ) : ℕ := x % 2 ^ 64

def u32 (x : ℕ) : ℕ := x % 2 ^ 32

def alignDown (value size : ℕ) : ℕ := value - value % size

/-! ## The disc -/

/-- A partition is named by its offset. -/
abbrev Partition := ℕ

def partitionNone : Partition := 2 ^ 64 - 2

/-- The entries of a directory, in the order of its iteration. The offset of a file is stored without
the bits that `Get` shifts in. -/
inductive Listing where
  | nil
  | file (offset size : BitVec 32) (rest : Listing)
  | directory (children rest : Listing)

/-- The files of a directory and of the directories in it. -/
inductive Listing.Contains (offset size : BitVec 32) : Listing → Prop where
  | here (rest : Listing) : Contains offset size (.file offset size rest)
  | afterFile (offset' size' : BitVec 32) {rest : Listing} (h : Contains offset size rest) :
      Contains offset size (.file offset' size' rest)
  | inside {children : Listing} (rest : Listing) (h : Contains offset size children) :
      Contains offset size (.directory children rest)
  | afterDirectory (children : Listing) {rest : Listing} (h : Contains offset size rest) :
      Contains offset size (.directory children rest)

/-- What is read of a disc. -/
structure Volume where
  dataSize : ℕ
  hasWiiHashes : Bool
  isDisc : Bool
  offsetShift : ℕ
  partitions : List Partition
  readSwapped : ℕ → Partition → Option (BitVec 32)
  /-- The root of a file system table that is valid. -/
  root : Partition → Option Listing

namespace Volume

variable (disc : Volume)

def readSwappedAndShifted (offset : ℕ) (partition : Partition) : Option ℕ :=
  (disc.readSwapped offset partition).map fun value => value.toNat <<< disc.offsetShift

def getBootDOLOffset (partition : Partition) : Option ℕ :=
  if !disc.isDisc then none
  else
    -- an offset of 0 is that of a Datel disc
    (disc.readSwappedAndShifted 0x420 partition).filter (· ≠ 0)

/-- The end of the segments of the DOL whose offsets and sizes are at these addresses. -/
def segmentsEnd (partition : Partition) (offsets sizes : ℕ) : List ℕ → ℕ → Option ℕ
  | [], dolSize => some dolSize
  | i :: segments, dolSize => do
    let offset ← disc.readSwapped (u64 (offsets + i * 4)) partition
    let size ← disc.readSwapped (u64 (sizes + i * 4)) partition
    segmentsEnd partition offsets sizes segments (max (offset + size).toNat dolSize)

def getBootDOLSize (partition : Partition) (dolOffset : ℕ) : Option ℕ := do
  if !disc.isDisc then none
  else
    let dolSize ← disc.segmentsEnd partition dolOffset (dolOffset + 0x90) (List.range 7) 0
    disc.segmentsEnd partition (dolOffset + 0x1c) (dolOffset + 0xac) (List.range 11) dolSize

def getFSTOffset (partition : Partition) : Option ℕ :=
  if !disc.isDisc then none else disc.readSwappedAndShifted 0x424 partition

def getFSTSize (partition : Partition) : Option ℕ :=
  if !disc.isDisc then none else disc.readSwappedAndShifted 0x428 partition

/-- The shift of the file offsets, by the magic word of a Wii or a GameCube disc. -/
def fileOffsetShift (partition : Partition) : Option ℕ :=
  if disc.readSwapped 0x18 partition = some 0x5D1C9EA3 then some 2
  else if disc.readSwapped 0x1c partition = some 0xC2339F3D then some 0
  else none

/-- The root of a file system, and the shift of its file offsets. -/
def getFileSystem (partition : Partition) : Option (Listing × ℕ) := do
  let shift ← disc.fileOffsetShift partition
  let root ← disc.root partition
  return (root, shift)

/-- Where the data of a partition start on the disc. -/
def partitionDataOffset (partition : Partition) : Option ℕ :=
  if partition = partitionNone then some 0
  else (disc.readSwappedAndShifted (u64 (partition + 0x2b8)) partitionNone).map fun dataOffset =>
    u64 (partition + dataOffset)

end Volume

/-- What a Wii disc is read through. -/
structure WiiVolume where
  dataSize : ℕ
  hasHashes : Bool
  readSwapped : ℕ → Partition → Option (BitVec 32)
  root : Partition → Option Listing

namespace WiiVolume

variable (disc : WiiVolume)

def readSwappedAndShifted (offset : ℕ) : Option ℕ :=
  (disc.readSwapped offset partitionNone).map fun value => value.toNat <<< 2

/-- The partition of an entry of a table. -/
def tableEntry (tableOffset i : ℕ) : Option Partition := do
  let partitionOffset ← disc.readSwappedAndShifted (u64 (tableOffset + u32 (i * 8)))
  let _ ← disc.readSwapped (u64 (tableOffset + u32 (i * 8) + 4)) partitionNone
  return partitionOffset

/-- The partitions of one of the four groups. -/
def partitionGroup (group : ℕ) : List Partition :=
  match disc.readSwapped (0x40000 + group * 8) partitionNone,
    disc.readSwappedAndShifted (0x40000 + group * 8 + 4) with
  | some numberOfPartitions, some tableOffset =>
    (List.range numberOfPartitions.toNat).filterMap (disc.tableEntry tableOffset)
  | _, _ => []

/-- The keys of the map of partitions. -/
def getPartitions : List Partition :=
  (((List.range 4).flatMap disc.partitionGroup).dedup).insertionSort (· ≤ ·)

/-- A Wii disc as a volume. -/
def volume : Volume :=
  ⟨disc.dataSize, disc.hasHashes, true, 2, disc.getPartitions, disc.readSwapped, disc.root⟩

end WiiVolume

/-! ## The table -/

end DiscScrubber

/-- The table has an entry for each cluster, which is true while the cluster is free. -/
structure DiscScrubber where
  freeTable : List Bool
  fileSize : ℕ
  hasWiiHashes : Bool
  isScrubbing : Bool

namespace DiscScrubber

open While

/-- The variables of the loop that marks clusters. -/
structure Marking where
  currentOffset : ℕ
  freeTable : List Bool

variable (s : DiscScrubber)

/-- An index outside the table is an error. -/
def Marking.mark (m : Marking) : Except Unit Marking :=
  if m.currentOffset / clusterSize < m.freeTable.length then
    .ok ⟨u64 (m.currentOffset + clusterSize), m.freeTable.set (m.currentOffset / clusterSize) false⟩
  else .error ()

def markAsUsed (offset size : ℕ) : Option DiscScrubber :=
  let currentOffset := alignDown offset clusterSize
  let endOffset := u64 (offset + size)
  match whileLoop (fun m : Marking => decide (m.currentOffset < endOffset ∧ m.currentOffset < s.fileSize))
      Marking.mark (s.freeTable.length + 1) ⟨currentOffset, s.freeTable⟩ with
  | some (.ok m) => some { s with freeTable := m.freeTable }
  | _ => none

def toClusterOffset (offset : ℕ) : ℕ :=
  if s.hasWiiHashes then u64 (offset / 0x7c00 * clusterSize) else alignDown offset clusterSize

def markAsUsedE (partitionDataOffset offset size : ℕ) : Option DiscScrubber :=
  if partitionDataOffset = 0 then s.markAsUsed offset size
  else
    let firstClusterStart := u64 (s.toClusterOffset offset + partitionDataOffset)
    let lastClusterEnd :=
      -- a size of 0 would be rounded to one cluster
      if size = 0 then firstClusterStart
      else u64 (s.toClusterOffset (u64 (offset + size + (2 ^ 64 - 1))) + clusterSize +
        partitionDataOffset)
    s.markAsUsed firstClusterStart (u64 (lastClusterEnd + (2 ^ 64 - firstClusterStart)))

def parseFileSystemData (partitionDataOffset shift : ℕ) : Listing → DiscScrubber → Option DiscScrubber
  | .nil, s => some s
  | .file offset size rest, s => do
    let s ← s.markAsUsedE partitionDataOffset (offset.toNat <<< shift) size.toNat
    parseFileSystemData partitionDataOffset shift rest s
  | .directory children rest, s => do
    let s ← parseFileSystemData partitionDataOffset shift children s
    parseFileSystemData partitionDataOffset shift rest s

/-- The scrubber with the marks made so far, and whether everything could be read. -/
abbrev Parsed := Option (DiscScrubber × Bool)

def parsePartitionData (disc : Volume) (partition : Partition) : Parsed := do
  let some (root, shift) := disc.getFileSystem partition | return (s, false)
  let some partitionDataOffset := disc.partitionDataOffset partition | return (s, false)
  let some apploaderSize := disc.readSwapped (0x2440 + 0x14) partition | return (s, false)
  let some apploaderTrailerSize := disc.readSwapped (0x2440 + 0x18) partition | return (s, false)
  let s ← s.markAsUsedE partitionDataOffset 0
    (0x2440 + apploaderSize + apploaderTrailerSize).toNat
  let some dolOffset := disc.getBootDOLOffset partition | return (s, false)
  let some dolSize := disc.getBootDOLSize partition dolOffset | return (s, false)
  let s ← s.markAsUsedE partitionDataOffset dolOffset dolSize
  let some fstOffset := disc.getFSTOffset partition | return (s, false)
  let some fstSize := disc.getFSTSize partition | return (s, false)
  let s ← s.markAsUsedE partitionDataOffset fstOffset fstSize
  let s ← parseFileSystemData partitionDataOffset shift root s
  return (s, true)

/-- One partition of `ParseDisc`. -/
def parsePartition (disc : Volume) (partition : Partition) : Parsed := do
  let some tmdSize := disc.readSwapped (u64 (partition + 0x2a4)) partitionNone | return (s, false)
  let some tmdOffset := disc.readSwappedAndShifted (u64 (partition + 0x2a8)) partitionNone
    | return (s, false)
  let some certChainSize := disc.readSwapped (u64 (partition + 0x2ac)) partitionNone
    | return (s, false)
  let some certChainOffset := disc.readSwappedAndShifted (u64 (partition + 0x2b0)) partitionNone
    | return (s, false)
  let some h3Offset := disc.readSwappedAndShifted (u64 (partition + 0x2b4)) partitionNone
    | return (s, false)
  let s ← s.markAsUsed partition 0x2c0
  let s ← s.markAsUsed (u64 (partition + tmdOffset)) tmdSize.toNat
  let s ← s.markAsUsed (u64 (partition + certChainOffset)) certChainSize.toNat
  let s ← s.markAsUsed (u64 (partition + h3Offset)) 0x18000
  s.parsePartitionData disc partition

def parsePartitions (disc : Volume) : List Partition → DiscScrubber → Parsed
  | [], s => some (s, true)
  | partition :: partitions, s => do
    let (s, success) ← s.parsePartition disc partition
    if success then parsePartitions disc partitions s else return (s, false)

def parseDisc (disc : Volume) : Parsed := do
  if disc.partitions = [] then s.parsePartitionData disc partitionNone
  else
    -- the header is mostly zeroes anyway
    let s ← s.markAsUsed 0 0x50000
    parsePartitions disc disc.partitions s

/-- `resize` of the table to a number of clusters, which are free. -/
def resize (table : List Bool) (numClusters : ℕ) : List Bool :=
  table.take numClusters ++ List.replicate (numClusters - table.length) true

def setupScrub (disc : Volume) : Parsed := do
  let numClusters := u64 (disc.dataSize + clusterSize - 1) / clusterSize
  let s : DiscScrubber :=
    { s with
      fileSize := disc.dataSize
      hasWiiHashes := disc.hasWiiHashes
      freeTable := resize s.freeTable numClusters }
  let (s, success) ← s.parseDisc disc
  return ({ s with isScrubbing := success }, success)

def canBlockBeScrubbed (offset : ℕ) : Bool :=
  if !s.isScrubbing then false
  else
    let clusterIndex := offset / clusterSize
    s.freeTable.length ≤ clusterIndex || s.freeTable.getD clusterIndex true

/-! ## The marks of a range -/

/-- The cluster is in the table and in use. -/
def Used (i : ℕ) : Prop := s.freeTable[i]? = some false

/-- Clusters stay marked, and the rest of the scrubber stays as it is. -/
structure Extends (s s' : DiscScrubber) : Prop where
  length_eq : s'.freeTable.length = s.freeTable.length
  fileSize_eq : s'.fileSize = s.fileSize
  hasWiiHashes_eq : s'.hasWiiHashes = s.hasWiiHashes
  used : ∀ i, s.Used i → s'.Used i

namespace Extends

variable {s s₁ s₂ : DiscScrubber}

theorem refl (s : DiscScrubber) : Extends s s := ⟨rfl, rfl, rfl, fun _ h => h⟩

theorem trans (h₁ : Extends s s₁) (h₂ : Extends s₁ s₂) : Extends s s₂ :=
  ⟨h₂.length_eq.trans h₁.length_eq, h₂.fileSize_eq.trans h₁.fileSize_eq,
    h₂.hasWiiHashes_eq.trans h₁.hasWiiHashes_eq, fun i h => h₂.used i (h₁.used i h)⟩

end Extends

variable {s} {s' : DiscScrubber}

/-- What holds while clusters from `start` on are marked. -/
structure Marking.Inv (s : DiscScrubber) (start : ℕ) (m : Marking) : Prop where
  length_eq : m.freeTable.length = s.freeTable.length
  dvd : clusterSize ∣ m.currentOffset
  kept : ∀ i, s.Used i → m.freeTable[i]? = some false
  marked : ∀ i, start ≤ i * clusterSize → i * clusterSize < m.currentOffset →
    m.freeTable[i]? = some false

theorem Marking.Inv.mark {start : ℕ} {m m' : Marking} (h : m.Inv s start) (hm : m.mark = .ok m') :
    m'.Inv s start := by
  unfold Marking.mark at hm
  split at hm
  · next hlt =>
    rw [← Except.ok.inj hm]
    obtain ⟨k, hk⟩ := h.dvd
    have hquot : m.currentOffset / clusterSize = k := by
      rw [hk]
      exact Nat.mul_div_cancel_left k (by decide)
    rw [hquot] at hlt ⊢
    refine ⟨(List.length_set ..).trans h.length_eq, ?_, fun i hi => ?_, fun i hstart hi => ?_⟩
    · refine (Nat.dvd_mod_iff (by decide)).mpr ?_
      exact Nat.dvd_add h.dvd (Nat.dvd_refl _)
    · rw [List.getElem?_set]
      split
      · rfl
      · exact h.kept i hi
    · rw [List.getElem?_set]
      split
      · rfl
      · next hne =>
        refine h.marked i hstart ?_
        have hle : i * clusterSize < m.currentOffset + clusterSize :=
          hi.trans_le (Nat.mod_le _ _)
        have hne' : i ≠ k := Ne.symm hne
        simp only [clusterSize] at hle hk ⊢
        omega
  · cases hm

theorem alignDown_dvd (offset : ℕ) : clusterSize ∣ alignDown offset clusterSize := by
  have hdiv := Nat.div_add_mod offset clusterSize
  exact ⟨offset / clusterSize, by unfold alignDown; omega⟩

theorem Marking.Inv.start (s : DiscScrubber) (offset : ℕ) :
    Marking.Inv s (alignDown offset clusterSize) ⟨alignDown offset clusterSize, s.freeTable⟩ :=
  ⟨rfl, alignDown_dvd offset, fun _ hi => hi, fun _ hstart hi => absurd hi (not_lt.mpr hstart)⟩

/-- **What marking a range does**: the clusters from the one of its start up to its end are in use, as
far as they are on the disc. -/
theorem markAsUsed_spec {offset size : ℕ} (h : s.markAsUsed offset size = some s') :
    Extends s s' ∧ ∀ i, offset ≤ i * clusterSize + (clusterSize - 1) →
      i * clusterSize < u64 (offset + size) → i * clusterSize < s.fileSize → s'.Used i := by
  unfold markAsUsed at h
  dsimp only at h
  split at h
  · next m hrun =>
    cases h
    obtain ⟨hinv, hexit⟩ := whileLoop_invariant
      (fun m m' hm _ hmark => Marking.Inv.mark hm hmark) (Marking.Inv.start s offset) hrun
    refine ⟨⟨hinv.length_eq, rfl, rfl, hinv.kept⟩, fun i hstart hend hsize => ?_⟩
    have hbound := of_decide_eq_false hexit
    refine hinv.marked i ?_ (by omega)
    unfold alignDown
    simp only [clusterSize] at hstart ⊢
    omega
  · cases h

theorem markAsUsed_extends {offset size : ℕ} (h : s.markAsUsed offset size = some s') :
    Extends s s' := (markAsUsed_spec h).1

theorem markAsUsedE_extends {partitionDataOffset offset size : ℕ}
    (h : s.markAsUsedE partitionDataOffset offset size = some s') : Extends s s' := by
  unfold markAsUsedE at h
  split at h
  · exact markAsUsed_extends h
  · exact markAsUsed_extends h

/-- **What marking a range of a hashed partition does**: every cluster of the table that overlaps a
raw cluster with data of the range is in use. -/
theorem markAsUsedE_used {partitionDataOffset offset size o x : ℕ}
    (h : s.markAsUsedE partitionDataOffset offset size = some s') (hhashes : s.hasWiiHashes = true)
    (hpartition : partitionDataOffset ≠ 0) (hlt : partitionDataOffset < 2 ^ 35)
    (hoffset : offset < 2 ^ 34) (hsize : size < 2 ^ 32) (ho : offset ≤ o ∧ o < offset + size)
    (hx : partitionDataOffset + o / 0x7c00 * clusterSize ≤ x ∧
      x < partitionDataOffset + o / 0x7c00 * clusterSize + clusterSize)
    (hdisc : x / clusterSize * clusterSize < s.fileSize) : s'.Used (x / clusterSize) := by
  have hcluster : ∀ v, v < 2 ^ 36 → s.toClusterOffset v = v / 0x7c00 * clusterSize := by
    intro v hv
    unfold toClusterOffset
    rw [if_pos hhashes]
    unfold u64 clusterSize
    omega
  have hlast : u64 (offset + size + (2 ^ 64 - 1)) = offset + size - 1 := by
    unfold u64
    omega
  unfold markAsUsedE at h
  dsimp only at h
  rw [if_neg hpartition, if_neg (by omega), hlast, hcluster _ (by omega), hcluster _ (by omega)] at h
  refine (markAsUsed_spec h).2 _ ?_ ?_ hdisc
  · unfold u64 clusterSize at *
    omega
  · unfold u64 clusterSize at *
    omega

/-! ## The marks of a disc -/

theorem parseFileSystemData_extends {partitionDataOffset shift : ℕ} {root : Listing} :
    ∀ {s s' : DiscScrubber}, parseFileSystemData partitionDataOffset shift root s = some s' →
      Extends s s' := by
  induction root with
  | nil =>
    intro s s' h
    cases h
    exact .refl s
  | file offset size rest ih =>
    intro s s' h
    obtain ⟨s₁, h₁, h₂⟩ := Option.bind_eq_some_iff.mp h
    exact (markAsUsedE_extends h₁).trans (ih h₂)
  | directory children rest ihChildren ihRest =>
    intro s s' h
    obtain ⟨s₁, h₁, h₂⟩ := Option.bind_eq_some_iff.mp h
    exact (ihChildren h₁).trans (ihRest h₂)

theorem parseFileSystemData_marks {partitionDataOffset shift : ℕ} {root : Listing}
    {offset size : BitVec 32} (hfile : root.Contains offset size) :
    ∀ {s s' : DiscScrubber}, parseFileSystemData partitionDataOffset shift root s = some s' →
      ∃ s₁ s₂, Extends s s₁ ∧ Extends s₂ s' ∧
        s₁.markAsUsedE partitionDataOffset (offset.toNat <<< shift) size.toNat = some s₂ := by
  induction hfile with
  | here rest =>
    intro s s' h
    obtain ⟨s₁, h₁, h₂⟩ := Option.bind_eq_some_iff.mp h
    exact ⟨s, s₁, .refl s, parseFileSystemData_extends h₂, h₁⟩
  | afterFile offset' size' _ ih =>
    intro s s' h
    obtain ⟨s₁, h₁, h₂⟩ := Option.bind_eq_some_iff.mp h
    obtain ⟨t₁, t₂, hbefore, hafter, hmark⟩ := ih h₂
    exact ⟨t₁, t₂, (markAsUsedE_extends h₁).trans hbefore, hafter, hmark⟩
  | inside rest _ ih =>
    intro s s' h
    obtain ⟨s₁, h₁, h₂⟩ := Option.bind_eq_some_iff.mp h
    obtain ⟨t₁, t₂, hbefore, hafter, hmark⟩ := ih h₁
    exact ⟨t₁, t₂, hbefore, hafter.trans (parseFileSystemData_extends h₂), hmark⟩
  | afterDirectory children _ ih =>
    intro s s' h
    obtain ⟨s₁, h₁, h₂⟩ := Option.bind_eq_some_iff.mp h
    obtain ⟨t₁, t₂, hbefore, hafter, hmark⟩ := ih h₂
    exact ⟨t₁, t₂, (parseFileSystemData_extends h₁).trans hbefore, hafter, hmark⟩

variable {disc : Volume} {partition : Partition} {success : Bool}

theorem parsePartitionData_spec (h : s.parsePartitionData disc partition = some (s', success)) :
    Extends s s' ∧ (success = true → ∃ root shift partitionDataOffset s₁,
      disc.getFileSystem partition = some (root, shift) ∧
      disc.partitionDataOffset partition = some partitionDataOffset ∧ Extends s s₁ ∧
      parseFileSystemData partitionDataOffset shift root s₁ = some s') := by
  have hfail : ∀ {t : DiscScrubber}, Extends s t → some (t, false) = some (s', success) →
      Extends s s' ∧ (success = true → ∃ root shift partitionDataOffset s₁,
        disc.getFileSystem partition = some (root, shift) ∧
        disc.partitionDataOffset partition = some partitionDataOffset ∧ Extends s s₁ ∧
        parseFileSystemData partitionDataOffset shift root s₁ = some s') := by
    intro t ht heq
    cases heq
    exact ⟨ht, fun hfalse => absurd hfalse Bool.false_ne_true⟩
  unfold parsePartitionData at h
  split at h
  · next root shift hroot =>
    split at h
    · next partitionDataOffset hoffset =>
      split at h
      · split at h
        · obtain ⟨s₁, h₁, h⟩ := Option.bind_eq_some_iff.mp h
          have hs₁ := markAsUsedE_extends h₁
          split at h
          · split at h
            · obtain ⟨s₂, h₂, h⟩ := Option.bind_eq_some_iff.mp h
              have hs₂ := hs₁.trans (markAsUsedE_extends h₂)
              split at h
              · split at h
                · obtain ⟨s₃, h₃, h⟩ := Option.bind_eq_some_iff.mp h
                  have hs₃ := hs₂.trans (markAsUsedE_extends h₃)
                  obtain ⟨s₄, h₄, h⟩ := Option.bind_eq_some_iff.mp h
                  cases h
                  exact ⟨hs₃.trans (parseFileSystemData_extends h₄), fun _ =>
                    ⟨root, shift, partitionDataOffset, s₃, hroot, hoffset, hs₃, h₄⟩⟩
                · exact hfail hs₂ h
              · exact hfail hs₂ h
            · exact hfail hs₁ h
          · exact hfail hs₁ h
        · exact hfail (.refl s) h
      · exact hfail (.refl s) h
    · exact hfail (.refl s) h
  · exact hfail (.refl s) h

theorem parsePartition_spec (h : s.parsePartition disc partition = some (s', success)) :
    Extends s s' ∧ (success = true → ∃ s₁, Extends s s₁ ∧
      s₁.parsePartitionData disc partition = some (s', true)) := by
  have hfail : some (s, false) = some (s', success) → Extends s s' ∧ (success = true →
      ∃ s₁, Extends s s₁ ∧ s₁.parsePartitionData disc partition = some (s', true)) := by
    intro heq
    cases heq
    exact ⟨.refl s, fun hfalse => absurd hfalse Bool.false_ne_true⟩
  unfold parsePartition at h
  split at h
  · split at h
    · split at h
      · split at h
        · split at h
          · obtain ⟨s₁, h₁, h⟩ := Option.bind_eq_some_iff.mp h
            obtain ⟨s₂, h₂, h⟩ := Option.bind_eq_some_iff.mp h
            obtain ⟨s₃, h₃, h⟩ := Option.bind_eq_some_iff.mp h
            obtain ⟨s₄, h₄, h⟩ := Option.bind_eq_some_iff.mp h
            have hs₄ := (markAsUsed_extends h₁).trans ((markAsUsed_extends h₂).trans
              ((markAsUsed_extends h₃).trans (markAsUsed_extends h₄)))
            exact ⟨hs₄.trans (parsePartitionData_spec h).1, fun hsuccess => ⟨s₄, hs₄, hsuccess ▸ h⟩⟩
          · exact hfail h
        · exact hfail h
      · exact hfail h
    · exact hfail h
  · exact hfail h

theorem parsePartitions_spec : ∀ {partitions : List Partition} {s s' : DiscScrubber}
    {success : Bool}, parsePartitions disc partitions s = some (s', success) →
    Extends s s' ∧ (success = true → ∀ partition ∈ partitions, ∃ s₁ s₂, Extends s s₁ ∧
      s₁.parsePartitionData disc partition = some (s₂, true) ∧ Extends s₂ s')
  | [], s, s', success, h => by
    cases h
    exact ⟨.refl s, fun _ partition hmem => absurd hmem List.not_mem_nil⟩
  | first :: partitions, s, s', success, h => by
    unfold parsePartitions at h
    obtain ⟨⟨t, ok⟩, hfirst, h⟩ := Option.bind_eq_some_iff.mp h
    obtain ⟨hextends, hdata⟩ := parsePartition_spec hfirst
    cases ok with
    | false =>
      cases h
      exact ⟨hextends, fun hfalse => absurd hfalse Bool.false_ne_true⟩
    | true =>
      obtain ⟨hrest, hpartitions⟩ := parsePartitions_spec h
      refine ⟨hextends.trans hrest, fun hsuccess partition hmem => ?_⟩
      rcases List.mem_cons.mp hmem with rfl | hmem
      · obtain ⟨s₁, hs₁, hparse⟩ := hdata rfl
        exact ⟨s₁, t, hs₁, hparse, hrest⟩
      · obtain ⟨s₁, s₂, hs₁, hparse, hs₂⟩ := hpartitions hsuccess partition hmem
        exact ⟨s₁, s₂, hextends.trans hs₁, hparse, hs₂⟩

/-- What is known of a scrubber that has been set up. -/
structure SetUp (disc : Volume) (s : DiscScrubber) : Prop where
  isScrubbing : s.isScrubbing = true
  fileSize_eq : s.fileSize = disc.dataSize
  length_eq : s.freeTable.length = u64 (disc.dataSize + clusterSize - 1) / clusterSize

theorem length_resize (table : List Bool) (numClusters : ℕ) :
    (resize table numClusters).length = numClusters := by
  unfold resize
  rw [List.length_append, List.length_take, List.length_replicate]
  omega

theorem setupScrub_spec (h : s.setupScrub disc = some (s', true)) (hdisc : disc.partitions ≠ []) :
    SetUp disc s' ∧ ∀ partition ∈ disc.partitions, ∃ s₁ s₂ : DiscScrubber,
      s₁.fileSize = disc.dataSize ∧ s₁.hasWiiHashes = disc.hasWiiHashes ∧
      s₁.parsePartitionData disc partition = some (s₂, true) ∧ ∀ i, s₂.Used i → s'.Used i := by
  unfold setupScrub at h
  obtain ⟨⟨t, success⟩, hparse, h⟩ := Option.bind_eq_some_iff.mp h
  cases h
  unfold parseDisc at hparse
  rw [if_neg hdisc] at hparse
  obtain ⟨s₀, hheader, hparse⟩ := Option.bind_eq_some_iff.mp hparse
  have hs₀ := markAsUsed_extends hheader
  obtain ⟨hextends, hpartitions⟩ := parsePartitions_spec hparse
  have hall := hs₀.trans hextends
  refine ⟨⟨rfl, hall.fileSize_eq, hall.length_eq.trans (length_resize _ _)⟩, fun partition hmem => ?_⟩
  obtain ⟨s₁, s₂, hs₁, hdata, hs₂⟩ := hpartitions rfl partition hmem
  exact ⟨s₁, s₂, (hs₀.trans hs₁).fileSize_eq, (hs₀.trans hs₁).hasWiiHashes_eq, hdata, hs₂.used⟩

theorem SetUp.canBlockBeScrubbed_eq {x : ℕ} (h : SetUp disc s)
    (hused : x / clusterSize * clusterSize < disc.dataSize → s.Used (x / clusterSize)) :
    s.canBlockBeScrubbed x = decide (disc.dataSize ≤ x / clusterSize * clusterSize) := by
  have hscrubbing : (!s.isScrubbing) = false := by rw [h.isScrubbing, Bool.not_true]
  unfold canBlockBeScrubbed
  dsimp only
  rw [hscrubbing, if_neg Bool.false_ne_true]
  by_cases hlt : x / clusterSize * clusterSize < disc.dataSize
  · have hat : s.freeTable[x / clusterSize]? = some false := hused hlt
    obtain ⟨hindex, -⟩ := List.getElem?_eq_some_iff.mp hat
    rw [List.getD_eq_getElem?_getD, hat, decide_eq_false (not_le.mpr hindex),
      decide_eq_false (not_le.mpr hlt)]
    rfl
  · have hlength : s.freeTable.length ≤ x / clusterSize := by
      rw [h.length_eq]
      have hmod : u64 (disc.dataSize + clusterSize - 1) ≤ disc.dataSize + clusterSize - 1 :=
        Nat.mod_le _ _
      refine (Nat.div_le_div_right hmod).trans ?_
      unfold clusterSize at *
      omega
    rw [decide_eq_true hlength, decide_eq_true (not_lt.mp hlt), Bool.true_or]

/-! ## Files -/

theorem shiftLeft_two_lt (v : BitVec 32) : v.toNat <<< 2 < 2 ^ 34 := by
  have hlt := v.isLt
  rw [Nat.shiftLeft_eq]
  omega

theorem WiiVolume.partition_lt {disc : WiiVolume} {partition : ℕ}
    (h : partition ∈ disc.getPartitions) : partition < 2 ^ 34 := by
  rw [getPartitions, List.mem_insertionSort, List.mem_dedup, List.mem_flatMap] at h
  obtain ⟨group, -, hgroup⟩ := h
  unfold partitionGroup at hgroup
  split at hgroup
  · obtain ⟨i, -, hentry⟩ := List.mem_filterMap.mp hgroup
    obtain ⟨partitionOffset, hoffset, hentry⟩ := Option.bind_eq_some_iff.mp hentry
    obtain ⟨_, -, hentry⟩ := Option.bind_eq_some_iff.mp hentry
    cases hentry
    obtain ⟨value, -, rfl⟩ := Option.map_eq_some_iff.mp hoffset
    exact shiftLeft_two_lt value
  · exact absurd hgroup List.not_mem_nil

theorem WiiVolume.partitionDataOffset_lt {disc : WiiVolume} {partition : ℕ}
    (h : partition ∈ disc.getPartitions) {partitionDataOffset : ℕ}
    (hdata : disc.volume.partitionDataOffset partition = some partitionDataOffset) :
    partitionDataOffset < 2 ^ 35 := by
  have hlt := partition_lt h
  unfold Volume.partitionDataOffset at hdata
  have hne : partition ≠ partitionNone := fun heq => by
    rw [heq] at hlt
    exact absurd hlt (by decide)
  rw [if_neg hne] at hdata
  obtain ⟨dataOffset, hread, rfl⟩ := Option.map_eq_some_iff.mp hdata
  obtain ⟨value, -, rfl⟩ := Option.map_eq_some_iff.mp hread
  have hvalue := shiftLeft_two_lt value
  have hmod : u64 (partition + value.toNat <<< 2) ≤ partition + value.toNat <<< 2 := Nat.mod_le _ _
  exact hmod.trans_lt (by omega)

theorem Volume.shift_le {disc : Volume} {partition : Partition} {root : Listing} {shift : ℕ}
    (h : disc.getFileSystem partition = some (root, shift)) : shift ≤ 2 := by
  obtain ⟨shift', hshift, h⟩ := Option.bind_eq_some_iff.mp h
  obtain ⟨root', -, h⟩ := Option.bind_eq_some_iff.mp h
  cases h
  unfold fileOffsetShift at hshift
  split at hshift
  · exact (Option.some_injective _ hshift).ge
  · split at hshift
    · exact (Option.some_injective _ hshift).symm.le.trans (by decide)
    · cases hshift

/-- **Files are not scrubbed.** Take a hashed partition of a Wii disc, whose data do not start at the
disc's first byte. Every cluster that overlaps a raw cluster with data of one of its files is in use;
the scrubber gives up only the clusters that are past the end of the disc. -/
theorem files_not_scrubbed {disc : WiiVolume} {s s' : DiscScrubber}
    (h : s.setupScrub disc.volume = some (s', true)) (hhashes : disc.hasHashes = true)
    {partition : Partition} (hpartition : partition ∈ disc.getPartitions) {root : Listing} {shift : ℕ}
    (hroot : disc.volume.getFileSystem partition = some (root, shift)) {partitionDataOffset : ℕ}
    (hdata : disc.volume.partitionDataOffset partition = some partitionDataOffset)
    (hstart : partitionDataOffset ≠ 0) {offset size : BitVec 32} (hfile : root.Contains offset size)
    {o : ℕ} (ho : offset.toNat <<< shift ≤ o ∧ o < offset.toNat <<< shift + size.toNat) {x : ℕ}
    (hx : partitionDataOffset + o / 0x7c00 * clusterSize ≤ x ∧
      x < partitionDataOffset + o / 0x7c00 * clusterSize + clusterSize) :
    s'.canBlockBeScrubbed x = decide (disc.dataSize ≤ x / clusterSize * clusterSize) := by
  have hlt := WiiVolume.partitionDataOffset_lt hpartition hdata
  obtain ⟨hsetUp, hparsed⟩ := setupScrub_spec h (List.ne_nil_of_mem hpartition)
  obtain ⟨s₁, s₂, hfileSize, hwii, hpartitionData, hused⟩ := hparsed partition hpartition
  obtain ⟨root', shift', partitionDataOffset', s₃, hroot', hdata', hs₃, hfiles⟩ :=
    (parsePartitionData_spec hpartitionData).2 rfl
  cases hroot.symm.trans hroot'
  cases hdata.symm.trans hdata'
  obtain ⟨t₁, t₂, hbefore, hafter, hmark⟩ := parseFileSystemData_marks hfile hfiles
  have ht₁ := hs₃.trans hbefore
  refine hsetUp.canBlockBeScrubbed_eq fun hdisc => hused _ (hafter.used _ ?_)
  have hoffset : offset.toNat <<< shift < 2 ^ 34 := by
    have hle : offset.toNat <<< shift ≤ offset.toNat <<< 2 := by
      rw [Nat.shiftLeft_eq, Nat.shiftLeft_eq]
      exact Nat.mul_le_mul_left _ (Nat.pow_le_pow_right (by decide) (Volume.shift_le hroot))
    exact hle.trans_lt (shiftLeft_two_lt offset)
  refine markAsUsedE_used hmark ?_ hstart hlt hoffset size.isLt ho hx ?_
  · rw [ht₁.hasWiiHashes_eq, hwii]
    exact hhashes
  · rw [ht₁.fileSize_eq, hfileSize]
    exact hdisc

/-! ## A disc with one file -/

/-- A disc with one partition, whose file system has one file. -/
def oneFile (dataSize : ℕ) (partition dataOffset offset size : BitVec 32) : WiiVolume where
  dataSize := dataSize
  hasHashes := true
  readSwapped address where_ :=
    if where_ ≠ partitionNone then
      if address = 0x18 then some 0x5D1C9EA3 else if address = 0x420 then some 0x100 else some 0
    else if address = 0x40000 then some 1
    else if address = 0x40004 then some 0x10008
    else if address = 0x40020 then some partition
    else if address = partition.toNat <<< 2 + 0x2b8 then some dataOffset
    else some 0
  root _ := some (.file offset size .nil)

/-- A scrubber that has not been set up. -/
def initial : DiscScrubber := ⟨[], 0, false, false⟩

/-- The position of the file that is free although its cluster stores a byte of the file: the cluster is
past the end of the disc, or the data of the partition start at the first byte of the disc, which is
taken for a disc without partitions. -/
theorem file_clusters_scrubbed :
    (((initial.setupScrub (oneFile 0x80000 0x14000 0x8001 0x1F01 0x8000).volume).map fun result =>
        (result.2, result.1.canBlockBeScrubbed (0x70004 + 0xF801 / 0x7c00 * clusterSize))) =
      some (true, true)) ∧
    (oneFile 0x108000 0 0 0x3E000 4).volume.partitionDataOffset 0 = some 0 ∧
    ((initial.setupScrub (oneFile 0x108000 0 0 0x3E000 4).volume).map fun result =>
        (result.2, result.1.canBlockBeScrubbed (0 + 0xF8000 / 0x7c00 * clusterSize))) =
      some (true, true) := by
  decide +kernel

/-- A partition and a file that start amid clusters. -/
def unaligned : WiiVolume := oneFile 0x90000 0x14000 0x8001 0x1F01 0x8000

theorem files_not_scrubbed_unaligned : ∃ s', initial.setupScrub unaligned.volume = some (s', true) ∧
    s'.canBlockBeScrubbed 0x88003 = false := by
  have hsuccess : ((initial.setupScrub unaligned.volume).map fun result => result.2) = some true := by
    decide +kernel
  obtain ⟨⟨s', success⟩, h, rfl⟩ := Option.map_eq_some_iff.mp hsuccess
  have hpartition : 0x50000 ∈ unaligned.getPartitions := by decide +kernel
  have hroot : unaligned.volume.getFileSystem 0x50000 = some (.file 0x1F01 0x8000 .nil, 2) := rfl
  have hdata : unaligned.volume.partitionDataOffset 0x50000 = some 0x70004 := by decide +kernel
  have ho : (0x1F01 : BitVec 32).toNat <<< 2 ≤ 0xF800 ∧
      0xF800 < (0x1F01 : BitVec 32).toNat <<< 2 + (0x8000 : BitVec 32).toNat := by decide
  have hx : 0x70004 + 0xF800 / 0x7c00 * clusterSize ≤ 0x88003 ∧
      0x88003 < 0x70004 + 0xF800 / 0x7c00 * clusterSize + clusterSize := by decide
  have hclusters := files_not_scrubbed h rfl hpartition hroot hdata (by decide) (.here .nil) ho hx
  exact ⟨s', h, hclusters⟩

end DiscScrubber
