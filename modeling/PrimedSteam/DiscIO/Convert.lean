import PrimedSteam.DiscIO.Coverage
import PrimedSteam.Lib.While

/-!
# The group loop of a conversion

`convertGroups` is the part of `Convert` that reads the disc group by group and hands the groups to
the compressor. `reads` and `asserts` are ghosts: the ranges read so far and the values of the
assertions met so far.

* `WholeDisc`: the invariant of the loop over the groups of the one raw data entry of a disc without
  encrypted partitions.
* **`group_loop_exact_iff`**: when the loop reads the whole disc and all assertions hold.
-/

set_option autoImplicit false

namespace DiscIO

open Tiling While SetUp

/-- What the loop learns from the input and from the compressor. -/
structure ConvertIO where
  /-- whether `infile->Read` succeeds at an offset with a size -/
  read : ℕ → ℕ → Bool
  /-- `mt_compressor.GetStatus()` before a group is read; `none` is success -/
  status : ℕ → Option ConversionResultCode

/-- What the compressor is told about a group. -/
structure CompressParameters where
  dataEntry : DataEntry
  dataOffset : ℕ
  bytesRead : ℕ
  groupIndex : ℕ
  deriving DecidableEq, Repr

/-- The variables of `Convert` that live across data entries. -/
structure ConvertState where
  groupsProcessed : ℕ
  bytesRead : ℕ
  compressed : List CompressParameters
  reads : List Range
  asserts : List Bool

/-- Those of one data entry. -/
structure EntryState extends ConvertState where
  dataOffset : ℕ
  dataSize : ℕ
  dataOffsetInPartition : ℕ

variable (io : ConvertIO) (chunkSize : ℕ)

/-- One iteration of the loop over the groups of a data entry. -/
def convertGroup (entry : DataEntry) (s : EntryState) : Except ConversionResultCode EntryState :=
  match io.status s.groupsProcessed with
  | some code => .error code
  | none =>
    let bytesToRead := if entry.isPartition then max chunkSize groupTotalSize else chunkSize
    let bytesToRead := min bytesToRead (sub64 (s.dataOffset + s.dataSize) s.bytesRead)
    if io.read s.bytesRead bytesToRead = false then .error .readFailed else
      let bytesRead := s.bytesRead + bytesToRead
      .ok { s with
        reads := s.reads ++ [(s.bytesRead, bytesRead)]
        bytesRead := bytesRead
        compressed :=
          s.compressed ++ [⟨entry, s.dataOffsetInPartition, bytesRead, s.groupsProcessed⟩]
        dataOffset := s.dataOffset + bytesToRead
        dataSize := sub64 s.dataSize bytesToRead
        dataOffsetInPartition := s.dataOffsetInPartition +
          if entry.isPartition then bytesToRead / blockTotalSize * blockDataSize else bytesToRead
        groupsProcessed := s.groupsProcessed + alignUp bytesToRead chunkSize / chunkSize }

/-- Where a data entry begins: its first and last group, offset and size, and the offset in its
partition. -/
structure EntryBounds where
  firstGroup : ℕ
  lastGroup : ℕ
  dataOffset : ℕ
  dataSize : ℕ
  dataOffsetInPartition : ℕ

def partitionBounds (partitionEntry : PartitionEntry) (i : ℕ) : EntryBounds :=
  let e := partitionEntry.dataEntry i
  let blockInPartition := toU32 (e.firstSector + (2 ^ 32 - (partitionEntry.dataEntry 0).firstSector))
  { firstGroup := e.groupIndex
    lastGroup := toU32 (e.groupIndex + e.numberOfGroups)
    dataOffset := e.firstSector * blockTotalSize
    dataSize := e.numberOfSectors * blockTotalSize
    dataOffsetInPartition := blockInPartition * blockDataSize }

def rawBounds (e : RawDataEntry) : EntryBounds :=
  let skippedData := e.dataOffset % blockTotalSize
  { firstGroup := e.groupIndex
    lastGroup := toU32 (e.groupIndex + e.numberOfGroups)
    dataOffset := e.dataOffset - skippedData
    dataSize := e.dataSize + skippedData
    dataOffsetInPartition := e.dataOffset - skippedData }

def entryBounds (st : SetUp) (entry : DataEntry) : Option EntryBounds :=
  if entry.isPartition then
    (st.partitionEntries[entry.index]?).map fun p => partitionBounds p entry.partitionDataIndex
  else (st.rawDataEntries[entry.index]?).map rawBounds

/-- The loop body for one data entry: two assertions, the groups, one assertion. -/
def convertEntry (fuel : ℕ) (entry : DataEntry) (b : EntryBounds) (s : ConvertState) :
    Option (Except ConversionResultCode ConvertState) :=
  let start : EntryState :=
    { s with
      asserts := s.asserts ++
        [decide (s.groupsProcessed = b.firstGroup), decide (s.bytesRead = b.dataOffset)]
      dataOffset := b.dataOffset
      dataSize := b.dataSize
      dataOffsetInPartition := b.dataOffsetInPartition }
  (whileLoop (fun s => decide (s.groupsProcessed < b.lastGroup)) (convertGroup io chunkSize entry)
    fuel start).map fun r => r.map fun s =>
      { s.toConvertState with asserts := s.asserts ++ [decide (s.dataSize = 0)] }

/-- The loop over the data entries. An index out of range would be undefined behaviour. -/
def convertEntries (fuel : ℕ) (st : SetUp) :
    List DataEntry → ConvertState → Option (Except ConversionResultCode ConvertState)
  | [], s => some (.ok s)
  | entry :: entries, s =>
    match entryBounds st entry with
    | none => none
    | some b =>
      match convertEntry io chunkSize fuel entry b s with
      | some (.ok s) => convertEntries fuel st entries s
      | r => r

/-- The reading part of `Convert`, up to its last two assertions. -/
def convertGroups (fuel : ℕ) (st : SetUp) (isoSize : ℕ) :
    Option (Except ConversionResultCode ConvertState) :=
  (convertEntries io chunkSize fuel st st.dataEntries ⟨0, 0, [], [], []⟩).map fun r => r.map fun s =>
    { s with
      asserts := s.asserts ++
        [decide (s.groupsProcessed = st.totalGroups), decide (s.bytesRead = isoSize)] }

/-- Reads inside the disc succeed, and so does the compressor. -/
structure ConvertIO.Succeeds (isoSize : ℕ) : Prop where
  read : ∀ offset size, offset + size ≤ isoSize → io.read offset size = true
  status : ∀ group, io.status group = none

/-- The loop has read each byte of the disc once and in order, has processed the groups reserved
for the one entry, and all assertions held. -/
structure ReadsWholeDisc (st : SetUp) (isoSize : ℕ) (s : ConvertState) : Prop where
  reads : ExactCover 0 isoSize s.reads
  groups : ∃ e, st.rawDataEntries = [e] ∧ s.groupsProcessed = e.numberOfGroups
  asserts : ∀ b ∈ s.asserts, b = true

/-! ## Counting chunks -/

section Chunks

variable {chunkSize}

/-- How many chunks `size` bytes take. -/
def chunks (size chunkSize : ℕ) : ℕ := (size + (chunkSize - 1)) / chunkSize

theorem lt_chunks_iff (hc : 0 < chunkSize) {k size : ℕ} :
    k < chunks size chunkSize ↔ k * chunkSize < size := by
  unfold chunks
  rw [← Nat.succ_le_iff, Nat.le_div_iff_mul_le hc, Nat.succ_mul]
  omega

theorem alignUp_div_le (hc : 0 < chunkSize) (size : ℕ) :
    alignUp size chunkSize / chunkSize ≤ chunks size chunkSize := by
  unfold alignUp alignDown chunks
  rw [← Nat.div_mul_self_eq_mod_sub_self, Nat.mul_div_cancel _ hc]
  exact Nat.div_le_div_right (Nat.mod_le _ _)

theorem alignUp_div (hc : 0 < chunkSize) {size : ℕ} (h : size + (chunkSize - 1) < 2 ^ 64) :
    alignUp size chunkSize / chunkSize = chunks size chunkSize := by
  unfold alignUp alignDown chunks
  rw [Nat.mod_eq_of_lt h, ← Nat.div_mul_self_eq_mod_sub_self, Nat.mul_div_cancel _ hc]

/-- What `AddRawDataEntry` reserves for a range. -/
def reservedGroups (size chunkSize : ℕ) : ℕ := toU32 (alignUp size chunkSize / chunkSize)

theorem reservedGroups_le (hc : 0 < chunkSize) (size : ℕ) :
    reservedGroups size chunkSize ≤ chunks size chunkSize :=
  (Nat.mod_le _ _).trans (alignUp_div_le hc size)

theorem le_reservedGroups_iff (hc : 0 < chunkSize) (hc32 : chunkSize < 2 ^ 31) {isoSize : ℕ}
    (hheader : skipSize < isoSize) :
    isoSize ≤ reservedGroups (isoSize - skipSize) chunkSize * chunkSize ↔
      skipSize ≤ (isoSize - 1) % chunkSize ∧ isoSize ≤ (2 ^ 32 - 1) * chunkSize := by
  have hdiv := Nat.div_add_mod (isoSize - 1) chunkSize
  have hmod := Nat.mod_lt (isoSize - 1) hc
  rw [Nat.mul_comm] at hdiv
  generalize (isoSize - 1) / chunkSize = q at hdiv
  generalize (isoSize - 1) % chunkSize = r at hdiv hmod ⊢
  have hlt : reservedGroups (isoSize - skipSize) chunkSize ≤ 2 ^ 32 - 1 := by
    unfold reservedGroups toU32
    omega
  constructor
  · intro h
    have hbound := h.trans (Nat.mul_le_mul_right chunkSize hlt)
    refine ⟨?_, hbound⟩
    by_contra hr
    -- The disc without its header ends before the last chunk begins.
    have hfew : ¬ q < chunks (isoSize - skipSize) chunkSize := by
      rw [lt_chunks_iff hc]
      omega
    have hle := Nat.mul_le_mul_right chunkSize
      ((reservedGroups_le hc (isoSize - skipSize)).trans (not_lt.mp hfew))
    omega
  · rintro ⟨hr, hbound⟩
    have hq : q + 1 ≤ 2 ^ 32 - 1 := by
      by_contra hq
      have := Nat.mul_le_mul_right chunkSize (by omega : 2 ^ 32 - 1 ≤ q)
      omega
    have hmany : q < chunks (isoSize - skipSize) chunkSize := by
      rw [lt_chunks_iff hc]
      omega
    have hexact : ¬ q + 1 < chunks (isoSize - skipSize) chunkSize := by
      rw [lt_chunks_iff hc, Nat.succ_mul]
      omega
    have hchunks : chunks (isoSize - skipSize) chunkSize = q + 1 := by omega
    have hres : reservedGroups (isoSize - skipSize) chunkSize = q + 1 := by
      unfold reservedGroups toU32
      rw [alignUp_div hc (by omega), hchunks]
      omega
    rw [hres, Nat.succ_mul]
    omega

end Chunks

/-! ## The one raw data entry of a disc without encrypted partitions -/

section WholeDisc

variable {io chunkSize} {isoSize : ℕ}

theorem addRawDataEntry_fields (chunkSize : ℕ) (st : SetUp) {offset size skip rest : ℕ}
    (hskip : headerSkip offset size = skip) (hrest : sub64 size skip = rest) (h : rest ≠ 0) :
    (addRawDataEntry chunkSize st offset size).rawDataEntries = st.rawDataEntries ++
        [⟨offset + skip, rest, st.totalGroups, reservedGroups rest chunkSize⟩] ∧
      (addRawDataEntry chunkSize st offset size).dataEntries =
        st.dataEntries ++ [⟨st.rawDataEntries.length, false, 0⟩] ∧
      (addRawDataEntry chunkSize st offset size).totalGroups =
        toU32 (st.totalGroups + reservedGroups rest chunkSize) := by
  subst hskip hrest
  unfold addRawDataEntry
  dsimp only
  rw [if_neg h]
  exact ⟨rfl, rfl, rfl⟩

theorem setUp_of_no_partitions {volume : Option Volume} (hvol : partitionsForWriting volume = [])
    {st : SetUp} (h : setUpDataEntriesForWriting volume chunkSize isoSize = .ok st)
    (hheader : skipSize < isoSize) (hiso : isoSize < 2 ^ 64) :
    st.rawDataEntries =
        [⟨skipSize, isoSize - skipSize, 0, reservedGroups (isoSize - skipSize) chunkSize⟩] ∧
      st.dataEntries = [⟨0, false, 0⟩] ∧
      st.totalGroups = reservedGroups (isoSize - skipSize) chunkSize := by
  have hst : st = setUpRest chunkSize isoSize .empty := by
    unfold setUpDataEntriesForWriting at h
    split at h
    · exact (Except.ok.inj h).symm
    · rw [hvol, setUpPartitions] at h
      exact (Except.ok.inj h).symm
  have hsize : sub64 isoSize SetUp.empty.lastPartitionEndOffset = isoSize :=
    sub64_of_le (Nat.zero_le _) hiso
  have hskip : headerSkip 0 isoSize = skipSize := by
    have hsub : sub64 skipSize 0 = skipSize := sub64_of_le (Nat.zero_le _) (by decide)
    unfold headerSkip
    rw [hsub, if_pos (by decide), Nat.min_eq_left hheader.le]
  obtain ⟨hraw, hdata, htotal⟩ := addRawDataEntry_fields chunkSize
    { SetUp.empty with subtractions := [(isoSize, 0)] } hskip
    (sub64_of_le hheader.le hiso) (by omega)
  rw [hst, setUpRest, hsize]
  refine ⟨hraw, hdata, htotal.trans ?_⟩
  show toU32 (0 + _) = _
  unfold reservedGroups toU32
  omega

/-- The invariant of the group loop. -/
structure WholeDisc (chunkSize isoSize groups : ℕ) (s : EntryState) : Prop where
  groups_le : s.groupsProcessed ≤ groups
  bytesRead_eq : s.bytesRead = min (s.groupsProcessed * chunkSize) isoSize
  dataOffset_eq : s.dataOffset = s.bytesRead
  dataSize_eq : s.dataSize = isoSize - s.bytesRead
  reads : Tiles 0 s.bytesRead s.reads
  asserts : s.asserts = [true, true]

/-- **One iteration of the group loop**, on a disc of which a chunk is left. -/
theorem WholeDisc.step {groups : ℕ} {s : EntryState} (h : WholeDisc chunkSize isoSize groups s)
    (hio : io.Succeeds isoSize) (hc : 0 < chunkSize) (hc32 : chunkSize < 2 ^ 31)
    (hiso : isoSize < 2 ^ 64) (hgroups : groups ≤ chunks isoSize chunkSize)
    (hlt : s.groupsProcessed < groups) (index : ℕ) :
    ∃ s', convertGroup io chunkSize ⟨index, false, 0⟩ s = .ok s' ∧
      WholeDisc chunkSize isoSize groups s' ∧ s'.groupsProcessed = s.groupsProcessed + 1 := by
  have hleft : s.groupsProcessed * chunkSize < isoSize :=
    (lt_chunks_iff hc).mp (hlt.trans_le hgroups)
  have hread : s.bytesRead = s.groupsProcessed * chunkSize := by
    rw [h.bytesRead_eq, Nat.min_eq_left hleft.le]
  have hsum : s.dataOffset + s.dataSize = isoSize := by
    rw [h.dataOffset_eq, h.dataSize_eq]
    omega
  have hsub : sub64 isoSize s.bytesRead = isoSize - s.bytesRead := sub64_of_le (by omega) hiso
  have hone : alignUp (min chunkSize (isoSize - s.bytesRead)) chunkSize / chunkSize = 1 := by
    rw [alignUp_div hc (by omega), chunks]
    exact Nat.div_eq_of_lt_le (by omega) (by omega)
  unfold convertGroup
  rw [hio.status]
  dsimp only
  rw [if_neg Bool.false_ne_true, if_neg Bool.false_ne_true, hsum, hsub, hio.read _ _ (by omega),
    if_neg Bool.false_ne_true.symm, hone]
  refine ⟨_, rfl, ⟨hlt, ?_, ?_, ?_, ?_, h.asserts⟩, rfl⟩
  · dsimp only
    rw [Nat.succ_mul, ← hread]
    omega
  · dsimp only
    rw [h.dataOffset_eq]
  · dsimp only
    rw [h.dataSize_eq, sub64_of_le (by omega) (by omega)]
    omega
  · exact h.reads.append (tiles_singleton (Nat.le_add_right _ _))

theorem wholeDisc_start (chunkSize isoSize groups : ℕ) :
    WholeDisc chunkSize isoSize groups ⟨⟨0, 0, [], [], [true, true]⟩, 0, isoSize, 0⟩ where
  groups_le := Nat.zero_le _
  bytesRead_eq := by rw [Nat.zero_mul, Nat.zero_min]
  dataOffset_eq := rfl
  dataSize_eq := rfl
  reads := rfl
  asserts := rfl

theorem whileLoop_wholeDisc {groups : ℕ} (hio : io.Succeeds isoSize) (hc : 0 < chunkSize)
    (hc32 : chunkSize < 2 ^ 31) (hiso : isoSize < 2 ^ 64)
    (hgroups : groups ≤ chunks isoSize chunkSize) (index : ℕ) :
    (∀ fuel, groups < fuel → ∃ s, whileLoop (fun s => decide (s.groupsProcessed < groups))
      (convertGroup io chunkSize ⟨index, false, 0⟩) fuel
      ⟨⟨0, 0, [], [], [true, true]⟩, 0, isoSize, 0⟩ = some (.ok s)) ∧
    ∀ fuel s, whileLoop (fun s => decide (s.groupsProcessed < groups))
        (convertGroup io chunkSize ⟨index, false, 0⟩) fuel
        ⟨⟨0, 0, [], [], [true, true]⟩, 0, isoSize, 0⟩ = some (.ok s) →
      WholeDisc chunkSize isoSize groups s ∧ s.groupsProcessed = groups := by
  have hstart := wholeDisc_start chunkSize isoSize groups
  constructor
  · intro fuel hfuel
    refine whileLoop_terminates (fun s => groups - s.groupsProcessed) (fun s hI hcond => ?_) hstart
      hfuel
    have hlt : s.groupsProcessed < groups := of_decide_eq_true hcond
    obtain ⟨s', hs', hI', hnext⟩ := hI.step hio hc hc32 hiso hgroups hlt index
    exact ⟨s', hs', hI', by omega⟩
  · intro fuel s hs
    obtain ⟨hI, hcond⟩ := whileLoop_invariant (fun s s' hI hcond hs' => by
      obtain ⟨s₁, hs₁, hI₁, -⟩ :=
        hI.step hio hc hc32 hiso hgroups (of_decide_eq_true hcond) index
      rw [hs₁] at hs'
      exact Except.ok.inj hs' ▸ hI₁) hstart hs
    have hge : ¬ s.groupsProcessed < groups := of_decide_eq_false hcond
    have := hI.groups_le
    exact ⟨hI, by omega⟩

theorem convertGroups_of_no_partitions {volume : Option Volume}
    (hvol : partitionsForWriting volume = []) {st : SetUp}
    (h : setUpDataEntriesForWriting volume chunkSize isoSize = .ok st)
    (hheader : skipSize < isoSize) (hiso : isoSize < 2 ^ 64) (io : ConvertIO) (fuel : ℕ) :
    convertGroups io chunkSize fuel st isoSize =
      (whileLoop (fun s => decide
          (s.groupsProcessed < reservedGroups (isoSize - skipSize) chunkSize))
        (convertGroup io chunkSize ⟨0, false, 0⟩) fuel
        ⟨⟨0, 0, [], [], [true, true]⟩, 0, isoSize, 0⟩).map fun r => r.map fun s =>
          { s.toConvertState with
            asserts := s.asserts ++ [decide (s.dataSize = 0)] ++
              [decide (s.groupsProcessed = reservedGroups (isoSize - skipSize) chunkSize),
                decide (s.bytesRead = isoSize)] } := by
  obtain ⟨hraw, hdata, htotal⟩ := setUp_of_no_partitions hvol h hheader hiso
  have hbounds : entryBounds st ⟨0, false, 0⟩ =
      some ⟨0, reservedGroups (isoSize - skipSize) chunkSize, 0, isoSize, 0⟩ := by
    have hskipped : skipSize % blockTotalSize = skipSize := by decide
    have hlast : toU32 (0 + reservedGroups (isoSize - skipSize) chunkSize) =
        reservedGroups (isoSize - skipSize) chunkSize := by
      unfold reservedGroups toU32
      omega
    unfold entryBounds
    rw [if_neg Bool.false_ne_true, hraw, List.getElem?_cons_zero, Option.map_some]
    unfold rawBounds
    dsimp only
    rw [hskipped, hlast, Nat.sub_self, Nat.sub_add_cancel hheader.le]
  unfold convertGroups
  rw [hdata, htotal]
  simp only [convertEntries, hbounds, convertEntry]
  rw [decide_true, List.nil_append]
  generalize whileLoop _ _ fuel _ = result
  rcases result with _ | _ | _ <;> rfl

end WholeDisc

theorem reads_whole_disc_iff {volume : Option Volume} {chunkSize isoSize : ℕ} {st : SetUp}
    {io : ConvertIO} (hvol : partitionsForWriting volume = []) (hc : 0 < chunkSize)
    (hc32 : chunkSize < 2 ^ 31) (hheader : skipSize < isoSize) (hiso : isoSize < 2 ^ 64)
    (hst : setUpDataEntriesForWriting volume chunkSize isoSize = .ok st)
    (hio : io.Succeeds isoSize) :
    (∃ fuel s, convertGroups io chunkSize fuel st isoSize = some (.ok s) ∧
        ReadsWholeDisc st isoSize s) ↔
      isoSize ≤ reservedGroups (isoSize - skipSize) chunkSize * chunkSize := by
  obtain ⟨hraw, -, -⟩ := setUp_of_no_partitions hvol hst hheader hiso
  have hle : reservedGroups (isoSize - skipSize) chunkSize ≤ chunks isoSize chunkSize :=
    (reservedGroups_le hc _).trans
      (Nat.div_le_div_right (Nat.add_le_add_right (Nat.sub_le _ _) _))
  obtain ⟨hrun, hspec⟩ := whileLoop_wholeDisc hio hc hc32 hiso hle 0
  simp only [convertGroups_of_no_partitions hvol hst hheader hiso]
  generalize reservedGroups (isoSize - skipSize) chunkSize = groups at *
  constructor
  · rintro ⟨fuel, s, hs, hall⟩
    obtain ⟨r, hr, hmap⟩ := Option.map_eq_some_iff.mp hs
    cases r with
    | error e => cases hmap
    | ok s₁ =>
      obtain ⟨hI, hgroups⟩ := hspec fuel s₁ hr
      obtain rfl := Except.ok.inj hmap
      have hread : decide (s₁.bytesRead = isoSize) = true := hall.asserts _ (by simp)
      have hmin := hI.bytesRead_eq
      rw [of_decide_eq_true hread, hgroups] at hmin
      omega
  · intro hlarge
    obtain ⟨s, hs⟩ := hrun (groups + 1) (Nat.lt_succ_self _)
    obtain ⟨hI, hgroups⟩ := hspec _ s hs
    have hread : s.bytesRead = isoSize := by
      rw [hI.bytesRead_eq, hgroups, Nat.min_eq_right hlarge]
    have hsize : s.dataSize = 0 := by
      rw [hI.dataSize_eq, hread, Nat.sub_self]
    refine ⟨groups + 1,
      { s.toConvertState with
        asserts := s.asserts ++ [decide (s.dataSize = 0)] ++
          [decide (s.groupsProcessed = groups), decide (s.bytesRead = isoSize)] },
      by rw [hs]; rfl, ⟨hread ▸ hI.reads.exactCover, ⟨_, hraw, hgroups⟩, ?_⟩⟩
    simp [hI.asserts, hsize, hgroups, hread]

/-- **When the group loop reads the whole disc.** On a disc without encrypted partitions the loop
reads each byte once and in order, processes the groups reserved for the one data entry and passes
all assertions, if and only if the last chunk of the disc holds more bytes than the disc header and
the number of chunks fits into 32 bits. -/
theorem group_loop_exact_iff {volume : Option Volume} {chunkSize isoSize : ℕ} {st : SetUp}
    {io : ConvertIO} (hvol : partitionsForWriting volume = []) (hc : 0 < chunkSize)
    (hc32 : chunkSize < 2 ^ 31) (hheader : skipSize < isoSize) (hiso : isoSize < 2 ^ 64)
    (hst : setUpDataEntriesForWriting volume chunkSize isoSize = .ok st)
    (hio : io.Succeeds isoSize) :
    (∃ fuel s, convertGroups io chunkSize fuel st isoSize = some (.ok s) ∧
        ReadsWholeDisc st isoSize s) ↔
      skipSize ≤ (isoSize - 1) % chunkSize ∧ isoSize ≤ (2 ^ 32 - 1) * chunkSize := by
  rw [reads_whole_disc_iff hvol hc hc32 hheader hiso hst hio,
    le_reservedGroups_iff hc hc32 hheader]

/-- An input whose reads all succeed. -/
def ConvertIO.reliable : ConvertIO := ⟨fun _ _ => true, fun _ => none⟩

theorem group_loop_exact_iff_threeChunks :
    ∃ st, setUpDataEntriesForWriting none 0x20000 0x50000 = .ok st ∧
      ∃ fuel s, convertGroups .reliable 0x20000 fuel st 0x50000 = some (.ok s) ∧
        ReadsWholeDisc st 0x50000 s := by
  obtain ⟨st, hst⟩ : ∃ st, setUpDataEntriesForWriting none 0x20000 0x50000 = .ok st := ⟨_, rfl⟩
  exact ⟨st, hst, (group_loop_exact_iff rfl (by decide) (by decide) (by decide) (by decide) hst
    ⟨fun _ _ _ => rfl, fun _ => rfl⟩).mpr (by decide)⟩

/-- **A short last chunk.** A disc of `0x20040` bytes takes two chunks of `0x20000` bytes, but without
its header only one, so one group is reserved and the last `0x40` bytes are not read. -/
theorem short_last_chunk :
    ∃ st s, setUpDataEntriesForWriting none 0x20000 0x20040 = .ok st ∧
      convertGroups .reliable 0x20000 2 st 0x20040 = some (.ok s) ∧ s.reads = [(0, 0x20000)] ∧
      s.asserts = [true, true, false, true, false] ∧
      ¬ ∃ fuel s, convertGroups .reliable 0x20000 fuel st 0x20040 = some (.ok s) ∧
        ReadsWholeDisc st 0x20040 s := by
  have hst : setUpDataEntriesForWriting none 0x20000 0x20040 =
      .ok (setUpRest 0x20000 0x20040 .empty) := rfl
  obtain ⟨r, hr, hs⟩ := Option.map_eq_some_iff.mp
    (show (convertGroups .reliable 0x20000 2 (setUpRest 0x20000 0x20040 .empty) 0x20040).map
        (fun r => r.toOption.map fun s => (s.reads, s.asserts)) =
      some (some ([(0, 0x20000)], [true, true, false, true, false])) by decide +kernel)
  cases r with
  | error e => cases hs
  | ok s =>
    obtain ⟨hreads, hasserts⟩ := Prod.mk.inj (Option.some.inj hs)
    refine ⟨_, s, hst, hr, hreads, hasserts, ?_⟩
    rw [reads_whole_disc_iff rfl (by decide) (by decide) (by decide) (by decide) hst
      ⟨fun _ _ _ => rfl, fun _ => rfl⟩]
    decide

end DiscIO
