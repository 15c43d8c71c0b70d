import PrimedSteam.DiscIO.WiiEncryption

/-!
# Encrypted groups are checked and read back

What `encryptGroup` makes of the data of a partition passes `checkBlockIntegrity`, and `read` gets
the data back.

* `encryptGroup_spec`: the encrypted blocks of a group, for every schedule.
* `checkHashes_sequential`: the hashes that were computed pass the check.
* `readLoop_spec`: a range of a partition whose blocks are on the disc is read.
* `group_agrees`: the whole blocks of the partition data come back, and zeroes for the rest.
* `partial_block_lost`: the data of a block that is not whole is lost.
-/

set_option autoImplicit false

namespace VolumeWii

open Tasks Transition Program AES

variable {sha1 : List Byte → Digest} {rounds : Rounds} {key : Block}

/-! ## The data of a partition -/

/-- The blob has the decrypted data of the partition at `partitionDataOffset`. -/
def BlobReader.Holds (blob : BlobReader) (partitionDataOffset : ℕ) (data : Buffer) (size : ℕ) :
    Prop :=
  ∀ offset length, offset + length ≤ size → ∃ bytes,
    blob.readWiiDecrypted offset length partitionDataOffset = some bytes ∧
      ∀ k < length, bytes k = data (offset + k)

/-- The data in whole blocks, and zeroes after them. -/
def wholeBlocks (data : Buffer) (size : ℕ) : Buffer := fun q =>
  if (q / blockDataSize + 1) * blockDataSize ≤ size then data q else 0

/-- Data of a size in whole blocks is all there. -/
theorem wholeBlocks_eq (data : Buffer) {size q : ℕ} (hsize : blockDataSize ∣ size) (hq : q < size) :
    wholeBlocks data size q = data q := by
  obtain ⟨n, rfl⟩ := hsize
  have hblock : q / blockDataSize < n := Nat.div_lt_of_lt_mul hq
  rw [wholeBlocks, if_pos]
  rw [Nat.mul_comm blockDataSize n]
  exact Nat.mul_le_mul_right blockDataSize hblock

/-- The data of block `j` of a group. -/
def blockData (data : Buffer) (size group j : ℕ) : Buffer := fun k =>
  wholeBlocks data size ((group * blocksPerGroup + j) * blockDataSize + k)

/-- The arrays of a group before it is hashed, but with its data. -/
def groupArrays (data : Buffer) (size group : ℕ) : Arrays :=
  ⟨blockData data size group, fun _ => .zero⟩

section Blocks

variable {blob : BlobReader} {partitionDataOffset size group : ℕ} {data : Buffer}

theorem readBlock_spec (hblob : blob.Holds partitionDataOffset data size)
    (hfits : partitionDataOffset + (group + 1) * groupTotalSize ≤ 2 ^ 64) {j : ℕ}
    (hj : j < blocksPerGroup) : ∃ bytes,
    readBlock blob (group * groupDataSize) partitionDataOffset size j = some bytes ∧
      ∀ k < blockDataSize, bytes k = blockData data size group j k := by
  have hoffset : group * groupDataSize + j * blockDataSize =
      (group * blocksPerGroup + j) * blockDataSize := by
    rw [groupDataSize, Nat.mul_comm blockDataSize, ← Nat.mul_assoc, ← Nat.add_mul]
  have hnext : group * groupDataSize + (j + 1) * blockDataSize =
      (group * blocksPerGroup + j + 1) * blockDataSize := by
    rw [Nat.succ_mul, ← Nat.add_assoc, hoffset, Nat.succ_mul]
  have hlt : group * groupDataSize + (j + 1) * blockDataSize < 2 ^ 64 := by
    simp only [groupDataSize, groupTotalSize, blockTotalSize, blockHeaderSize, blockDataSize,
      blocksPerGroup] at hfits hj ⊢
    omega
  have hwraps : u64 (group * groupDataSize + (j + 1) * blockDataSize) =
      (group * blocksPerGroup + j + 1) * blockDataSize := by
    rw [u64, Nat.mod_eq_of_lt hlt, hnext]
  have hblock : ∀ k < blockDataSize,
      ((group * blocksPerGroup + j) * blockDataSize + k) / blockDataSize =
        group * blocksPerGroup + j := by
    intro k hk
    rw [Nat.mul_comm, Nat.mul_add_div (by decide), Nat.div_eq_of_lt hk, Nat.add_zero]
  rw [readBlock, hwraps]
  split
  · rename_i hwhole
    have hstart : u64 (group * groupDataSize + j * blockDataSize) =
        (group * blocksPerGroup + j) * blockDataSize := by
      rw [u64, Nat.mod_eq_of_lt, hoffset]
      rw [Nat.succ_mul] at hlt
      omega
    rw [hstart]
    obtain ⟨bytes, hread, hbytes⟩ := hblob _ blockDataSize (by rwa [Nat.succ_mul] at hwhole)
    refine ⟨bytes, hread, fun k hk => ?_⟩
    rw [hbytes k hk, blockData, wholeBlocks, hblock k hk, if_pos hwhole]
  · rename_i hwhole
    refine ⟨_, rfl, fun k hk => ?_⟩
    rw [blockData, wholeBlocks, hblock k hk, if_neg hwhole]

theorem slice_congr {a b : Buffer} {offset offset' length : ℕ}
    (h : ∀ k < length, a (offset + k) = b (offset' + k)) :
    slice a offset length = slice b offset' length :=
  List.map_congr_left fun k hk => h k (List.mem_range.mp hk)

theorem slice_append (a : Buffer) (offset n m : ℕ) :
    slice a offset (n + m) = slice a offset n ++ slice a (offset + n) m := by
  rw [slice, List.range_add, List.map_append, List.map_map]
  congr 1
  exact List.map_congr_left fun k _ => by simp only [Function.comp_apply, Nat.add_assoc]

theorem sequentialHashes_congr (m m' : Arrays) (hout : m.out = m'.out)
    (h : ∀ i < 64, ∀ k < blockDataSize, m.data i k = m'.data i k) {i : ℕ} (hi : i < 64) :
    sequentialHashes sha1 m i = sequentialHashes sha1 m' i := by
  have hh0 : ∀ i < 64, hashH0 sha1 m i = hashH0 sha1 m' i := by
    intro i hi
    have hslice : ∀ j : Fin 31,
        slice (m.data i) (j * 0x400) 0x400 = slice (m'.data i) (j * 0x400) 0x400 := by
      intro j
      have hj := j.isLt
      refine slice_congr fun k hk => h i hi _ ?_
      simp only [blockDataSize]
      omega
    simp only [hashH0, hout, hslice]
  have hh1 : ∀ i < 64, hashH1 sha1 (hashH0 sha1 m) i = hashH1 sha1 (hashH0 sha1 m') i := by
    intro i hi
    have hsubgroup : ∀ k : Fin 8,
        hashH0 sha1 m (i / 8 * 8 + k) = hashH0 sha1 m' (i / 8 * 8 + k) :=
      fun k => hh0 _ (by omega)
    simp only [hashH1, hh0 i hi, hsubgroup]
  have hall : ∀ b : Fin 8, hashH1 sha1 (hashH0 sha1 m) (8 * b) =
      hashH1 sha1 (hashH0 sha1 m') (8 * b) := fun b => hh1 _ (by omega)
  simp only [sequentialHashes, hashH2, hh1 i hi, hall]

theorem success_readBlock (hblob : blob.Holds partitionDataOffset data size)
    (hfits : partitionDataOffset + (group + 1) * groupTotalSize ≤ 2 ^ 64) :
    success (some (readBlock blob (group * groupDataSize) partitionDataOffset size))
      blocksPerGroup = true := by
  have hsuccess : ∀ n ≤ blocksPerGroup,
      success (some (readBlock blob (group * groupDataSize) partitionDataOffset size)) n = true := by
    intro n hn
    induction n with
    | zero => rfl
    | succ n ih =>
      obtain ⟨bytes, hread, -⟩ := readBlock_spec hblob hfits (Nat.lt_of_succ_le hn)
      rw [success, ih (Nat.le_of_succ_le hn), hread]
      rfl
  exact hsuccess _ le_rfl

/-- **The encrypted blocks of a group**, for every schedule that runs to the end. -/
theorem encryptGroup_spec (hblob : blob.Holds partitionDataOffset data size)
    (hfits : partitionDataOffset + (group + 1) * groupTotalSize ≤ 2 ^ 64)
    {hashSchedule : List Task} {encryptSchedule : List ℕ} {hardwareConcurrency : ℕ} {out : Buffer}
    {result : Option Buffer}
    (h : encryptGroup sha1 rounds hashSchedule encryptSchedule hardwareConcurrency
      (group * groupDataSize) partitionDataOffset size key blob out none = some result) :
    ∃ out', result = some out' ∧ ∀ j < blocksPerGroup, ∃ block : Buffer,
      (∀ k < blockDataSize, block k = blockData data size group j k) ∧
      ∀ k < blockTotalSize, out' (j * blockTotalSize + k) =
        encrypted rounds key (sequentialHashes sha1 (groupArrays data size group) j) block k := by
  have hall := success_readBlock hblob hfits
  obtain ⟨⟨success, m⟩, hhash, hrest⟩ := Option.bind_eq_some_iff.mp h
  obtain ⟨rfl, hm⟩ := hashGroup_spec hall hhash
  simp only [if_true, Option.getD_none, id_eq] at hrest
  obtain ⟨s, hrun, hs⟩ := Option.bind_eq_some_iff.mp hrest
  split at hs
  · rename_i hover
    cases hs
    refine ⟨s.memory, rfl, fun j hj => ?_⟩
    have hthreads : 0 < min blocksPerGroup (max 1 hardwareConcurrency) := by
      simp only [blocksPerGroup]
      omega
    have hdata : ∀ i < 64, ∀ k < blockDataSize,
        groupData (some (readBlock blob (group * groupDataSize) partitionDataOffset size))
          ⟨fun _ _ => 0, fun _ => .zero⟩ i k = blockData data size group i k := by
      intro i hi k hk
      obtain ⟨bytes, hread, hbytes⟩ := readBlock_spec hblob hfits hi
      rw [groupData, Option.bind_some, hread, Option.getD_some, hbytes k hk]
    refine ⟨m.data j, fun k hk => ?_, fun k hk => ?_⟩
    · rw [(hm j hj).1, hdata j hj k hk]
    · have hhashes := @sequentialHashes_congr sha1
        ⟨groupData (some (readBlock blob (group * groupDataSize) partitionDataOffset size))
          ⟨fun _ _ => 0, fun _ => .zero⟩, fun _ => .zero⟩
        (groupArrays data size group) rfl hdata j hj
      rw [encrypted_of_finished hthreads hrun hover hj k hk, (hm j hj).2, hhashes]
  · cases hs

end Blocks

/-! ## The check -/

/-- **The hashes of a block of a group pass the check.** -/
theorem checkHashes_sequential {m : Arrays} {group j : ℕ} (hj : j < blocksPerGroup)
    {clusterData : Buffer} {h3Table : List Byte}
    (hdata : ∀ k < blockDataSize, clusterData k = m.data j k)
    (hh3 : digestAt h3Table (group * 20) = sha1 (digestBytes (sequentialHashes sha1 m 0).h2)) :
    checkHashes sha1 (group * blocksPerGroup + j) (sequentialHashes sha1 m j) clusterData h3Table =
      true := by
  have hj' : j < 64 := hj
  have hslice : ∀ i : Fin 31,
      slice clusterData (i * 0x400) 0x400 = slice (m.data j) (i * 0x400) 0x400 := by
    intro i
    have hi := i.isLt
    refine slice_congr fun k hk => hdata _ ?_
    simp only [blockDataSize]
    omega
  have hh1 : h1Index (group * blocksPerGroup + j) = h1Index j := by
    ext
    simp only [h1Index, blocksPerGroup]
    omega
  have hh2 : h2Index (group * blocksPerGroup + j) = h2Index j := by
    ext
    simp only [h2Index, blocksPerGroup]
    omega
  have hgroup : (group * blocksPerGroup + j) / 64 = group := by
    simp only [blocksPerGroup]
    omega
  have hself : j / 8 * 8 + j % 8 = j := by omega
  have hbase : 8 * (j / 8 % 8) / 8 * 8 = j / 8 * 8 := by omega
  simp only [checkHashes, hh1, hh2, hgroup, Bool.and_eq_true, decide_eq_true_eq]
  refine ⟨⟨⟨fun i => ?_, ?_⟩, ?_⟩, ?_⟩
  · rw [hslice]
    rfl
  · show _ = sha1 (digestBytes (hashH0 sha1 m (j / 8 * 8 + j % 8)).h0)
    rw [hself]
    rfl
  · show _ = sha1 (digestBytes fun k : Fin 8 =>
      sha1 (digestBytes (hashH0 sha1 m (8 * (j / 8 % 8) / 8 * 8 + k)).h0))
    rw [hbase]
    rfl
  · rw [hh3]
    rfl

/-! ## Reading -/

/-- The partition of an encrypted volume, with its details and key. -/
structure Volume.Opens (v : Volume) (partition : Partition) (details : PartitionDetails)
    (key : Block) : Prop where
  partition_ne : partition ≠ partitionNone
  found : v.partitions partition = some details
  hasKey : details.key = some key
  hasHashes : v.hasHashes = true
  hasEncryption : v.hasEncryption = true

/-- The cached block is what the disc has at its offset, decrypted. -/
def Volume.Cached (rounds : Rounds) (key : Block) (v : Volume) : Prop :=
  ∀ bytes, v.lastDecryptedBlock + blockTotalSize ≤ 2 ^ 64 →
    v.reader.read v.lastDecryptedBlock blockTotalSize = some bytes → ∀ k < blockDataSize,
      v.lastDecryptedBlockData k =
        decryptBlockData bytes (fun _ => 0) ⟨rounds, key, .decrypt⟩ k

/-- The volume after the constructor has no cached block. -/
def Volume.Fresh (v : Volume) : Prop := v.lastDecryptedBlock = 2 ^ 64 - 1

theorem Volume.Fresh.cached {v : Volume} (h : v.Fresh) : v.Cached rounds key := by
  intro bytes hle
  rw [h] at hle
  exact absurd hle (by decide)

theorem decryptBlockData_out (data out out' : Buffer) (ctx : Context) {k : ℕ}
    (hk : k < blockDataSize) : decryptBlockData data out ctx k = decryptBlockData data out' ctx k := by
  have hrange : 0 ≤ k ∧ k < 0 + blockDataSize := by omega
  rw [decryptBlockData, decryptBlockData, crypt_eq _ _ _ _ (by decide),
    crypt_eq _ _ _ _ (by decide), if_pos hrange, if_pos hrange]

/-- Two states of a volume, which differ in the cache only. -/
structure Volume.SameDisc (v v' : Volume) : Prop where
  reader : v'.reader = v.reader
  partitions : v'.partitions = v.partitions
  hasHashes : v'.hasHashes = v.hasHashes
  hasEncryption : v'.hasEncryption = v.hasEncryption

theorem Volume.SameDisc.refl (v : Volume) : v.SameDisc v := ⟨rfl, rfl, rfl, rfl⟩

theorem Volume.SameDisc.trans {v v' v'' : Volume} (h : v.SameDisc v') (h' : v'.SameDisc v'') :
    v.SameDisc v'' :=
  ⟨h'.reader.trans h.reader, h'.partitions.trans h.partitions, h'.hasHashes.trans h.hasHashes,
    h'.hasEncryption.trans h.hasEncryption⟩

theorem Volume.SameDisc.opens {v v' : Volume} {partition : Partition} {details : PartitionDetails}
    (h : v.SameDisc v') (hv : v.Opens partition details key) : v'.Opens partition details key :=
  ⟨hv.partition_ne, by rw [h.partitions, hv.found], hv.hasKey, by rw [h.hasHashes, hv.hasHashes],
    by rw [h.hasEncryption, hv.hasEncryption]⟩

theorem fetch_cached {v v' : Volume} {offset : ℕ} (h : v.Cached rounds key)
    (hfetch : fetch rounds v (some key) offset = some v') :
    v'.Cached rounds key ∧ v.SameDisc v' ∧ v'.lastDecryptedBlock = offset := by
  rw [fetch] at hfetch
  split at hfetch
  · obtain ⟨bytes, hread, rfl⟩ := Option.map_eq_some_iff.mp hfetch
    refine ⟨fun bytes' _ hread' k hk => ?_, ⟨rfl, rfl, rfl, rfl⟩, rfl⟩
    have heq : bytes' = bytes := Option.some_injective _ (hread'.symm.trans hread)
    rw [heq]
    exact decryptBlockData_out _ _ _ _ hk
  · rename_i hlast
    cases hfetch
    exact ⟨h, .refl v, not_not.mp hlast⟩

/-- **Block `b` of the partition is on the disc**, with the decrypted data `plain`. -/
def OnDisc (rounds : Rounds) (key : Block) (v : Volume) (partitionDataOffset : ℕ) (plain : Buffer)
    (b : ℕ) : Prop :=
  partitionDataOffset + (b + 1) * blockTotalSize ≤ 2 ^ 64 ∧ ∃ bytes,
    v.reader.read (partitionDataOffset + b * blockTotalSize) blockTotalSize = some bytes ∧
      ∀ k < blockDataSize, decryptBlockData bytes (fun _ => 0) ⟨rounds, key, .decrypt⟩ k =
        plain (b * blockDataSize + k)

theorem fetch_onDisc {v : Volume} {partitionDataOffset b : ℕ} {plain : Buffer}
    (h : v.Cached rounds key) (hb : OnDisc rounds key v partitionDataOffset plain b) :
    ∃ v', fetch rounds v (some key) (u64 (partitionDataOffset + b * blockTotalSize)) = some v' ∧
      ∀ k < blockDataSize, v'.lastDecryptedBlockData k = plain (b * blockDataSize + k) := by
  obtain ⟨hfits, bytes, hread, hplain⟩ := hb
  have hle : partitionDataOffset + b * blockTotalSize + blockTotalSize ≤ 2 ^ 64 := by
    rwa [Nat.succ_mul, ← Nat.add_assoc] at hfits
  have hlt : partitionDataOffset + b * blockTotalSize < 2 ^ 64 := by
    simp only [blockTotalSize, blockHeaderSize] at hle ⊢
    omega
  rw [u64, Nat.mod_eq_of_lt hlt]
  obtain ⟨v', hv'⟩ : ∃ v',
      fetch rounds v (some key) (partitionDataOffset + b * blockTotalSize) = some v' := by
    rw [fetch]
    split
    · exact ⟨_, by rw [hread]; rfl⟩
    · exact ⟨_, rfl⟩
  obtain ⟨hcached, hsame, hlast⟩ := fetch_cached h hv'
  refine ⟨v', hv', fun k hk => ?_⟩
  rw [hcached bytes (by rwa [hlast]) (by rw [hsame.reader, hlast]; exact hread) k hk,
    hplain k hk]

/-- **The loop reads a range of blocks that are on the disc.** -/
theorem readLoop_spec {partitionDataOffset : ℕ} {plain : Buffer} {fuel : ℕ} {v : Volume}
    {offset length : ℕ} {buffer : List Byte} (hfuel : length ≤ fuel) (h : v.Cached rounds key)
    (hblocks : ∀ q, offset ≤ q → q < offset + length →
      OnDisc rounds key v partitionDataOffset plain (q / blockDataSize)) :
    (readLoop rounds (some key) partitionDataOffset fuel v offset length buffer).1 =
      some (buffer ++ slice plain offset length) := by
  induction fuel generalizing v offset length buffer with
  | zero =>
    rw [Nat.le_zero.mp hfuel]
    simp [readLoop, slice]
  | succ fuel ih =>
    rw [readLoop]
    split
    · rename_i hzero
      simp [hzero, slice]
    · rename_i hpos
      obtain ⟨v', hfetch, hdata⟩ := fetch_onDisc h (hblocks offset le_rfl (by omega))
      obtain ⟨hcached, hsame, -⟩ := fetch_cached h hfetch
      simp only [hfetch]
      have hmod : offset % blockDataSize < blockDataSize := Nat.mod_lt _ (by decide)
      set copySize := min length (blockDataSize - offset % blockDataSize) with hcopy
      have hcopied : slice v'.lastDecryptedBlockData (offset % blockDataSize) copySize =
          slice plain offset copySize := by
        refine slice_congr fun k hk => ?_
        rw [hdata _ (by omega), ← Nat.add_assoc, Nat.div_add_mod']
      have hrest : slice plain offset length =
          slice plain offset copySize ++
            slice plain (offset + copySize) (length - copySize) := by
        rw [← slice_append]
        congr 1
        omega
      rw [ih (by omega) hcached, hcopied, hrest, List.append_assoc]
      intro q hq hlt
      obtain ⟨hfits, bytes, hread, hplain⟩ := hblocks q (by omega) (by omega)
      exact ⟨hfits, bytes, by rw [hsame.reader]; exact hread, hplain⟩

theorem readLoop_cached {partitionDataOffset fuel offset length : ℕ} {v : Volume}
    {buffer : List Byte} (h : v.Cached rounds key) :
    (readLoop rounds (some key) partitionDataOffset fuel v offset length buffer).2.Cached
        rounds key ∧
      v.SameDisc (readLoop rounds (some key) partitionDataOffset fuel v offset length buffer).2 := by
  induction fuel generalizing v offset length buffer with
  | zero => exact ⟨h, .refl v⟩
  | succ fuel ih =>
    rw [readLoop]
    split
    · exact ⟨h, .refl v⟩
    · simp only
      split
      · exact ⟨h, .refl v⟩
      · rename_i v' hfetch
        obtain ⟨hcached, hsame, -⟩ := fetch_cached h hfetch
        exact ⟨(ih hcached).1, hsame.trans (ih hcached).2⟩

/-- **Every read of the partition keeps the cache right.** -/
theorem read_cached {v : Volume} {partition : Partition} {details : PartitionDetails}
    (hv : v.Opens partition details key) (h : v.Cached rounds key) (offset length : ℕ) :
    (read rounds v offset length partition).2.Cached rounds key ∧
      v.SameDisc (read rounds v offset length partition).2 := by
  simp only [read, if_neg hv.partition_ne, hv.found, hv.hasHashes, hv.hasEncryption, hv.hasKey,
    Bool.not_true, if_true, Bool.true_and, Bool.false_eq_true, if_false]
  split
  · exact ⟨h, .refl v⟩
  · exact readLoop_cached h

/-- The volume after reads of the partition. -/
def afterReads (rounds : Rounds) (partition : Partition) (v : Volume) (reads : List (ℕ × ℕ)) :
    Volume :=
  reads.foldl (fun v r => (read rounds v r.1 r.2 partition).2) v

theorem afterReads_cached {v : Volume} {partition : Partition} {details : PartitionDetails}
    (hv : v.Opens partition details key) (h : v.Cached rounds key) (reads : List (ℕ × ℕ)) :
    (afterReads rounds partition v reads).Cached rounds key ∧
      v.SameDisc (afterReads rounds partition v reads) := by
  induction reads generalizing v with
  | nil => exact ⟨h, .refl v⟩
  | cons r reads ih =>
    obtain ⟨hcached, hsame⟩ := read_cached hv h r.1 r.2
    obtain ⟨hcached', hsame'⟩ := ih (hsame.opens hv) hcached
    exact ⟨hcached', hsame.trans hsame'⟩

/-- **A range of blocks that are on the disc is read**, after any reads of the partition. -/
theorem read_spec {v : Volume} {partition : Partition} {details : PartitionDetails}
    (hv : v.Opens partition details key) (hfresh : v.Fresh) (reads : List (ℕ × ℕ)) {plain : Buffer}
    {offset length : ℕ}
    (hreader : v.reader.supportsReadWiiDecrypted offset length
      (u64 (partition + details.dataOffset)) = false)
    (hblocks : ∀ q, offset ≤ q → q < offset + length →
      OnDisc rounds key v (u64 (partition + details.dataOffset)) plain (q / blockDataSize)) :
    (read rounds (afterReads rounds partition v reads) offset length partition).1 =
      some (slice plain offset length) := by
  have hstart : v.Cached rounds key := hfresh.cached
  obtain ⟨hcached, hsame⟩ := afterReads_cached hv hstart reads
  have hopens := hsame.opens hv
  simp only [read, if_neg hv.partition_ne, hopens.found, hopens.hasHashes, hopens.hasEncryption,
    hv.hasKey, hsame.reader, hreader, Bool.not_true, if_true, Bool.and_false, Bool.false_eq_true,
    if_false]
  rw [readLoop_spec le_rfl hcached, List.nil_append]
  intro q hq hlt
  obtain ⟨hfits, bytes, hread, hplain⟩ := hblocks q hq hlt
  exact ⟨hfits, bytes, by rw [hsame.reader]; exact hread, hplain⟩

/-! ## The agreement -/

/-- The blocks of an encrypted group are at their places on the disc. -/
def GroupOnDisc (v : Volume) (partitionDataOffset group : ℕ) (out : Buffer) : Prop :=
  ∀ j < blocksPerGroup, ∃ bytes,
    v.reader.read (partitionDataOffset + (group * blocksPerGroup + j) * blockTotalSize)
        blockTotalSize = some bytes ∧
      ∀ k < blockTotalSize, bytes k = out (j * blockTotalSize + k)

section Agreement

variable {blob : BlobReader} {partitionDataOffset size group : ℕ} {data out : Buffer} {v : Volume}
  {partition : Partition} {details : PartitionDetails}
  (hrounds : ∀ key b, rounds.decrypt key (rounds.encrypt key b) = b)
  (hout : ∀ j < blocksPerGroup, ∃ block : Buffer,
    (∀ k < blockDataSize, block k = blockData data size group j k) ∧
    ∀ k < blockTotalSize, out (j * blockTotalSize + k) =
      encrypted rounds key (sequentialHashes sha1 (groupArrays data size group) j) block k)

include hrounds hout

/-- **Each block of the group passes the check.** -/
theorem checkBlockIntegrity_group (hv : v.Opens partition details key)
    (hlength : (group + 1) * 20 ≤ details.h3Table.length)
    (hh3 : digestAt details.h3Table (group * 20) =
      sha1 (digestBytes (sequentialHashes sha1 (groupArrays data size group) 0).h2)) {j : ℕ}
    (hj : j < blocksPerGroup) :
    checkBlockIntegrity sha1 rounds v (group * blocksPerGroup + j)
      (fun k => out (j * blockTotalSize + k)) partition = true := by
  obtain ⟨block, hblock, henc⟩ := hout j hj
  have hgroup : (group * blocksPerGroup + j) / blocksPerGroup = group := by
    rw [Nat.mul_comm, Nat.mul_add_div (by decide), Nat.div_eq_of_lt hj, Nat.add_zero]
  have htable : ¬details.h3Table.length ≤ u64 (group * 20) := by
    have hle : u64 (group * 20) ≤ group * 20 := Nat.mod_le _ _
    omega
  simp only [checkBlockIntegrity, hv.found, hgroup, if_neg htable, hv.hasEncryption, if_true,
    hv.hasKey]
  rw [decryptBlockHashes_encrypted (hrounds key) henc]
  refine checkHashes_sequential hj (fun k hk => ?_) hh3
  rw [decryptBlockData_encrypted (hrounds key) henc hk, hblock k hk]
  rfl

/-- **The blocks of the group are on the disc** with the data of the partition. -/
theorem onDisc_group (hfits : partitionDataOffset + (group + 1) * groupTotalSize ≤ 2 ^ 64)
    (hdisc : GroupOnDisc v partitionDataOffset group out) {q : ℕ}
    (hle : group * groupDataSize ≤ q) (hlt : q < (group + 1) * groupDataSize) :
    OnDisc rounds key v partitionDataOffset (wholeBlocks data size) (q / blockDataSize) := by
  obtain ⟨j, hj, hq⟩ : ∃ j < blocksPerGroup, q / blockDataSize = group * blocksPerGroup + j := by
    refine ⟨q / blockDataSize - group * blocksPerGroup, ?_, ?_⟩
    · simp only [groupDataSize, blockDataSize, blocksPerGroup] at hle hlt ⊢
      omega
    · simp only [groupDataSize, blockDataSize, blocksPerGroup] at hle hlt ⊢
      omega
  obtain ⟨bytes, hread, hbytes⟩ := hdisc j hj
  obtain ⟨block, hblock, henc⟩ := hout j hj
  rw [hq]
  refine ⟨?_, bytes, hread, fun k hk => ?_⟩
  · have hnext : group * blocksPerGroup + j + 1 ≤ (group + 1) * blocksPerGroup := by
      rw [Nat.succ_mul]
      omega
    have hmul := Nat.mul_le_mul_right blockTotalSize hnext
    rw [groupTotalSize, Nat.mul_comm blockTotalSize, ← Nat.mul_assoc] at hfits
    omega
  · rw [decryptBlockData_encrypted (hrounds key)
      (fun k hk => (hbytes k hk).trans (henc k hk)) hk, hblock k hk]
    rfl

end Agreement

variable (sha1 rounds key) in
theorem encryptGroup_completes (group : ℕ) {blob : BlobReader} {partitionDataOffset size : ℕ}
    {data : Buffer} (hblob : blob.Holds partitionDataOffset data size)
    (hfits : partitionDataOffset + (group + 1) * groupTotalSize ≤ 2 ^ 64)
    (hardwareConcurrency : ℕ) (out : Buffer) : ∃ hashSchedule encryptSchedule out',
    encryptGroup sha1 rounds hashSchedule encryptSchedule hardwareConcurrency
      (group * groupDataSize) partitionDataOffset size key blob out none = some (some out') := by
  obtain ⟨hashSchedule, m, hhash⟩ : ∃ schedule m, hashGroup sha1
      (some (readBlock blob (group * groupDataSize) partitionDataOffset size)) ([] ++ schedule)
      ⟨fun _ _ => 0, fun _ => .zero⟩ = some (true, m) :=
    hashGroup_completes (success_readBlock hblob hfits) rfl
  obtain ⟨encryptSchedule, s, hrun, hfinished⟩ :=
    encrypt_completes rounds key m (min blocksPerGroup (max 1 hardwareConcurrency)) out
  refine ⟨hashSchedule, encryptSchedule, s.memory, ?_⟩
  rw [List.nil_append] at hhash
  rw [encryptGroup, hhash]
  simp only [Option.bind_some, if_true, Option.getD_none, id_eq]
  rw [hrun, Option.bind_some, if_pos fun i _ => hfinished i]

/-- **Encryption, verification and reading agree**, and so do the concurrent and the sequential
computation of the hashes. -/
theorem group_agrees (hrounds : ∀ key b, rounds.decrypt key (rounds.encrypt key b) = b) :
    (∀ readFunction schedule m₀ result m, success readFunction blocksPerGroup = true →
      hashGroup sha1 readFunction schedule m₀ = some (result, m) →
      result = true ∧ ∀ i < blocksPerGroup,
        m.out i = sequentialHashes sha1 ⟨groupData readFunction m₀, m₀.out⟩ i) ∧
    ∀ (key : Block) (blob : BlobReader) (partitionDataOffset : ℕ) (data : Buffer) (size group : ℕ)
      (hashSchedule : List Task) (encryptSchedule : List ℕ) (hardwareConcurrency : ℕ)
      (out : Buffer) (result : Option Buffer), blob.Holds partitionDataOffset data size →
      partitionDataOffset + (group + 1) * groupTotalSize ≤ 2 ^ 64 →
      encryptGroup sha1 rounds hashSchedule encryptSchedule hardwareConcurrency
        (group * groupDataSize) partitionDataOffset size key blob out none = some result →
      ∃ out', result = some out' ∧ ∀ (v : Volume) (partition : Partition)
        (details : PartitionDetails), v.Opens partition details key →
        u64 (partition + details.dataOffset) = partitionDataOffset →
        ((group + 1) * 20 ≤ details.h3Table.length →
          digestAt details.h3Table (group * 20) =
            sha1 (digestBytes (sequentialHashes sha1 (groupArrays data size group) 0).h2) →
          ∀ j < blocksPerGroup, checkBlockIntegrity sha1 rounds v (group * blocksPerGroup + j)
            (fun k => out' (j * blockTotalSize + k)) partition = true) ∧
        (v.Fresh → GroupOnDisc v partitionDataOffset group out' →
          ∀ reads offset length, group * groupDataSize ≤ offset →
            offset + length ≤ (group + 1) * groupDataSize →
            v.reader.supportsReadWiiDecrypted offset length partitionDataOffset = false →
            (read rounds (afterReads rounds partition v reads) offset length partition).1 =
              some (slice (wholeBlocks data size) offset length)) := by
  refine ⟨fun readFunction schedule m₀ result m hall h => ?_, fun key blob partitionDataOffset data
    size group hashSchedule encryptSchedule hardwareConcurrency out result hblob hfits h => ?_⟩
  · obtain ⟨hresult, hm⟩ := hashGroup_spec hall h
    exact ⟨hresult, fun i hi => (hm i hi).2⟩
  · obtain ⟨out', rfl, hout⟩ := encryptGroup_spec hblob hfits h
    refine ⟨out', rfl, fun v partition details hv hoffset => ⟨fun hlength hh3 j hj => ?_,
      fun hfresh hdisc reads offset length hle hlt hreader => ?_⟩⟩
    · exact checkBlockIntegrity_group hrounds hout hv hlength hh3 hj
    · subst hoffset
      refine read_spec hv hfresh reads hreader fun q hq hlt' => ?_
      exact onDisc_group hrounds hout hfits hdisc (hle.trans hq) (hlt'.trans_le hlt)

/-! ## Samples -/

section Sample

def sampleKey : Block := fun _ => 0

/-- Rounds that change no byte, and a hash that is always zero. -/
def sampleRounds : Rounds := ⟨fun _ b => b, fun _ b => b⟩

def sampleSha1 : List Byte → Digest := fun _ _ => 0

/-- A blob with partition data of ones. -/
def sampleBlob : BlobReader where
  read _ _ := none
  supportsReadWiiDecrypted _ _ _ := false
  readWiiDecrypted _ _ _ := some fun _ => 1

def sampleDetails : PartitionDetails := ⟨some sampleKey, List.replicate 20 0, 0x20000⟩

/-- A disc with the encrypted group in the partition at 0x50000. -/
def sampleVolume (out : Buffer) : Volume where
  reader :=
    { read := fun offset _ => some fun k => out (offset - 0x70000 + k)
      supportsReadWiiDecrypted := fun _ _ _ => false
      readWiiDecrypted := fun _ _ _ => none }
  partitions partition := if partition = 0x50000 then some sampleDetails else none
  hasHashes := true
  hasEncryption := true
  lastDecryptedBlock := 2 ^ 64 - 1
  lastDecryptedBlockData := fun _ => 0

theorem sampleBlob_holds (size : ℕ) : sampleBlob.Holds 0x70000 (fun _ => 1) size :=
  fun _ _ _ => ⟨_, rfl, fun _ _ => rfl⟩

theorem sampleVolume_opens (out : Buffer) :
    (sampleVolume out).Opens 0x50000 sampleDetails sampleKey :=
  ⟨by decide, rfl, rfl, rfl, rfl⟩

theorem sampleVolume_groupOnDisc (out : Buffer) : GroupOnDisc (sampleVolume out) 0x70000 0 out := by
  intro j _
  refine ⟨_, rfl, fun k _ => ?_⟩
  show out (0x70000 + (0 * blocksPerGroup + j) * blockTotalSize - 0x70000 + k) = _
  rw [Nat.zero_mul, Nat.zero_add, Nat.add_sub_cancel_left]

/-- **The data of a block that is not whole is lost**: one byte of data is read back as zero. -/
theorem partial_block_lost : ∃ hashSchedule encryptSchedule out,
    encryptGroup sampleSha1 sampleRounds hashSchedule encryptSchedule 1 (0 * groupDataSize) 0x70000 1
        sampleKey sampleBlob (fun _ => 0) none = some (some out) ∧
      (∀ key b, sampleRounds.decrypt key (sampleRounds.encrypt key b) = b) ∧
      sampleBlob.Holds 0x70000 (fun _ => 1) 1 ∧
      (sampleVolume out).Opens 0x50000 sampleDetails sampleKey ∧ (sampleVolume out).Fresh ∧
      GroupOnDisc (sampleVolume out) 0x70000 0 out ∧
      (read sampleRounds (sampleVolume out) 0 1 0x50000).1 = some [0] ∧
      some [(0 : Byte)] ≠ some (slice (fun _ => 1) 0 1) := by
  obtain ⟨hashSchedule, encryptSchedule, out, h⟩ := encryptGroup_completes sampleSha1 sampleRounds
    sampleKey 0 (sampleBlob_holds 1) (by decide) 1 (fun _ => 0)
  obtain ⟨out', hsome, hout⟩ := encryptGroup_spec (sampleBlob_holds 1) (by decide) h
  cases hsome
  refine ⟨hashSchedule, encryptSchedule, out, h, fun _ _ => rfl, sampleBlob_holds 1,
    sampleVolume_opens out, rfl, sampleVolume_groupOnDisc out, ?_, by decide⟩
  have hread : (read sampleRounds (afterReads sampleRounds 0x50000 (sampleVolume out) []) 0 1
      0x50000).1 = some (slice (wholeBlocks (fun _ => 1) 1) 0 1) :=
    read_spec (sampleVolume_opens out) rfl [] rfl fun q hq hlt =>
      onDisc_group (fun _ _ => rfl) hout (by decide) (sampleVolume_groupOnDisc out) hq
        (hlt.trans (by decide))
  exact hread

theorem group_agrees_sample : ∃ hashSchedule encryptSchedule out,
    encryptGroup sampleSha1 sampleRounds hashSchedule encryptSchedule 4 (0 * groupDataSize) 0x70000
        blockDataSize sampleKey sampleBlob (fun _ => 0) none = some (some out) ∧
      (∀ j < blocksPerGroup, checkBlockIntegrity sampleSha1 sampleRounds (sampleVolume out)
        (0 * blocksPerGroup + j) (fun k => out (j * blockTotalSize + k)) 0x50000 = true) ∧
      (read sampleRounds (sampleVolume out) 0 2 0x50000).1 = some [1, 1] := by
  obtain ⟨hashSchedule, encryptSchedule, out, h⟩ := encryptGroup_completes sampleSha1 sampleRounds
    sampleKey 0 (sampleBlob_holds blockDataSize) (by decide) 4 (fun _ => 0)
  obtain ⟨out', hsome, hgroup⟩ := (group_agrees fun _ _ => rfl).2 sampleKey sampleBlob 0x70000
    (fun _ => 1) blockDataSize 0 hashSchedule encryptSchedule 4 (fun _ => 0) _
    (sampleBlob_holds blockDataSize) (by decide) h
  cases hsome
  obtain ⟨hcheck, hread⟩ := hgroup (sampleVolume out) 0x50000 sampleDetails (sampleVolume_opens out)
    (by decide)
  refine ⟨hashSchedule, encryptSchedule, out, h, hcheck (by decide) ?_, ?_⟩
  · funext k
    revert k
    decide
  · exact hread rfl (sampleVolume_groupOnDisc out) [] 0 2 (by decide) (by decide) rfl

end Sample

end VolumeWii
