import PrimedSteam.DiscIO.VolumeWii

/-!
# The block cache of a volume

`Read` keeps the data of the last block with the offset of the block on the disc. The reads below may fail, and may
then have written a part of their destination.

* `fetchBlock`, `cachedRead`: reads through the cache. `source` is the key with which the cached data was
  decrypted, as
  long as nothing else was written to it.
* `uncachedRead`: reads without a cache.
* `transparent_of_meets`: reads that find only data of their own key in the cache give what they give without it.
-/

set_option autoImplicit false

namespace VolumeWii

open AES (Context Rounds)

/-- What a failed read has written: the bytes that are not `none`. -/
abbrev Partial := ℕ → Option Byte

/-- The volume while it is used: the number of reads so far, and the key of the cached data. The key `none`
is that of a
volume without encryption. -/
structure CachedVolume where
  volume : Volume
  tick : ℕ
  source : Option (Option AES.Block)

/-- The constructor: there is no cached block. -/
def CachedVolume.new (reader : BlobReader) (partitions : Partition → Option PartitionDetails)
    (hasHashes hasEncryption : Bool) : CachedVolume :=
  ⟨⟨reader, partitions, hasHashes, hasEncryption, 2 ^ 64 - 1, fun _ => 0⟩, 0, none⟩

section Reads

variable (rounds : Rounds) (fault : ℕ → ℕ → Option Partial)

/-- A read of the disc image: the data, or what was written before it failed. -/
def blobRead (v : Volume) (tick offset size : ℕ) : Except Partial Buffer :=
  match fault tick offset with
  | some written => .error written
  | none =>
    match v.reader.read offset size with
    | some data => .ok data
    | none => .error fun _ => none

/-- A failed read into a buffer. -/
def overwrite (out : Buffer) (size : ℕ) (written : Partial) : Buffer := fun k =>
  if k < size then (written k).getD (out k) else out k

/-- The data of a block comes into the cache. -/
def fetchBlock (c : CachedVolume) (key : Option AES.Block) (blockOffsetOnDisc : ℕ) : Bool × CachedVolume :=
  if c.volume.lastDecryptedBlock ≠ blockOffsetOnDisc then
    match key with
    | some aesKey =>
      match blobRead fault c.volume c.tick blockOffsetOnDisc blockTotalSize with
      | .ok data =>
        (true, ⟨{ c.volume with
          lastDecryptedBlock := blockOffsetOnDisc
          lastDecryptedBlockData :=
            decryptBlockData data c.volume.lastDecryptedBlockData ⟨rounds, aesKey, .decrypt⟩ }, c.tick + 1,
              some key⟩)
      | .error _ => (false, { c with tick := c.tick + 1 })
    | none =>
      match blobRead fault c.volume c.tick (u64 (blockOffsetOnDisc + blockHeaderSize)) blockDataSize with
      | .ok data =>
        (true, ⟨{ c.volume with
          lastDecryptedBlock := blockOffsetOnDisc
          lastDecryptedBlockData := write c.volume.lastDecryptedBlockData 0 blockDataSize data },
            c.tick + 1, some none⟩)
      | .error written =>
        -- the destination is the cached data, and the offset of the block stays
        (false, ⟨{ c.volume with
          lastDecryptedBlockData := overwrite c.volume.lastDecryptedBlockData blockDataSize written }, c.tick + 1,
          if (List.range blockDataSize).all fun k => (written k).isNone then c.source else none⟩)
  else (true, c)

/-- The loop of `Read`. -/
def cachedLoop (key : Option AES.Block) (partitionDataOffset : ℕ) :
    ℕ → CachedVolume → ℕ → ℕ → List Byte → Option (List Byte) × CachedVolume
  | 0, c, _, _, buffer => (some buffer, c)
  | fuel + 1, c, offset, length, buffer =>
    if length = 0 then (some buffer, c)
    else
      let dataOffsetInBlock := offset % blockDataSize
      let (success, c) := fetchBlock rounds fault c key
        (u64 (partitionDataOffset + offset / blockDataSize * blockTotalSize))
      if success then
        let copySize := min length (blockDataSize - dataOffsetInBlock)
        cachedLoop key partitionDataOffset fuel c (offset + copySize) (length - copySize)
          (buffer ++ slice c.volume.lastDecryptedBlockData dataOffsetInBlock copySize)
      else (none, c)

structure Request where
  offset : ℕ
  length : ℕ
  partition : Partition

/-- A read that does not use the cache. -/
def directRead (c : CachedVolume) (result : Option Buffer) (offset length : ℕ) :
    Option (List Byte) × CachedVolume :=
  (if (fault c.tick offset).isSome then none else result.map fun data => slice data 0 length,
    { c with tick := c.tick + 1 })

/-- `Read` -/
def cachedRead (c : CachedVolume) (r : Request) : Option (List Byte) × CachedVolume :=
  if r.partition = partitionNone then
    directRead fault c (c.volume.reader.read r.offset r.length) r.offset r.length
  else match c.volume.partitions r.partition with
  | none => (none, c)
  | some details =>
    let partitionDataOffset := u64 (r.partition + details.dataOffset)
    if c.volume.hasHashes && c.volume.hasEncryption &&
        c.volume.reader.supportsReadWiiDecrypted r.offset r.length partitionDataOffset then
      directRead fault c (c.volume.reader.readWiiDecrypted r.offset r.length partitionDataOffset) r.offset r.length
    else if !c.volume.hasHashes then
      directRead fault c (c.volume.reader.read (u64 (partitionDataOffset + r.offset)) r.length) r.offset r.length
    else if c.volume.hasEncryption then
      match details.key with
      | none => (none, c)
      | some key => cachedLoop rounds fault (some key) partitionDataOffset r.length c r.offset r.length []
    else cachedLoop rounds fault none partitionDataOffset r.length c r.offset r.length []

end Reads

/-! ## Without a cache -/

section Uncached

variable (rounds : Rounds)

/-- The data of a block. -/
def dataOfBlock (v : Volume) (key : Option AES.Block) (blockOffsetOnDisc : ℕ) : Option Buffer :=
  match key with
  | some key => (v.reader.read blockOffsetOnDisc blockTotalSize).map fun data =>
      decryptBlockData data (fun _ => 0) ⟨rounds, key, .decrypt⟩
  | none => v.reader.read (u64 (blockOffsetOnDisc + blockHeaderSize)) blockDataSize

def uncachedLoop (v : Volume) (key : Option AES.Block) (partitionDataOffset : ℕ) :
    ℕ → ℕ → ℕ → List Byte → Option (List Byte)
  | 0, _, _, buffer => some buffer
  | fuel + 1, offset, length, buffer =>
    if length = 0 then some buffer
    else
      let dataOffsetInBlock := offset % blockDataSize
      (dataOfBlock rounds v key (u64 (partitionDataOffset + offset / blockDataSize * blockTotalSize))).bind
        fun data =>
        let copySize := min length (blockDataSize - dataOffsetInBlock)
        uncachedLoop v key partitionDataOffset fuel (offset + copySize) (length - copySize)
          (buffer ++ slice data dataOffsetInBlock copySize)

/-- The bytes of a read that reads every block. -/
def uncachedRead (v : Volume) (r : Request) : Option (List Byte) :=
  if r.partition = partitionNone then (v.reader.read r.offset r.length).map fun data => slice data 0 r.length
  else match v.partitions r.partition with
  | none => none
  | some details =>
    let partitionDataOffset := u64 (r.partition + details.dataOffset)
    if v.hasHashes && v.hasEncryption &&
        v.reader.supportsReadWiiDecrypted r.offset r.length partitionDataOffset then
      (v.reader.readWiiDecrypted r.offset r.length partitionDataOffset).map fun data => slice data 0 r.length
    else if !v.hasHashes then
      (v.reader.read (u64 (partitionDataOffset + r.offset)) r.length).map fun data => slice data 0 r.length
    else if v.hasEncryption then
      match details.key with
      | none => none
      | some key => uncachedLoop rounds v (some key) partitionDataOffset r.length r.offset r.length []
    else uncachedLoop rounds v none partitionDataOffset r.length r.offset r.length []

end Uncached

/-! ## Runs -/

/-- The key and the offset of the data for a request that goes through the cache. -/
def throughCache (v : Volume) (r : Request) : Option (Option AES.Block × ℕ) :=
  if r.partition = partitionNone then none
  else match v.partitions r.partition with
  | none => none
  | some details =>
    let partitionDataOffset := u64 (r.partition + details.dataOffset)
    if v.hasHashes && v.hasEncryption &&
        v.reader.supportsReadWiiDecrypted r.offset r.length partitionDataOffset then none
    else if !v.hasHashes then none
    else if v.hasEncryption then details.key.map fun key => (some key, partitionDataOffset)
    else some (none, partitionDataOffset)

/-- If the first block of the request is the cached one, the cached data was read with the key of the request, and no
failed read has written to it since then. -/
def FindsOwn (c : CachedVolume) (r : Request) : Prop :=
  ∀ key partitionDataOffset, throughCache c.volume r = some (key, partitionDataOffset) → 0 < r.length →
    c.volume.lastDecryptedBlock = u64 (partitionDataOffset + r.offset / blockDataSize * blockTotalSize) →
    c.source = some key

section Runs

variable (rounds : Rounds) (fault : ℕ → ℕ → Option Partial)

/-- All steps of a run meet the condition. -/
def Meets : CachedVolume → List Request → Prop
  | _, [] => True
  | c, r :: requests => FindsOwn c r ∧ Meets (cachedRead rounds fault c r).2 requests

/-- Each read of a run that succeeds gives the bytes that it gives without a cache. -/
def Transparent : CachedVolume → List Request → Prop
  | _, [] => True
  | c, r :: requests =>
    (∀ bytes, (cachedRead rounds fault c r).1 = some bytes → uncachedRead rounds c.volume r = some bytes) ∧
      Transparent (cachedRead rounds fault c r).2 requests

/-- Only the cache is another one. -/
structure SameDisc (v v' : Volume) : Prop where
  reader : v'.reader = v.reader
  partitions : v'.partitions = v.partitions
  hasHashes : v'.hasHashes = v.hasHashes
  hasEncryption : v'.hasEncryption = v.hasEncryption

theorem SameDisc.trans {v v' v'' : Volume} (h : SameDisc v v') (h' : SameDisc v' v'') : SameDisc v v'' :=
  ⟨h'.reader.trans h.reader, h'.partitions.trans h.partitions, h'.hasHashes.trans h.hasHashes,
    h'.hasEncryption.trans h.hasEncryption⟩

theorem SameDisc.refl (v : Volume) : SameDisc v v := ⟨rfl, rfl, rfl, rfl⟩

/-- The cached data is the data of the block with the key. -/
def Coherent (c : CachedVolume) : Prop :=
  ∀ key, c.source = some key → ∃ data, dataOfBlock rounds c.volume key c.volume.lastDecryptedBlock = some data ∧
    ∀ k < blockDataSize, c.volume.lastDecryptedBlockData k = data k

variable {rounds fault} {c : CachedVolume} {key : Option AES.Block} {block : ℕ}

theorem write_zero {out data : Buffer} {k : ℕ} (h : k < blockDataSize) :
    write out 0 blockDataSize data k = data k := by
  rw [write, if_pos ⟨Nat.zero_le k, by omega⟩, Nat.sub_zero]

theorem blobRead_ok {v : Volume} {tick offset size : ℕ} {data : Buffer}
    (h : blobRead fault v tick offset size = .ok data) : v.reader.read offset size = some data := by
  rw [blobRead] at h
  cases hf : fault tick offset with
  | some written =>
    rw [hf] at h
    cases h
  | none =>
    rw [hf] at h
    cases hr : v.reader.read offset size with
    | none =>
      rw [hr] at h
      cases h
    | some data' =>
      rw [hr] at h
      cases h
      rfl

theorem fetchBlock_cases (rounds : Rounds) (fault : ℕ → ℕ → Option Partial) (c : CachedVolume)
    (key : Option AES.Block) (block : ℕ) :
    (c.volume.lastDecryptedBlock = block ∧ fetchBlock rounds fault c key block = (true, c)) ∨
      (∃ data cached, dataOfBlock rounds c.volume key block = some data ∧ (∀ k < blockDataSize, cached k = data k) ∧
        fetchBlock rounds fault c key block
          = (true, ⟨{ c.volume with lastDecryptedBlock := block, lastDecryptedBlockData := cached }, c.tick + 1,
            some key⟩)) ∨
      ∃ cached source, (source ≠ none → source = c.source ∧ ∀ k < blockDataSize,
        cached k = c.volume.lastDecryptedBlockData k) ∧
        fetchBlock rounds fault c key block
          = (false, ⟨{ c.volume with lastDecryptedBlockData := cached }, c.tick + 1, source⟩) := by
  by_cases hhit : c.volume.lastDecryptedBlock = block
  · exact .inl ⟨hhit, by rw [fetchBlock.eq_def, if_neg (not_not.mpr hhit)]⟩
  right
  rw [fetchBlock.eq_def, if_pos hhit]
  cases key with
  | some aesKey =>
    cases hread : blobRead fault c.volume c.tick block blockTotalSize with
    | ok data =>
      refine .inl ⟨decryptBlockData data (fun _ => 0) ⟨rounds, aesKey, .decrypt⟩, _, ?_, ?_, rfl⟩
      · rw [dataOfBlock, blobRead_ok hread]
        rfl
      · intro k hk
        rw [decryptBlockData, decryptBlockData, AES.Context.crypt, AES.Context.crypt, if_neg (by decide),
          if_neg (by decide), write_zero hk, write_zero hk]
    | error written => exact .inr ⟨_, c.source, fun _ => ⟨rfl, fun _ _ => rfl⟩, rfl⟩
  | none =>
    cases hread : blobRead fault c.volume c.tick (u64 (block + blockHeaderSize)) blockDataSize with
    | ok data =>
      refine .inl ⟨data, _, ?_, fun k hk => write_zero hk, rfl⟩
      rw [dataOfBlock, blobRead_ok hread]
    | error written =>
      refine .inr ⟨_, _, fun hsource => ?_, rfl⟩
      by_cases hnone : ((List.range blockDataSize).all fun k => (written k).isNone) = true
      · rw [if_pos hnone]
        refine ⟨rfl, fun k hk => ?_⟩
        have hk' := List.all_eq_true.mp hnone k (List.mem_range.mpr hk)
        rw [overwrite, if_pos hk, Option.isNone_iff_eq_none.mp hk']
        rfl
      · rw [if_neg hnone] at hsource
        exact absurd rfl hsource

/-- The cache stays coherent, and a block that was fetched has the key. -/
theorem fetchBlock_spec (hc : Coherent rounds c) 
    (hfind : c.volume.lastDecryptedBlock = block → c.source = some key) :
    Coherent rounds (fetchBlock rounds fault c key block).2 ∧
      SameDisc c.volume (fetchBlock rounds fault c key block).2.volume ∧
      ((fetchBlock rounds fault c key block).1 = true →
        (fetchBlock rounds fault c key block).2.source = some key ∧
        (fetchBlock rounds fault c key block).2.volume.lastDecryptedBlock = block) := by
  rcases fetchBlock_cases rounds fault c key block with ⟨hhit, heq⟩ | ⟨data, cached, hdata, hcached, heq⟩ |
    ⟨cached, source, hsource, heq⟩
  · rw [heq]
    exact ⟨hc, SameDisc.refl _, fun _ => ⟨hfind hhit, hhit⟩⟩
  · rw [heq]
    refine ⟨fun key' hkey' => ?_, ⟨rfl, rfl, rfl, rfl⟩, fun _ => ⟨rfl, rfl⟩⟩
    obtain rfl := Option.some_inj.mp hkey'
    exact ⟨data, hdata, hcached⟩
  · rw [heq]
    refine ⟨fun key' hkey' => ?_, ⟨rfl, rfl, rfl, rfl⟩, fun h => by cases h⟩
    have hkept := hsource (by
      intro hnone
      rw [hnone] at hkey'
      cases hkey')
    obtain ⟨data, hdata, hsame⟩ := hc key' (hkept.1 ▸ hkey')
    exact ⟨data, hdata, fun k hk => (hkept.2 k hk).trans (hsame k hk)⟩

theorem dataOfBlock_congr {v v' : Volume} (h : SameDisc v v') (key : Option AES.Block) (block : ℕ) :
    dataOfBlock rounds v' key block = dataOfBlock rounds v key block := by
  unfold dataOfBlock
  rw [h.reader]

theorem uncachedLoop_congr {v v' : Volume} (h : SameDisc v v') (key : Option AES.Block)
    (partitionDataOffset fuel : ℕ) :
    uncachedLoop rounds v' key partitionDataOffset fuel = uncachedLoop rounds v key partitionDataOffset fuel := by
  induction fuel with
  | zero => rfl
  | succ fuel ih =>
    funext offset length buffer
    rw [uncachedLoop, uncachedLoop, ih, dataOfBlock_congr h]

theorem slice_eq_of_lt {a b : Buffer} {offset length n : ℕ} (hn : offset + length ≤ n) (h : ∀ k < n, a k = b k) :
    slice a offset length = slice b offset length := by
  rw [slice, slice]
  refine List.map_congr_left fun k hk => h _ ?_
  have hk' := List.mem_range.mp hk
  omega

theorem cachedLoop_spec {fuel partitionDataOffset offset length : ℕ} {buffer : List Byte} (hc : Coherent rounds c)
    (hfind : 0 < length →
      c.volume.lastDecryptedBlock = u64 (partitionDataOffset + offset / blockDataSize * blockTotalSize) →
      c.source = some key) :
    Coherent rounds (cachedLoop rounds fault key partitionDataOffset fuel c offset length buffer).2 ∧
      SameDisc c.volume (cachedLoop rounds fault key partitionDataOffset fuel c offset length buffer).2.volume ∧
      ∀ bytes, (cachedLoop rounds fault key partitionDataOffset fuel c offset length buffer).1 = some bytes →
        uncachedLoop rounds c.volume key partitionDataOffset fuel offset length buffer = some bytes := by
  induction fuel generalizing c offset length buffer with
  | zero => exact ⟨hc, SameDisc.refl _, fun bytes h => h⟩
  | succ fuel ih =>
    by_cases hlength : length = 0
    · rw [cachedLoop, uncachedLoop, if_pos hlength, if_pos hlength]
      exact ⟨hc, SameDisc.refl _, fun bytes h => h⟩
    rw [cachedLoop, uncachedLoop, if_neg hlength, if_neg hlength]
    dsimp only
    obtain ⟨hcoherent, hsame, hsuccess⟩ := @fetchBlock_spec _ fault _ _ _ hc (hfind (Nat.pos_of_ne_zero hlength))
    generalize fetchBlock rounds fault c key
      (u64 (partitionDataOffset + offset / blockDataSize * blockTotalSize)) = f at hcoherent hsame hsuccess
    by_cases hf : f.1 = true
    · obtain ⟨hsource, hblock⟩ := hsuccess hf
      obtain ⟨data, hdata, hbytes⟩ := hcoherent key hsource
      rw [hblock, dataOfBlock_congr hsame] at hdata
      have hcopy : offset % blockDataSize + min length (blockDataSize - offset % blockDataSize) ≤ blockDataSize := by
        have hmod := Nat.mod_lt offset (show 0 < blockDataSize by decide)
        omega
      rw [if_pos hf, hdata, Option.bind_some, ← slice_eq_of_lt hcopy hbytes]
      obtain ⟨hcoherent', hsame', hrest⟩ := @ih f.2 (offset + min length (blockDataSize - offset % blockDataSize))
        (length - min length (blockDataSize - offset % blockDataSize))
        (buffer ++ slice f.2.volume.lastDecryptedBlockData (offset % blockDataSize)
          (min length (blockDataSize - offset % blockDataSize))) hcoherent fun _ _ => hsource
      rw [uncachedLoop_congr hsame] at hrest
      exact ⟨hcoherent', hsame.trans hsame', hrest⟩
    · rw [if_neg hf]
      exact ⟨hcoherent, hsame, fun bytes h => by cases h⟩

theorem directRead_spec (hc : Coherent rounds c) (result : Option Buffer) (offset length : ℕ) :
    Coherent rounds (directRead fault c result offset length).2 ∧
      SameDisc c.volume (directRead fault c result offset length).2.volume ∧
      ∀ bytes, (directRead fault c result offset length).1 = some bytes →
        (result.map fun data => slice data 0 length) = some bytes := by
  refine ⟨hc, SameDisc.refl _, fun bytes h => ?_⟩
  rw [directRead] at h
  dsimp only at h
  split_ifs at h
  exact h

theorem cachedRead_spec {r : Request} (hc : Coherent rounds c) (hfind : FindsOwn c r) :
    Coherent rounds (cachedRead rounds fault c r).2 ∧ SameDisc c.volume (cachedRead rounds fault c r).2.volume ∧
      ∀ bytes, (cachedRead rounds fault c r).1 = some bytes → uncachedRead rounds c.volume r = some bytes := by
  rw [FindsOwn, throughCache] at hfind
  rw [cachedRead, uncachedRead]
  by_cases hnone : r.partition = partitionNone
  · rw [if_pos hnone, if_pos hnone]
    exact directRead_spec hc _ _ _
  rw [if_neg hnone] at hfind ⊢
  rw [if_neg hnone]
  cases hpartition : c.volume.partitions r.partition with
  | none => exact ⟨hc, SameDisc.refl _, fun bytes h => by cases h⟩
  | some details =>
    rw [hpartition] at hfind
    dsimp only at hfind ⊢
    generalize u64 (r.partition + details.dataOffset) = partitionDataOffset at hfind ⊢
    by_cases hdecrypted : (c.volume.hasHashes && c.volume.hasEncryption &&
        c.volume.reader.supportsReadWiiDecrypted r.offset r.length partitionDataOffset) = true
    · rw [if_pos hdecrypted, if_pos hdecrypted]
      exact directRead_spec hc _ _ _
    rw [if_neg hdecrypted] at hfind ⊢
    rw [if_neg hdecrypted]
    by_cases hhashes : (!c.volume.hasHashes) = true
    · rw [if_pos hhashes, if_pos hhashes]
      exact directRead_spec hc _ _ _
    rw [if_neg hhashes] at hfind ⊢
    rw [if_neg hhashes]
    by_cases hencryption : c.volume.hasEncryption = true
    · rw [if_pos hencryption] at hfind ⊢
      rw [if_pos hencryption]
      cases hkey : details.key with
      | none => exact ⟨hc, SameDisc.refl _, fun bytes h => by cases h⟩
      | some key =>
        rw [hkey] at hfind
        exact cachedLoop_spec hc (hfind (some key) partitionDataOffset rfl)
    · rw [if_neg hencryption] at hfind ⊢
      rw [if_neg hencryption]
      exact cachedLoop_spec hc (hfind none partitionDataOffset rfl)

theorem transparent_of_coherent (hc : Coherent rounds c) (requests : List Request)
    (h : Meets rounds fault c requests) :
    Transparent rounds fault c requests := by
  induction requests generalizing c with
  | nil => trivial
  | cons r requests ih =>
    obtain ⟨hfind, hrest⟩ := h
    obtain ⟨hcoherent, -, hread⟩ := @cachedRead_spec rounds fault c r hc hfind
    exact ⟨hread, ih hcoherent hrest⟩

/-- **When the cache is transparent**: in each run whose reads find only data of their own key, and none
that a failed
read has changed. -/
theorem transparent_of_meets (rounds : Rounds) (fault : ℕ → ℕ → Option Partial) (reader : BlobReader)
    (partitions : Partition → Option PartitionDetails) (hasHashes hasEncryption : Bool) (requests : List Request)
    (h : Meets rounds fault (.new reader partitions hasHashes hasEncryption) requests) :
    Transparent rounds fault (.new reader partitions hasHashes hasEncryption) requests :=
  transparent_of_coherent (fun key hkey => by cases hkey) requests h

/-! ## Two runs that go wrong -/

/-- A cipher that adds the key to each byte. -/
def addingRounds : Rounds := ⟨fun key block k => block k + key k, fun key block k => block k - key k⟩

/-- A disc of zeros, that cannot read decrypted data. -/
def zeroReader : BlobReader := ⟨fun _ _ => some fun _ => 0, fun _ _ _ => false, fun _ _ _ => none⟩

/-- Two partitions with the same data region, and the keys 0 and 1. -/
def samplePartitions : Partition → Option PartitionDetails
  | 0x50000 => some ⟨some fun _ => 0, [], 0x20000⟩
  | 0x60000 => some ⟨some fun _ => 1, [], 0x10000⟩
  | _ => none

/-- Two reads of one partition. -/
theorem transparent_sample : Transparent addingRounds (fun _ _ => none) (.new zeroReader samplePartitions true true)
    [⟨0, 2, 0x60000⟩, ⟨1, 2, 0x60000⟩] := by
  refine transparent_of_meets addingRounds _ zeroReader samplePartitions true true _ ⟨?_, ?_, trivial⟩
  · intro key partitionDataOffset hkey _ hblock
    cases hkey
    exact absurd hblock (by decide)
  · intro key partitionDataOffset hkey _ _
    cases hkey
    rfl

/-- The second partition gets the data of the first one. On a volume without encryption a failed read
changes the data of
the block that was read before it. -/
theorem not_transparent_samples :
    ¬Transparent addingRounds (fun _ _ => none) (.new zeroReader samplePartitions true true)
        [⟨0, 1, 0x50000⟩, ⟨0, 1, 0x60000⟩] ∧
      ¬Transparent addingRounds
        (fun tick _ => if tick = 1 then some fun k => if k = 0 then some 9 else none else none)
        (.new zeroReader samplePartitions true false) [⟨0, 1, 0x50000⟩, ⟨0x7C00, 1, 0x50000⟩, ⟨0, 1, 0x50000⟩] := by
  constructor
  · rintro ⟨-, h, -⟩
    have hread := h [0] (by decide)
    exact absurd hread (by decide)
  · rintro ⟨-, -, h, -⟩
    have hread := h [9] (by decide)
    exact absurd hread (by decide)

end Runs

end VolumeWii
