import PrimedSteam.Lib.While
import Mathlib.Data.Fin.Basic
import Mathlib.Data.List.FinRange
import Mathlib.Logic.Function.Basic

/-!
# Cached reads of sectors

`SectorReader` reads a disc in blocks. Its cache lines hold chunks of blocks, and the line that has been used
least recently is replaced.

* `readChunk`, `getCacheLine`, `read`: the reader.
* `Serves`: each block that a line contains is the block of its number.
* `getCacheLine_spec`: what comes of a request for a block.
* **`reads_transparent`**: in any sequence of reads, those that succeed give the bytes of the blocks, and a
  read succeeds if the blocks of the chunks that it touches can be read.
-/

set_option autoImplicit false

/-- The members of a reader that do not change, and what it overrides. -/
structure SectorReader where
  blockSize : ℕ
  chunkBlocks : ℕ
  dataSize : ℕ
  getBlock : ℕ → Option (ℕ → BitVec 8)
  /-- whether the blocks could be read, and the buffer -/
  readMultipleAlignedBlocks : ℕ → ℕ → (ℕ → BitVec 8) → Bool × (ℕ → BitVec 8)
  blockSize_pos : 0 < blockSize
  chunkBlocks_pos : 0 < chunkBlocks
  dataSize_lt : dataSize < 2 ^ 64
  /-- The size of the buffer of a line, which is computed in 32 bits, is the one of a chunk. -/
  chunk_lt : chunkBlocks * blockSize < 2 ^ 32
  readMultiple_iff : ∀ blockNum cntBlocks buffer,
    (readMultipleAlignedBlocks blockNum cntBlocks buffer).1 = true ↔
      ∀ i < cntBlocks, (getBlock (blockNum + i)).isSome
  readMultiple_bytes : ∀ blockNum cntBlocks buffer,
    (readMultipleAlignedBlocks blockNum cntBlocks buffer).1 = true →
      ∀ i < cntBlocks, ∀ block, getBlock (blockNum + i) = some block → ∀ k < blockSize,
        (readMultipleAlignedBlocks blockNum cntBlocks buffer).2 (i * blockSize + k) = block k

namespace SectorReader

open While

/-- The value of a computation in 32 bits. -/
def u32 (x : ℕ) : ℕ := x % 2 ^ 32

/-- The value of a computation in 64 bits. -/
def u64 (x : ℕ) : ℕ := x % 2 ^ 64

/-! ## Cache lines -/

structure Cache where
  data : ℕ → BitVec 8
  blockIdx : ℕ
  numBlocks : ℕ
  lruSreg : BitVec 32

namespace Cache

variable (line : Cache)

def reset : Cache := { line with blockIdx := 0, numBlocks := 0, lruSreg := 0 }

def markUsed : Cache := { line with lruSreg := line.lruSreg ||| 0x80000000#32 }

def shiftLRU : Cache := { line with lruSreg := line.lruSreg >>> 1 }

def fill (block count : ℕ) : Cache := { line with blockIdx := block, numBlocks := count }.markUsed

def Contains (block : ℕ) : Prop := line.blockIdx ≤ block ∧ block - line.blockIdx < line.numBlocks

instance (block : ℕ) : Decidable (line.Contains block) := inferInstanceAs (Decidable (_ ∧ _))

def isLessRecentlyUsedThan (other : Cache) : Bool := line.lruSreg < other.lruSreg

end Cache

/-- `m_cache` -/
abbrev CacheLines := Fin 32 → Cache

def findCacheLine (blockNum : ℕ) (lines : CacheLines) : CacheLines × Option (Fin 32) :=
  match (List.finRange 32).find? fun i => (lines i).Contains blockNum with
  | none => (lines, none)
  | some i => (Function.update lines i (lines i).markUsed, some i)

/-- One line of the loop of `GetEmptyCacheLine`. -/
def shiftLine (lines : CacheLines × Fin 32) (i : Fin 32) : CacheLines × Fin 32 :=
  let (lines, oldest) := lines
  if (lines i).isLessRecentlyUsedThan (lines oldest) then
    (Function.update lines oldest (lines oldest).shiftLRU, i)
  else (Function.update lines i (lines i).shiftLRU, oldest)

/-- The loop of `GetEmptyCacheLine`: the lines, and the one that is replaced. -/
def oldestLine (lines : CacheLines) : CacheLines × Fin 32 :=
  (List.finRange 32).tail.foldl shiftLine (lines, 0)

def getEmptyCacheLine (lines : CacheLines) : CacheLines × Fin 32 :=
  let lines' := (oldestLine lines).1
  let oldest := (oldestLine lines).2
  (Function.update lines' oldest (lines' oldest).reset, oldest)

/-! ## Buffers -/

/-- `fill` of a part of a buffer with zeros. -/
def fillZero (buffer : ℕ → BitVec 8) (start stop : ℕ) : ℕ → BitVec 8 := fun j =>
  if start ≤ j ∧ j < stop then 0 else buffer j

/-- A block of `blockSize` bytes that is read into a buffer. -/
def writeBlock (blockSize : ℕ) (buffer : ℕ → BitVec 8) (start : ℕ) (block : ℕ → BitVec 8) : ℕ → BitVec 8 :=
  fun j => if start ≤ j ∧ j < start + blockSize then block (j - start) else buffer j

/-- The default of `ReadMultipleAlignedBlocks`, from block `i` on. -/
def readBlocks (blockSize : ℕ) (getBlock : ℕ → Option (ℕ → BitVec 8)) (blockNum : ℕ) :
    (remaining i : ℕ) → (ℕ → BitVec 8) → Bool × (ℕ → BitVec 8)
  | 0, _, buffer => (true, buffer)
  | remaining + 1, i, buffer =>
    match getBlock (blockNum + i) with
    | none => (false, buffer)
    | some block =>
      readBlocks blockSize getBlock blockNum remaining (i + 1)
        (writeBlock blockSize buffer (i * blockSize) block)

variable (r : SectorReader)

/-- The loop of `ReadChunk` that probes the disc, from block `i` on. -/
def probe (blockNum : ℕ) : (remaining i : ℕ) → (ℕ → BitVec 8) → ℕ × (ℕ → BitVec 8)
  | 0, i, buffer => (i, buffer)
  | remaining + 1, i, buffer =>
    match r.getBlock (blockNum + i) with
    | none => (i, fillZero buffer (i * r.blockSize) ((i + (remaining + 1)) * r.blockSize))
    | some block =>
      probe blockNum remaining (i + 1) (writeBlock r.blockSize buffer (i * r.blockSize) block)

/-- `end_block` of `ReadChunk` -/
def endBlock : ℕ := u64 (r.dataSize + r.blockSize - 1) / r.blockSize

def cntBlocks (blockNum : ℕ) : ℕ :=
  if r.endBlock ≠ 0 then u32 (min r.chunkBlocks (u64 (r.endBlock + (2 ^ 64 - blockNum)))) else r.chunkBlocks

/-- The number of blocks that are read, and the buffer. -/
def readChunk (buffer : ℕ → BitVec 8) (chunkNum : ℕ) : ℕ × (ℕ → BitVec 8) :=
  let blockNum := u64 (chunkNum * r.chunkBlocks)
  let cntBlocks := r.cntBlocks blockNum
  match r.readMultipleAlignedBlocks blockNum cntBlocks buffer with
  | (true, buffer) =>
    (cntBlocks,
      if cntBlocks < r.chunkBlocks then
        fillZero buffer (cntBlocks * r.blockSize) (r.chunkBlocks * r.blockSize)
      else buffer)
  | (false, buffer) =>
    -- the size of the disc may not be known
    if r.endBlock = 0 then r.probe blockNum cntBlocks 0 buffer else (0, buffer)

def getCacheLine (blockNum : ℕ) (lines : CacheLines) : CacheLines × Option (Fin 32) :=
  match findCacheLine blockNum lines with
  | (lines, some i) => (lines, some i)
  | (lines, none) =>
    let (lines, cache) := getEmptyCacheLine lines
    let chunkIdx := blockNum / r.chunkBlocks
    let (blocksRead, data) := r.readChunk (lines cache).data chunkIdx
    let lines := Function.update lines cache { lines cache with data }
    if blocksRead = 0 then (lines, none)
    else
      let lines := Function.update lines cache
        ((lines cache).fill (u64 (chunkIdx * r.chunkBlocks)) blocksRead)
      (lines, if (lines cache).Contains blockNum then some cache else none)

/-! ## Reads -/

/-- The variables of the loop of `Read`, with the bytes that have been copied. -/
structure ReadState where
  lines : CacheLines
  offset : ℕ
  remain : ℕ
  positionInBlock : ℕ
  out : List (BitVec 8)

/-- An iteration of `Read`; a block that cannot be read ends it. -/
def readStep (s : ReadState) : Except CacheLines ReadState :=
  let block := s.offset / r.blockSize
  match r.getCacheLine block s.lines with
  | (lines, none) => .error lines
  | (lines, some cache) =>
    let line := lines cache
    let readOffset := u32 (u32 (block - line.blockIdx) * r.blockSize + s.positionInBlock)
    let canRead := u32 (u32 (r.blockSize * line.numBlocks) + (2 ^ 32 - readOffset))
    let wasRead := min canRead s.remain
    .ok {
      lines
      offset := u64 (s.offset + wasRead)
      remain := s.remain - wasRead
      positionInBlock := 0
      out := s.out ++ (List.range wasRead).map fun k => line.data (readOffset + k) }

/-- The cache, and the bytes that are read unless it fails. -/
def read (fuel offset size : ℕ) (lines : CacheLines) : Option (CacheLines × Option (List (BitVec 8))) :=
  if r.dataSize < u64 (offset + size) then some (lines, none)
  else
    (whileLoop (fun s => 0 < s.remain) r.readStep fuel
      ⟨lines, offset, size, offset % r.blockSize, []⟩).map fun
      | .ok s => (s.lines, some s.out)
      | .error lines => (lines, none)

/-- `SetSectorSize` resets all lines. -/
def initialLines (data : Fin 32 → ℕ → BitVec 8) : CacheLines := fun i => ⟨data i, 0, 0, 0⟩

/-- The cache after a sequence of reads with enough fuel. -/
def runReads (lines : CacheLines) : List (ℕ × ℕ) → Option CacheLines
  | [] => some lines
  | (offset, size) :: calls =>
    (r.read (size + 1) offset size lines).bind fun result => runReads result.1 calls

/-! ## What a line serves -/

/-- The first `n` blocks of a buffer are those from `blockNum` on. -/
def Holds (blockNum n : ℕ) (buffer : ℕ → BitVec 8) : Prop :=
  ∀ i < n, ∃ block, r.getBlock (blockNum + i) = some block ∧
    ∀ k < r.blockSize, buffer (i * r.blockSize + k) = block k

/-- Each block that a line contains is the block of its number. -/
def Serves (line : Cache) : Prop :=
  line.numBlocks ≤ r.chunkBlocks ∧ r.Holds line.blockIdx line.numBlocks line.data

/-- The blocks of the chunk of a block can be read, up to the end of the data. -/
def ChunkReadable (block : ℕ) : Prop :=
  ∀ b, b / r.chunkBlocks = block / r.chunkBlocks → b * r.blockSize < r.dataSize → (r.getBlock b).isSome

variable {r} {lines : CacheLines}

theorem mul_add_lt_mul {i n k size : ℕ} (hi : i < n) (hk : k < size) : i * size + k < n * size := calc
  i * size + k < i * size + size := Nat.add_lt_add_left hk _
  _ = (i + 1) * size := (Nat.succ_mul i size).symm
  _ ≤ n * size := Nat.mul_le_mul_right size hi

theorem chunkBlocks_lt : r.chunkBlocks < 2 ^ 32 :=
  (Nat.le_mul_of_pos_right _ r.blockSize_pos).trans_lt r.chunk_lt

theorem Holds.congr {blockNum n : ℕ} {buffer buffer' : ℕ → BitVec 8} (h : r.Holds blockNum n buffer)
    (heq : ∀ j < n * r.blockSize, buffer' j = buffer j) : r.Holds blockNum n buffer' := by
  intro i hi
  obtain ⟨block, hblock, hbytes⟩ := h i hi
  exact ⟨block, hblock, fun k hk => (heq _ (mul_add_lt_mul hi hk)).trans (hbytes k hk)⟩

theorem Holds.succ {blockNum n : ℕ} {buffer block : ℕ → BitVec 8} (h : r.Holds blockNum n buffer)
    (hblock : r.getBlock (blockNum + n) = some block) :
    r.Holds blockNum (n + 1) (writeBlock r.blockSize buffer (n * r.blockSize) block) := by
  intro i hi
  by_cases hlast : i < n
  · obtain ⟨block', hblock', hbytes⟩ := h i hlast
    refine ⟨block', hblock', fun k hk => ?_⟩
    have hlt := mul_add_lt_mul hlast hk
    rw [writeBlock, if_neg (by omega), hbytes k hk]
  · obtain rfl : i = n := by omega
    refine ⟨block, hblock, fun k hk => ?_⟩
    rw [writeBlock, if_pos (by omega), Nat.add_sub_cancel_left]

theorem serves_of_numBlocks {line : Cache} (h : line.numBlocks = 0) : r.Serves line := by
  rw [Serves, h]
  exact ⟨Nat.zero_le _, fun i hi => absurd hi (Nat.not_lt_zero i)⟩

theorem serves_update {i : Fin 32} {line : Cache} (h : ∀ i, r.Serves (lines i)) (hline : r.Serves line) :
    ∀ j, r.Serves (Function.update lines i line j) := by
  intro j
  by_cases hj : j = i
  · rw [hj, Function.update_self]
    exact hline
  · rw [Function.update_of_ne hj]
    exact h j

theorem serves_shiftLine {l : CacheLines × Fin 32} {i : Fin 32} (h : ∀ i, r.Serves (l.1 i)) :
    ∀ j, r.Serves ((shiftLine l i).1 j) := by
  rw [shiftLine]
  split_ifs
  · exact serves_update h (h l.2)
  · exact serves_update h (h i)

theorem serves_foldl (is : List (Fin 32)) {l : CacheLines × Fin 32} (h : ∀ i, r.Serves (l.1 i)) :
    ∀ j, r.Serves ((is.foldl shiftLine l).1 j) := by
  induction is generalizing l with
  | nil => exact h
  | cons i is ih => exact ih (serves_shiftLine h)

theorem serves_getEmptyCacheLine (h : ∀ i, r.Serves (lines i)) :
    ∀ j, r.Serves ((getEmptyCacheLine lines).1 j) := by
  have hfold := @serves_foldl r (List.finRange 32).tail (lines, 0) h
  -- the loop is not unfolded for each of the lines
  rw [getEmptyCacheLine, oldestLine]
  generalize (List.finRange 32).tail.foldl shiftLine (lines, 0) = l at hfold ⊢
  exact serves_update hfold (serves_of_numBlocks rfl)

theorem numBlocks_getEmptyCacheLine (lines : CacheLines) :
    ((getEmptyCacheLine lines).1 (getEmptyCacheLine lines).2).numBlocks = 0 := by
  rw [getEmptyCacheLine]
  generalize oldestLine lines = l
  dsimp only
  rw [Function.update_self]
  rfl

theorem findCacheLine_spec {blockNum : ℕ} (h : ∀ i, r.Serves (lines i)) :
    (∀ j, r.Serves ((findCacheLine blockNum lines).1 j)) ∧
      ∀ i, (findCacheLine blockNum lines).2 = some i →
        ((findCacheLine blockNum lines).1 i).Contains blockNum := by
  rw [findCacheLine]
  cases hfind : (List.finRange 32).find? fun i => (lines i).Contains blockNum with
  | none => exact ⟨h, fun i hi => by cases hi⟩
  | some i =>
    refine ⟨serves_update h (h i), fun j hj => ?_⟩
    cases hj
    have hcontains := List.find?_some hfind
    dsimp only
    rw [Function.update_self]
    exact of_decide_eq_true hcontains

/-! ## Reading a chunk -/

theorem endBlock_eq (h : r.endBlock ≠ 0) : r.endBlock = (r.dataSize + r.blockSize - 1) / r.blockSize := by
  have hpos := r.blockSize_pos
  have hlt := r.dataSize_lt
  by_cases hwrap : r.dataSize + r.blockSize - 1 < 2 ^ 64
  · rw [endBlock, u64, Nat.mod_eq_of_lt hwrap]
  · -- a sum that wraps is less than a block
    refine absurd (Nat.div_eq_of_lt ?_) h
    have hsize : r.blockSize < 2 ^ 32 := (Nat.le_mul_of_pos_left _ r.chunkBlocks_pos).trans_lt r.chunk_lt
    rw [u64]
    omega

theorem lt_endBlock_iff (h : r.endBlock ≠ 0) {block : ℕ} :
    block < r.endBlock ↔ block * r.blockSize < r.dataSize := by
  have hpos := r.blockSize_pos
  rw [endBlock_eq h, Nat.lt_iff_add_one_le, Nat.le_div_iff_mul_le hpos, Nat.succ_mul]
  omega

theorem cntBlocks_le (blockNum : ℕ) : r.cntBlocks blockNum ≤ r.chunkBlocks := by
  rw [cntBlocks]
  split_ifs
  · exact (Nat.mod_le _ _).trans (min_le_left _ _)
  · exact le_rfl

theorem lt_cntBlocks_iff {blockNum i : ℕ} (h : r.endBlock ≠ 0) (hle : blockNum ≤ r.endBlock)
    (hi : i < r.chunkBlocks) : i < r.cntBlocks blockNum ↔ (blockNum + i) * r.blockSize < r.dataSize := by
  have hlt : r.endBlock < 2 ^ 64 := (Nat.div_le_self _ _).trans_lt (Nat.mod_lt _ (Nat.two_pow_pos 64))
  have hchunk := @chunkBlocks_lt r
  rw [← lt_endBlock_iff h, cntBlocks, if_pos h, u32, u64]
  omega

/-- **The probing loop** stops at the first block that cannot be read. -/
theorem probe_spec (blockNum remaining : ℕ) {i : ℕ} {buffer : ℕ → BitVec 8} (h : r.Holds blockNum i buffer) :
    (r.probe blockNum remaining i buffer).1 ≤ i + remaining ∧
      r.Holds blockNum (r.probe blockNum remaining i buffer).1 (r.probe blockNum remaining i buffer).2 ∧
      ((r.probe blockNum remaining i buffer).1 < i + remaining →
        r.getBlock (blockNum + (r.probe blockNum remaining i buffer).1) = none) := by
  induction remaining generalizing i buffer with
  | zero => exact ⟨le_rfl, h, fun hlt => absurd hlt (lt_irrefl i)⟩
  | succ remaining ih =>
    rw [probe]
    cases hblock : r.getBlock (blockNum + i) with
    | none =>
      refine ⟨Nat.le_add_right i _, h.congr fun j hj => ?_, fun _ => hblock⟩
      exact if_neg (by omega)
    | some block =>
      have hnext := ih (h.succ hblock)
      have hsum : i + 1 + remaining = i + (remaining + 1) := by omega
      rwa [hsum] at hnext

theorem readChunk_spec (buffer : ℕ → BitVec 8) {chunkNum : ℕ} (hlt : chunkNum * r.chunkBlocks < 2 ^ 64) :
    (r.readChunk buffer chunkNum).1 ≤ r.chunkBlocks ∧
      r.Holds (chunkNum * r.chunkBlocks) (r.readChunk buffer chunkNum).1 (r.readChunk buffer chunkNum).2 := by
  have hcnt := r.cntBlocks_le (chunkNum * r.chunkBlocks)
  rw [readChunk, u64, Nat.mod_eq_of_lt hlt]
  cases hread : r.readMultipleAlignedBlocks (chunkNum * r.chunkBlocks)
    (r.cntBlocks (chunkNum * r.chunkBlocks)) buffer with
  | mk ok data =>
  have hok : (r.readMultipleAlignedBlocks (chunkNum * r.chunkBlocks)
    (r.cntBlocks (chunkNum * r.chunkBlocks)) buffer).1 = ok := congrArg Prod.fst hread
  cases ok with
  | true =>
    dsimp only
    refine ⟨hcnt, @Holds.congr r _ _ data _ (fun i hi => ?_) fun j hj => ?_⟩
    · obtain ⟨block, hblock⟩ := Option.isSome_iff_exists.mp ((r.readMultiple_iff ..).mp hok i hi)
      have hbytes := r.readMultiple_bytes _ _ buffer hok i hi block hblock
      rw [hread] at hbytes
      exact ⟨block, hblock, hbytes⟩
    · split_ifs
      · exact if_neg (by omega)
      · rfl
  | false =>
    dsimp only
    split_ifs
    · obtain ⟨hle, hholds, -⟩ := @probe_spec r (chunkNum * r.chunkBlocks)
        (r.cntBlocks (chunkNum * r.chunkBlocks)) 0 data fun i hi => absurd hi (Nat.not_lt_zero i)
      exact ⟨by omega, hholds⟩
    · exact ⟨Nat.zero_le _, fun i hi => absurd hi (Nat.not_lt_zero i)⟩

theorem lt_readChunk (buffer : ℕ → BitVec 8) {block : ℕ} (hblock : block * r.blockSize < r.dataSize)
    (hreadable : r.ChunkReadable block) :
    block - block / r.chunkBlocks * r.chunkBlocks < (r.readChunk buffer (block / r.chunkBlocks)).1 := by
  have hpos := r.chunkBlocks_pos
  have hsize := r.blockSize_pos
  have hdata := r.dataSize_lt
  obtain ⟨base, hbase⟩ : ∃ base, base = block / r.chunkBlocks * r.chunkBlocks := ⟨_, rfl⟩
  have hle : base ≤ block := hbase ▸ Nat.div_mul_le_self block r.chunkBlocks
  have hoffset : block - base < r.chunkBlocks := by
    have hmod := Nat.mod_lt block hpos
    have hsplit := Nat.div_add_mod' block r.chunkBlocks
    omega
  have hlt : base < 2 ^ 64 := by
    have hmul := Nat.le_mul_of_pos_right block hsize
    omega
  -- the blocks of the chunk before the end of the data
  have hchunk : ∀ i < r.chunkBlocks, (base + i) * r.blockSize < r.dataSize → (r.getBlock (base + i)).isSome := by
    intro i hi hend
    refine hreadable _ ?_ hend
    rw [hbase, Nat.mul_comm, Nat.mul_add_div hpos, Nat.div_eq_of_lt hi, Nat.add_zero]
  rw [← hbase, readChunk, ← hbase, u64, Nat.mod_eq_of_lt hlt]
  have hblock' : (base + (block - base)) * r.blockSize < r.dataSize := by rwa [Nat.add_sub_cancel' hle]
  cases hread : r.readMultipleAlignedBlocks base (r.cntBlocks base) buffer with
  | mk ok data =>
  by_cases hend : r.endBlock = 0
  · have hcnt : r.cntBlocks base = r.chunkBlocks := by rw [cntBlocks, if_neg (not_not_intro hend)]
    cases ok with
    | true => rwa [hcnt]
    | false =>
      rw [hcnt]
      dsimp only
      rw [if_pos hend]
      obtain ⟨-, -, hnone⟩ := @probe_spec r base r.chunkBlocks 0 data fun i hi => absurd hi (Nat.not_lt_zero i)
      by_contra hge
      rw [not_lt] at hge
      have hread' := hchunk _ (hge.trans_lt hoffset)
        ((Nat.mul_le_mul_right _ (Nat.add_le_add_left hge base)).trans_lt hblock')
      rw [hnone (by omega)] at hread'
      cases hread'
  · have hbase_le : base ≤ r.endBlock := hle.trans ((lt_endBlock_iff hend).mpr hblock).le
    cases ok with
    | true => exact (lt_cntBlocks_iff hend hbase_le hoffset).mpr hblock'
    | false =>
      have hall : ∀ i < r.cntBlocks base, (r.getBlock (base + i)).isSome := by
        intro i hi
        have hi' := hi.trans_le (r.cntBlocks_le base)
        exact hchunk i hi' ((lt_cntBlocks_iff hend hbase_le hi').mp hi)
      have hok := (r.readMultiple_iff base _ buffer).mpr hall
      rw [hread] at hok
      cases hok

/-! ## Requests for a block -/

/-- **What comes of a request for a block.** -/
theorem getCacheLine_spec (h : ∀ i, r.Serves (lines i)) {block : ℕ} (hblock : block * r.blockSize < r.dataSize) :
    (∀ j, r.Serves ((r.getCacheLine block lines).1 j)) ∧
      (∀ i, (r.getCacheLine block lines).2 = some i → ((r.getCacheLine block lines).1 i).Contains block) ∧
      (r.ChunkReadable block → (r.getCacheLine block lines).2 ≠ none) := by
  have hpos := r.chunkBlocks_pos
  have hdata := r.dataSize_lt
  have hmul := Nat.le_mul_of_pos_right block r.blockSize_pos
  have hbase := Nat.div_mul_le_self block r.chunkBlocks
  have hfind := @findCacheLine_spec r lines block h
  rw [getCacheLine]
  cases hfound : findCacheLine block lines with
  | mk found res =>
  rw [hfound] at hfind
  obtain ⟨hserves, hcontains⟩ := hfind
  cases res with
  | some i =>
    refine ⟨hserves, fun j hj => ?_, fun _ => Option.some_ne_none i⟩
    cases hj
    exact hcontains i rfl
  | none =>
    have hempty := serves_getEmptyCacheLine hserves
    have hzero := numBlocks_getEmptyCacheLine found
    dsimp only
    generalize getEmptyCacheLine found = l at hempty hzero ⊢
    obtain ⟨empty, cache⟩ := l
    dsimp only at hempty hzero ⊢
    have hchunk := @readChunk_spec r (empty cache).data (block / r.chunkBlocks) (by omega)
    have hread := lt_readChunk (empty cache).data hblock
    cases hdata : r.readChunk (empty cache).data (block / r.chunkBlocks) with
    | mk blocksRead data =>
    rw [hdata] at hchunk hread
    have hline' : r.Serves { empty cache with data } := serves_of_numBlocks hzero
    dsimp only
    by_cases hnone : blocksRead = 0
    · rw [if_pos hnone]
      refine ⟨serves_update hempty hline', fun i hi => ?_, fun hreadable => ?_⟩
      · cases hi
      · have hlt := hread hreadable
        rw [hnone] at hlt
        exact absurd hlt (Nat.not_lt_zero _)
    · have hfill : u64 (block / r.chunkBlocks * r.chunkBlocks) = block / r.chunkBlocks * r.chunkBlocks :=
        Nat.mod_eq_of_lt (by omega)
      rw [if_neg hnone, Function.update_self, hfill]
      refine ⟨serves_update (serves_update hempty hline') hchunk, fun i hi => ?_, fun hreadable => ?_⟩
      · dsimp only at hi ⊢
        split_ifs at hi with hcontains'
        cases hi
        exact hcontains'
      · dsimp only
        rw [if_pos]
        · exact Option.some_ne_none cache
        · rw [Function.update_self]
          exact ⟨hbase, hread hreadable⟩

/-! ## Reads -/

/-- The byte of the concatenated blocks at a position. -/
def byteAt (r : SectorReader) (position : ℕ) : Option (BitVec 8) :=
  (r.getBlock (position / r.blockSize)).map fun block => block (position % r.blockSize)

/-- The positions that the rest of a loop reads, and the cache so far. -/
structure Reading (r : SectorReader) (s : ReadState) : Prop where
  serves : ∀ i, r.Serves (s.lines i)
  le_dataSize : s.offset + s.remain ≤ r.dataSize
  position : 0 < s.remain → s.positionInBlock = s.offset % r.blockSize

theorem byteAt_eq_data {line : Cache} (h : r.Holds line.blockIdx line.numBlocks line.data) {j : ℕ}
    (hj : j < line.numBlocks * r.blockSize) :
    r.byteAt (line.blockIdx * r.blockSize + j) = some (line.data j) := by
  have hsize := r.blockSize_pos
  obtain ⟨block, hblock, hbytes⟩ := h (j / r.blockSize) (Nat.div_lt_of_lt_mul (Nat.mul_comm _ _ ▸ hj))
  have hdata := hbytes _ (Nat.mod_lt j hsize)
  rw [Nat.div_add_mod'] at hdata
  rw [byteAt, Nat.mul_comm line.blockIdx, Nat.mul_add_div hsize, Nat.mul_add_mod, hblock, hdata]
  rfl

/-- **An iteration** copies bytes of the block and goes on behind them, or the block cannot be read. -/
theorem readStep_spec {s : ReadState} (h : Reading r s) (hremain : 0 < s.remain) :
    (∃ s' wasRead, r.readStep s = .ok s' ∧ Reading r s' ∧ 0 < wasRead ∧ s.remain = wasRead + s'.remain ∧
      s'.offset = s.offset + wasRead ∧
      ∃ bytes : List (BitVec 8), s'.out = s.out ++ bytes ∧
        bytes.map some = (List.range wasRead).map fun k => r.byteAt (s.offset + k)) ∨
    ∃ lines, r.readStep s = .error lines ∧ (∀ i, r.Serves (lines i)) ∧
      ¬r.ChunkReadable (s.offset / r.blockSize) := by
  have hsize := r.blockSize_pos
  have hdata := r.dataSize_lt
  have hend := h.le_dataSize
  obtain ⟨block, hblockDef⟩ : ∃ block, block = s.offset / r.blockSize := ⟨_, rfl⟩
  have hsplit : block * r.blockSize + s.offset % r.blockSize = s.offset := by
    rw [hblockDef]
    exact Nat.div_add_mod' s.offset r.blockSize
  obtain ⟨hserves, hcontains, hreadable⟩ := @getCacheLine_spec r s.lines h.serves block (by omega)
  rw [readStep, ← hblockDef]
  cases hget : r.getCacheLine block s.lines with
  | mk lines res =>
  rw [hget] at hserves hcontains hreadable
  cases res with
  | none => exact Or.inr ⟨lines, rfl, hserves, fun hchunk => hreadable hchunk rfl⟩
  | some cache =>
    left
    obtain ⟨hle, hlt⟩ := hcontains cache rfl
    obtain ⟨hnum, hholds⟩ := hserves cache
    have hposition := h.position hremain
    have hmod := Nat.mod_lt s.offset hsize
    dsimp only at hle hlt hnum hholds ⊢
    rw [hposition]
    generalize s.offset % r.blockSize = position at hsplit hmod hposition ⊢
    generalize lines cache = line at hle hlt hnum hholds ⊢
    have hbuffer : line.numBlocks * r.blockSize < 2 ^ 32 :=
      (Nat.mul_le_mul_right _ hnum).trans_lt r.chunk_lt
    have hindex := mul_add_lt_mul hlt hmod
    have hu32 : u32 (block - line.blockIdx) = block - line.blockIdx :=
      Nat.mod_eq_of_lt ((Nat.le_mul_of_pos_right _ hsize).trans_lt (by omega))
    have hmul : block * r.blockSize = line.blockIdx * r.blockSize + (block - line.blockIdx) * r.blockSize := by
      rw [← Nat.add_mul, Nat.add_sub_cancel' hle]
    rw [hu32, Nat.mul_comm r.blockSize]
    generalize (block - line.blockIdx) * r.blockSize = start at hindex hmul ⊢
    have hreadOffset : u32 (start + position) = start + position := Nat.mod_eq_of_lt (by omega)
    have hcanRead : u32 (u32 (line.numBlocks * r.blockSize) + (2 ^ 32 - (start + position))) =
        line.numBlocks * r.blockSize - (start + position) := by
      rw [u32, u32]
      omega
    rw [hreadOffset, hcanRead]
    refine ⟨_, min (line.numBlocks * r.blockSize - (start + position)) s.remain, rfl, ⟨hserves, ?_, ?_⟩, ?_, ?_,
      ?_, _, rfl, ?_⟩
    · dsimp only
      rw [u64, Nat.mod_eq_of_lt (by omega)]
      omega
    · -- the rest starts with the block behind the line
      intro hrest
      dsimp only at hrest ⊢
      have hnext : s.offset + (line.numBlocks * r.blockSize - (start + position)) =
          (line.blockIdx + line.numBlocks) * r.blockSize := by
        rw [Nat.add_mul]
        omega
      have hu64 : u64 (s.offset + (line.numBlocks * r.blockSize - (start + position))) =
          s.offset + (line.numBlocks * r.blockSize - (start + position)) := Nat.mod_eq_of_lt (by omega)
      rw [min_eq_left (by omega), hu64, hnext, Nat.mul_mod_left]
    · exact lt_min (by omega) hremain
    · dsimp only
      omega
    · dsimp only
      rw [u64, Nat.mod_eq_of_lt (by omega)]
    · rw [List.map_map]
      refine List.map_congr_left fun k hk => ?_
      rw [List.mem_range] at hk
      have hpos : s.offset + k = line.blockIdx * r.blockSize + (start + position + k) := by omega
      rw [hpos, byteAt_eq_data hholds (by omega)]
      rfl

/-- What a read gives. -/
def Outcome (r : SectorReader) (offset size : ℕ) : CacheLines × Option (List (BitVec 8)) → Prop
  | (lines, some bytes) => (∀ i, r.Serves (lines i)) ∧
    bytes.map some = (List.range size).map fun k => r.byteAt (offset + k)
  | (lines, none) => (∀ i, r.Serves (lines i)) ∧
    ∃ position, offset ≤ position ∧ position < offset + size ∧ ¬r.ChunkReadable (position / r.blockSize)

/-- What the rest of a loop gives. -/
def Rest (r : SectorReader) (s : ReadState) : Except CacheLines ReadState → Prop
  | .ok s' => (∀ i, r.Serves (s'.lines i)) ∧ ∃ bytes : List (BitVec 8), s'.out = s.out ++ bytes ∧
    bytes.map some = (List.range s.remain).map fun k => r.byteAt (s.offset + k)
  | .error lines => (∀ i, r.Serves (lines i)) ∧
    ∃ position, s.offset ≤ position ∧ position < s.offset + s.remain ∧
      ¬r.ChunkReadable (position / r.blockSize)

theorem rest_of_done {s : ReadState} (h : Reading r s) (hdone : s.remain = 0) : r.Rest s (.ok s) := by
  refine ⟨h.serves, [], (List.append_nil _).symm, ?_⟩
  rw [hdone]
  rfl

theorem rest_of_next {s s' : ReadState} {wasRead : ℕ} {bytes : List (BitVec 8)}
    (hremain : s.remain = wasRead + s'.remain) (hoffset : s'.offset = s.offset + wasRead)
    (hout : s'.out = s.out ++ bytes)
    (hbytes : bytes.map some = (List.range wasRead).map fun k => r.byteAt (s.offset + k))
    {result : Except CacheLines ReadState} (h : r.Rest s' result) : r.Rest s result := by
  cases result with
  | ok last =>
    obtain ⟨hserves, bytes', hout', hbytes'⟩ := h
    refine ⟨hserves, bytes ++ bytes', ?_, ?_⟩
    · rw [hout', hout, List.append_assoc]
    · rw [List.map_append, hbytes, hbytes', hremain, List.range_add, List.map_append, List.map_map, hoffset]
      refine congrArg _ (List.map_congr_left fun k _ => ?_)
      rw [Nat.add_assoc]
      rfl
  | error lines =>
    obtain ⟨hserves, position, hle, hlt, hchunk⟩ := h
    exact ⟨hserves, position, by omega, by omega, hchunk⟩

/-- **A read in range.** -/
theorem read_spec {fuel offset size : ℕ} (h : ∀ i, r.Serves (lines i)) (hrange : offset + size ≤ r.dataSize)
    (hfuel : size < fuel) : ∃ result, r.read fuel offset size lines = some result ∧
      r.Outcome offset size result := by
  have hdata := r.dataSize_lt
  have hcheck : ¬r.dataSize < u64 (offset + size) := by
    rw [u64]
    omega
  have hbody : ∀ s, Reading r s → decide (0 < s.remain) = true →
      (∃ s', r.readStep s = .ok s' ∧ Reading r s' ∧ s'.remain < s.remain ∧
        ∀ result, r.Rest s' result → r.Rest s result) ∨
      ∃ lines, r.readStep s = .error lines ∧ r.Rest s (.error lines) := by
    intro s hs hremain
    have hpos := of_decide_eq_true hremain
    obtain ⟨s', wasRead, hstep, hs', hread, hsum, hoffset, bytes, hout, hbytes⟩ |
      ⟨lines', hstep, hserves, hchunk⟩ := readStep_spec hs hpos
    · exact Or.inl ⟨s', hstep, hs', by omega, fun result => rest_of_next hsum hoffset hout hbytes⟩
    · exact Or.inr ⟨lines', hstep, hserves, s.offset, le_rfl, by omega, hchunk⟩
  have hexit : ∀ s, Reading r s → decide (0 < s.remain) = false → r.Rest s (.ok s) := by
    intro s hs hremain
    exact rest_of_done hs (Nat.eq_zero_of_not_pos (of_decide_eq_false hremain))
  have hstart : Reading r ⟨lines, offset, size, offset % r.blockSize, []⟩ := ⟨h, hrange, fun _ => rfl⟩
  obtain ⟨result, hresult, hrest⟩ := whileLoop_total (fun s => s.remain) hexit hbody hstart hfuel
  rw [read, if_neg hcheck, hresult, Option.map_some]
  refine ⟨_, rfl, ?_⟩
  cases result with
  | ok last =>
    obtain ⟨hserves, bytes, hout, hbytes⟩ := hrest
    rw [List.nil_append] at hout
    rw [← hout] at hbytes
    exact ⟨hserves, hbytes⟩
  | error lines => exact hrest

theorem runReads_serves (r : SectorReader) (data : Fin 32 → ℕ → BitVec 8) (calls : List (ℕ × ℕ))
    (hcalls : ∀ call ∈ calls, call.1 + call.2 ≤ r.dataSize) :
    ∃ lines, r.runReads (initialLines data) calls = some lines ∧ ∀ i, r.Serves (lines i) := by
  have hinitial : ∀ i, r.Serves (initialLines data i) := fun i => serves_of_numBlocks rfl
  generalize initialLines data = lines at hinitial
  induction calls generalizing lines with
  | nil => exact ⟨lines, rfl, hinitial⟩
  | cons call calls ih =>
    obtain ⟨⟨lines₁, result⟩, hread, houtcome⟩ := read_spec hinitial (hcalls call List.mem_cons_self)
      (Nat.lt_succ_self call.2)
    have hserves : ∀ i, r.Serves (lines₁ i) := by
      cases result with
      | none => exact houtcome.1
      | some bytes => exact houtcome.1
    obtain ⟨lines₂, hrest, hserves₂⟩ := ih (fun c hc => hcalls c (List.mem_cons_of_mem call hc)) lines₁ hserves
    exact ⟨lines₂, by rw [runReads, hread, Option.bind_some, hrest], hserves₂⟩

/-- **Reads through the cache are those of the blocks.** After any reads in range, each line serves the blocks
of its tag, a read that succeeds gives the bytes of the concatenated blocks, and it succeeds if the blocks of
the chunks that it touches can be read. -/
theorem reads_transparent (r : SectorReader) (data : Fin 32 → ℕ → BitVec 8) (calls : List (ℕ × ℕ))
    (hcalls : ∀ call ∈ calls, call.1 + call.2 ≤ r.dataSize) :
    ∃ lines, r.runReads (initialLines data) calls = some lines ∧ (∀ i, r.Serves (lines i)) ∧
      ∀ fuel offset size, offset + size ≤ r.dataSize → size < fuel →
        ∃ lines' result, r.read fuel offset size lines = some (lines', result) ∧
          (∀ bytes, result = some bytes →
            bytes.map some = (List.range size).map fun k => r.byteAt (offset + k)) ∧
          ((∀ position, offset ≤ position → position < offset + size →
            r.ChunkReadable (position / r.blockSize)) → result ≠ none) := by
  obtain ⟨lines, hlines, hserves⟩ := r.runReads_serves data calls hcalls
  refine ⟨lines, hlines, hserves, fun fuel offset size hrange hfuel => ?_⟩
  obtain ⟨⟨lines', result⟩, hread, houtcome⟩ := read_spec hserves hrange hfuel
  refine ⟨lines', result, hread, fun bytes hbytes => ?_, fun hchunks hnone => ?_⟩
  · rw [hbytes] at houtcome
    exact houtcome.2
  · rw [hnone] at houtcome
    obtain ⟨-, position, hle, hlt, hchunk⟩ := houtcome
    exact hchunk (hchunks position hle hlt)

/-! ## The default of `ReadMultipleAlignedBlocks` -/

theorem readBlocks_spec {blockSize : ℕ} {getBlock : ℕ → Option (ℕ → BitVec 8)} {blockNum : ℕ} (remaining : ℕ)
    {i : ℕ} {buffer : ℕ → BitVec 8} (hearlier : ∀ j < i, (getBlock (blockNum + j)).isSome) :
    (readBlocks blockSize getBlock blockNum remaining i buffer).1 = true ↔
      ∀ j < i + remaining, (getBlock (blockNum + j)).isSome := by
  induction remaining generalizing i buffer with
  | zero => exact ⟨fun _ => hearlier, fun _ => rfl⟩
  | succ remaining ih =>
    rw [readBlocks]
    cases hblock : getBlock (blockNum + i) with
    | none =>
      refine ⟨fun hfalse => absurd hfalse Bool.false_ne_true, fun hall => ?_⟩
      have hsome := hall i (by omega)
      rw [hblock] at hsome
      cases hsome
    | some block =>
      have hnext := @ih (i + 1) (writeBlock blockSize buffer (i * blockSize) block) fun j hj => by
        by_cases hlast : j = i
        · rw [hlast, hblock]
          rfl
        · exact hearlier j (by omega)
      have hsum : i + 1 + remaining = i + (remaining + 1) := by omega
      rwa [hsum] at hnext

theorem readBlocks_bytes {blockSize : ℕ} {getBlock : ℕ → Option (ℕ → BitVec 8)} {blockNum : ℕ} (remaining : ℕ)
    {i : ℕ} {buffer : ℕ → BitVec 8}
    (hearlier : ∀ j < i, ∀ block, getBlock (blockNum + j) = some block → ∀ k < blockSize,
      buffer (j * blockSize + k) = block k)
    (hok : (readBlocks blockSize getBlock blockNum remaining i buffer).1 = true) :
    ∀ j < i + remaining, ∀ block, getBlock (blockNum + j) = some block → ∀ k < blockSize,
      (readBlocks blockSize getBlock blockNum remaining i buffer).2 (j * blockSize + k) = block k := by
  induction remaining generalizing i buffer with
  | zero => exact hearlier
  | succ remaining ih =>
    rw [readBlocks] at hok ⊢
    cases hblock : getBlock (blockNum + i) with
    | none =>
      rw [hblock] at hok
      exact absurd hok Bool.false_ne_true
    | some block =>
      rw [hblock] at hok
      have hnext := ih (i := i + 1) (fun j hj block' hblock' k hk => ?_) hok
      · have hsum : i + 1 + remaining = i + (remaining + 1) := by omega
        rwa [hsum] at hnext
      · by_cases hlast : j = i
        · rw [hlast, hblock, Option.some_inj] at hblock'
          rw [hlast, writeBlock, if_pos (by omega), Nat.add_sub_cancel_left, hblock']
        · have hlt := mul_add_lt_mul (show j < i by omega) hk
          rw [writeBlock, if_neg (by omega)]
          exact hearlier j (by omega) block' hblock' k hk

/-- A reader that does not override `ReadMultipleAlignedBlocks`. -/
def ofGetBlock (blockSize chunkBlocks dataSize : ℕ) (getBlock : ℕ → Option (ℕ → BitVec 8))
    (hsize : 0 < blockSize) (hblocks : 0 < chunkBlocks) (hdata : dataSize < 2 ^ 64)
    (hchunk : chunkBlocks * blockSize < 2 ^ 32) : SectorReader where
  blockSize := blockSize
  chunkBlocks := chunkBlocks
  dataSize := dataSize
  getBlock := getBlock
  readMultipleAlignedBlocks blockNum cntBlocks := readBlocks blockSize getBlock blockNum cntBlocks 0
  blockSize_pos := hsize
  chunkBlocks_pos := hblocks
  dataSize_lt := hdata
  chunk_lt := hchunk
  readMultiple_iff blockNum cntBlocks buffer := by
    have hspec := @readBlocks_spec blockSize getBlock blockNum cntBlocks 0 buffer fun j hj =>
      absurd hj (Nat.not_lt_zero j)
    rwa [Nat.zero_add] at hspec
  readMultiple_bytes blockNum cntBlocks buffer hok := by
    have hbytes := @readBlocks_bytes blockSize getBlock blockNum cntBlocks 0 buffer
      (fun j hj => absurd hj (Nat.not_lt_zero j)) hok
    rwa [Nat.zero_add] at hbytes

/-- Four blocks of two bytes in two chunks; the last block cannot be read. -/
def lastUnreadable : SectorReader :=
  ofGetBlock 2 2 8 (fun blockNum => if blockNum < 3 then some fun k => .ofNat 8 (2 * blockNum + k) else none)
    (by decide) (by decide) (by decide) (by decide)

/-- The first chunk is read and then found in the cache, and the second one fails. -/
theorem reads_transparent_lastUnreadable :
    ∃ lines, lastUnreadable.runReads (initialLines fun _ _ => 0) [(0, 3), (2, 2), (4, 1)] = some lines ∧
      (∀ i, lastUnreadable.Serves (lines i)) ∧ (∃ i, (lines i).Contains 1) ∧
      ∃ lines', lastUnreadable.read 4 1 3 lines = some (lines', some [1, 2, 3]) := by
  obtain ⟨lines, hlines, hserves, hreads⟩ := reads_transparent lastUnreadable (fun _ _ => 0)
    [(0, 3), (2, 2), (4, 1)] (by decide)
  obtain ⟨lines', result, hread, hbytes, hresult⟩ := hreads 4 1 3 (by decide) (by decide)
  have hcached : (lastUnreadable.runReads (initialLines fun _ _ => 0) [(0, 3), (2, 2), (4, 1)]).map
      (fun lines => decide (∃ i, (lines i).Contains 1)) = some true := by decide +kernel
  rw [hlines] at hcached
  have hchunk : ∀ position, 1 ≤ position → position < 1 + 3 →
      lastUnreadable.ChunkReadable (position / lastUnreadable.blockSize) := by
    intro position _ hlt b hb _
    change b / 2 = position / 2 / 2 at hb
    change (if b < 3 then some _ else none : Option (ℕ → BitVec 8)).isSome
    rw [if_pos (by omega)]
    rfl
  cases hsome : result with
  | none => exact absurd hsome (hresult hchunk)
  | some bytes =>
    have hvalues := hbytes bytes hsome
    have hlist : (List.range 3).map (fun k => lastUnreadable.byteAt (1 + k)) =
        ([1, 2, 3] : List (BitVec 8)).map some := by decide +kernel
    rw [hlist] at hvalues
    rw [List.map_injective_iff.mpr (Option.some_injective _) hvalues] at hsome
    exact ⟨lines, hlines, hserves, of_decide_eq_true (Option.some.inj hcached), lines', hsome ▸ hread⟩

/-! ## A block next to one that cannot be read -/

/-- Two blocks of a byte in a chunk; the second one cannot be read. -/
def secondUnreadable : SectorReader :=
  ofGetBlock 1 2 2 (fun blockNum => if blockNum = 0 then some fun _ => 7#8 else none) (by decide) (by decide)
    (by decide) (by decide)

/-- The first block is readable, but its chunk is not. -/
theorem read_fails_next_to_unreadable :
    ¬∀ (r : SectorReader) (data : Fin 32 → ℕ → BitVec 8) (offset size : ℕ), offset + size ≤ r.dataSize →
      (∀ position, offset ≤ position → position < offset + size →
        (r.getBlock (position / r.blockSize)).isSome) →
      ∃ lines bytes, r.read (size + 1) offset size (initialLines data) = some (lines, some bytes) := by
  intro h
  obtain ⟨lines, bytes, hread⟩ := h secondUnreadable (fun _ _ => 0) 0 1 (by decide) fun position _ hlt => by
    obtain rfl : position = 0 := by omega
    rfl
  have hfails : (secondUnreadable.read (1 + 1) 0 1 (initialLines fun _ _ => 0)).map Prod.snd = some none := by
    decide +kernel
  rw [hread] at hfails
  cases hfails

end SectorReader
