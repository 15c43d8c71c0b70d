import PrimedSteam.DiscIO.CompressedBlob
import PrimedSteam.Lib.WordMasks
import Mathlib.Data.List.GetD
import Mathlib.Tactic.NormNum

/-!
# Restoring GCZ files

A conversion puts the tables of its blocks before their bytes, and a reader keeps where these begin in an
`int`.

* `convertFrom_spec`: the pointers and the bytes that a conversion writes.
* `create_fileBytes`: the tables that are read from the file.
* `getBlockCompressedSize_eq`, `getBlock_eq`: what the pointers tell, and what is read of a block.
* `restores_of_tablesFit`: a conversion whose tables fit is lossless.
* `not_restores`: where they do not fit, some conversion is not.
* **`conversion_lossless_iff`**: both, for each size of the disc and of the blocks.
-/

set_option autoImplicit false

namespace CompressedBlob

open ByteOrder Concatenation

variable {z : Zlib} {blob : Blob} {blockSize : ℕ}

/-! ## What is written -/

section

variable (z blob blockSize)

/-- A block of the blob, filled up with zeros behind its end. -/
def blockAt (k : ℕ) : List Byte :=
  (List.range blockSize).map fun j =>
    if k * blockSize + j < blob.size.toNat then blob.byte (k * blockSize + j) else 0

/-- What is written for a block. -/
def storedBlock (k : ℕ) : Bool × List Byte := compress z blockSize (blockAt blob blockSize k)

/-- Where the bytes of a block are, behind the tables. -/
def position : ℕ → ℕ
  | 0 => 0
  | k + 1 => position k + (storedBlock z blob blockSize k).2.length

/-- The bytes of the first `k` blocks. -/
def dataUpTo : ℕ → List Byte
  | 0 => []
  | k + 1 => dataUpTo k ++ (storedBlock z blob blockSize k).2

def pointer (k : ℕ) : BitVec 64 :=
  if (storedBlock z blob blockSize k).1 then BitVec.ofNat 64 (position z blob blockSize k)
  else BitVec.ofNat 64 (position z blob blockSize k) ||| storedFlag

/-- The variables after `k` blocks. -/
def written (k : ℕ) : Written where
  position := BitVec.ofNat 64 (position z blob blockSize k)
  offsets := (List.range k).map (pointer z blob blockSize)
  hashes := (List.range k).map fun j => z.hashAdler32 (storedBlock z blob blockSize j).2
  data := dataUpTo z blob blockSize k

end

theorem length_blockAt (blob : Blob) (blockSize k : ℕ) : (blockAt blob blockSize k).length = blockSize := by
  rw [blockAt, List.length_map, List.length_range]

theorem length_storedBlock_le (k : ℕ) : (storedBlock z blob blockSize k).2.length ≤ blockSize := by
  have hle := z.length_deflate_le (blockAt blob blockSize k) blockSize
  rw [storedBlock, compress]
  cases hdeflate : z.deflate (blockAt blob blockSize k) blockSize with
  | mk streamEnd output =>
  rw [hdeflate] at hle
  dsimp only
  split_ifs
  · exact (length_blockAt blob blockSize k).le
  · exact hle

theorem storedBlock_of_not {k : ℕ} (h : (storedBlock z blob blockSize k).1 = false) :
    (storedBlock z blob blockSize k).2 = blockAt blob blockSize k := by
  rw [storedBlock, compress] at h ⊢
  cases hdeflate : z.deflate (blockAt blob blockSize k) blockSize with
  | mk streamEnd output =>
  rw [hdeflate] at h
  dsimp only at h ⊢
  split_ifs at h ⊢ with hstore
  rfl

theorem inflate_storedBlock {k : ℕ} (h : (storedBlock z blob blockSize k).1 = true) :
    z.inflate (storedBlock z blob blockSize k).2 blockSize = blockAt blob blockSize k := by
  have hinflate := z.inflate_deflate (blockAt blob blockSize k) blockSize
  rw [length_blockAt] at hinflate
  rw [storedBlock, compress] at h ⊢
  cases hdeflate : z.deflate (blockAt blob blockSize k) blockSize with
  | mk streamEnd output =>
  rw [hdeflate] at h hinflate
  dsimp only at h ⊢
  split_ifs at h ⊢ with hstore
  · exact hinflate (by
      rw [Bool.or_eq_true, not_or, Bool.not_eq_true', Bool.not_eq_false] at hstore
      exact hstore.1)

theorem length_dataUpTo (k : ℕ) : (dataUpTo z blob blockSize k).length = position z blob blockSize k := by
  induction k with
  | zero => rfl
  | succ k ih => rw [dataUpTo, List.length_append, ih, position]

theorem position_mono {j k : ℕ} (h : j ≤ k) : position z blob blockSize j ≤ position z blob blockSize k := by
  induction k, h using Nat.le_induction with
  | base => exact le_rfl
  | succ k _ ih => exact ih.trans (Nat.le_add_right _ _)

theorem position_le (k : ℕ) : position z blob blockSize k ≤ k * blockSize := by
  induction k with
  | zero => exact Nat.zero_le _
  | succ k ih =>
    rw [position, Nat.succ_mul]
    exact Nat.add_le_add ih (length_storedBlock_le k)

theorem slice_dataUpTo {k n : ℕ} (h : k < n) :
    slice (dataUpTo z blob blockSize n) (position z blob blockSize k)
      (storedBlock z blob blockSize k).2.length = (storedBlock z blob blockSize k).2 := by
  induction n, h using Nat.le_induction with
  | base =>
    change slice (dataUpTo z blob blockSize k ++ (storedBlock z blob blockSize k).2) _ _ = _
    rw [slice, List.drop_left' (length_dataUpTo k), List.take_length]
  | succ n hkn ih =>
    have hle : position z blob blockSize k + (storedBlock z blob blockSize k).2.length ≤
        (dataUpTo z blob blockSize n).length := by
      rw [length_dataUpTo]
      exact position_mono hkn
    rw [dataUpTo, slice, List.drop_append_of_le_length (by omega), List.take_append_of_le_length]
    · exact ih
    · rw [List.length_drop]
      omega

theorem written_succ (k : ℕ) :
    output (written z blob blockSize k) (z.hashAdler32 (storedBlock z blob blockSize k).2)
      (storedBlock z blob blockSize k) = written z blob blockSize (k + 1) := by
  rw [output, written, written, position, dataUpTo, List.range_succ, List.map_append, List.map_append,
    List.map_singleton, List.map_singleton, BitVec.ofNat_add]
  rfl

theorem inBuf_eq {k : ℕ} {bytes : List Byte} (hk : k * blockSize < blob.size.toNat)
    (hread : blob.read (k * blockSize) (min blockSize (blob.size.toNat - k * blockSize)) = some bytes) :
    bytes ++ List.replicate (blockSize - min blockSize (blob.size.toNat - k * blockSize)) 0 =
      blockAt blob blockSize k := by
  rw [blob.read_eq _ _ _ hread]
  refine List.ext_getElem ?_ fun j h₁ h₂ => ?_
  · rw [List.length_append, List.length_map, List.length_range, List.length_replicate, length_blockAt]
    omega
  · rw [length_blockAt] at h₂
    simp only [blockAt, List.getElem_map, List.getElem_range]
    by_cases hlow : j < min blockSize (blob.size.toNat - k * blockSize)
    · rw [List.getElem_append_left (by rwa [List.length_map, List.length_range]), List.getElem_map,
        List.getElem_range, if_pos (by omega)]
    · rw [List.getElem_append_right (by rw [List.length_map, List.length_range]; omega),
        List.getElem_replicate, if_neg (by omega)]

/-- **The loop of a conversion** writes one block after another. -/
theorem convertFrom_spec {succeeds : ℕ → Bool} (remaining : ℕ) {i : ℕ} {w : Written}
    (hblocks : ∀ k < i + remaining, k * blockSize < blob.size.toNat)
    (h : convertFrom z blob blockSize succeeds remaining i (i * blockSize) (written z blob blockSize i) =
      some w) : w = written z blob blockSize (i + remaining) := by
  have hsize := blob.size.isLt
  induction remaining generalizing i with
  | zero =>
    cases h
    rfl
  | succ remaining ih =>
    have hk := hblocks i (by omega)
    have hbytes : u64 (blob.size.toNat + (2 ^ 64 - i * blockSize)) = blob.size.toNat - i * blockSize := by
      rw [u64]
      omega
    rw [convertFrom, hbytes] at h
    obtain ⟨bytes, hread, h⟩ := Option.bind_eq_some_iff.mp h
    dsimp only at h
    rw [inBuf_eq hk hread] at h
    split_ifs at h with hsucceeds
    have hsum : i + 1 + remaining = i + (remaining + 1) := by omega
    rw [← hsum] at hblocks ⊢
    cases remaining with
    | zero =>
      rw [← Option.some_inj, ← h]
      exact congrArg some (written_succ i)
    | succ remaining =>
      have hnext := hblocks (i + 1) (by omega)
      have hinpos : u64 (i * blockSize + blockSize) = (i + 1) * blockSize := by
        rw [Nat.succ_mul] at hnext ⊢
        exact Nat.mod_eq_of_lt (by omega)
      refine ih hblocks ?_
      rw [← h, hinpos]
      exact congrArg _ (written_succ i).symm

theorem convertFrom_isSome {succeeds : ℕ → Bool} (hread : ∀ offset n, (blob.read offset n).isSome)
    (hsucceeds : ∀ k, succeeds k = true) (remaining : ℕ) {i inpos : ℕ} {w : Written} :
    (convertFrom z blob blockSize succeeds remaining i inpos w).isSome := by
  induction remaining generalizing i inpos w with
  | zero => rfl
  | succ remaining ih =>
    obtain ⟨bytes, hbytes⟩ := Option.isSome_iff_exists.mp
      (hread inpos (min blockSize (u64 (blob.size.toNat + (2 ^ 64 - inpos)))))
    rw [convertFrom, hbytes, Option.bind_eq_bind, Option.bind_some]
    dsimp only
    rw [if_pos (hsucceeds i)]
    exact ih

/-! ## Reading the tables -/

theorem length_toBytes (n v : ℕ) : (toBytes n v).length = n := by
  induction n generalizing v with
  | zero => rfl
  | succ n ih => rw [toBytes, List.length_cons, ih]

theorem ofNat_toBytes {w n : ℕ} (x : BitVec w) (h : 2 ^ w ≤ 256 ^ n) :
    BitVec.ofNat w (littleEndian (toBytes n x.toNat)) = x := by
  rw [littleEndian_toBytes, Nat.mod_eq_of_lt (x.isLt.trans_le h), BitVec.ofNat_toNat, BitVec.setWidth_eq]

theorem ofBytes_bytes (h : CompressedBlobHeader) (rest : List Byte) :
    CompressedBlobHeader.ofBytes (h.bytes ++ rest) = h := by
  have h₀ : slice (h.bytes ++ rest) 0 4 = toBytes 4 h.magicCookie.toNat := rfl
  have h₁ : slice (h.bytes ++ rest) 4 4 = toBytes 4 h.subType.toNat := rfl
  have h₂ : slice (h.bytes ++ rest) 8 8 = toBytes 8 h.compressedDataSize.toNat := rfl
  have h₃ : slice (h.bytes ++ rest) 16 8 = toBytes 8 h.dataSize.toNat := rfl
  have h₄ : slice (h.bytes ++ rest) 24 4 = toBytes 4 h.blockSize.toNat := rfl
  have h₅ : slice (h.bytes ++ rest) 28 4 = toBytes 4 h.numBlocks.toNat := rfl
  rw [CompressedBlobHeader.ofBytes, h₀, h₁, h₂, h₃, h₄, h₅, ofNat_toBytes _ (by norm_num),
    ofNat_toBytes _ (by norm_num), ofNat_toBytes _ (by norm_num), ofNat_toBytes _ (by norm_num),
    ofNat_toBytes _ (by norm_num), ofNat_toBytes _ (by norm_num)]

theorem length_flatMap_toBytes {w : ℕ} (size : ℕ) (words : List (BitVec w)) :
    (words.flatMap fun x => toBytes size x.toNat).length = size * words.length := by
  induction words with
  | nil => rfl
  | cons word words ih =>
    rw [List.flatMap_cons, List.length_append, length_toBytes, ih, List.length_cons, Nat.mul_succ, Nat.add_comm]

end CompressedBlob

namespace CompressedBlobReader

open CompressedBlob ByteOrder Concatenation

theorem readWords_flatMap {w size : ℕ} (h : 2 ^ w ≤ 256 ^ size) (words : List (BitVec w)) (rest : List Byte) :
    readWords w size words.length ((words.flatMap fun x => toBytes size x.toNat) ++ rest) = words := by
  induction words with
  | nil => rfl
  | cons word words ih =>
    rw [List.length_cons, readWords, List.flatMap_cons, List.append_assoc,
      List.take_left' (length_toBytes size _), List.drop_left' (length_toBytes size _), ofNat_toBytes _ h, ih]

variable {z : Zlib} {blob : Blob} {blockSize : ℕ}

/-- The reader of a file whose first `n` blocks have been written. -/
def readerOf (z : Zlib) (blob : Blob) (subType : BitVec 32) (blockSize : ℕ) (n : BitVec 32) :
    CompressedBlobReader where
  header := {
    magicCookie := gczMagic
    subType
    compressedDataSize := (written z blob blockSize n.toNat).position
    dataSize := blob.size
    blockSize := BitVec.ofNat 32 blockSize
    numBlocks := n }
  blockPointers := (written z blob blockSize n.toNat).offsets
  hashes := (written z blob blockSize n.toNat).hashes
  dataOffset := BitVec.ofNat 32 (headerSize + 8 * n.toNat + 4 * n.toNat)
  file := fileBytes {
    magicCookie := gczMagic
    subType
    compressedDataSize := (written z blob blockSize n.toNat).position
    dataSize := blob.size
    blockSize := BitVec.ofNat 32 blockSize
    numBlocks := n } (written z blob blockSize n.toNat)

theorem create_fileBytes (z : Zlib) (blob : Blob) (subType : BitVec 32) (blockSize : ℕ) (n : BitVec 32) :
    create (readerOf z blob subType blockSize n).file = some (readerOf z blob subType blockSize n) := by
  obtain ⟨h, hh⟩ : ∃ h, h = (readerOf z blob subType blockSize n).header := ⟨_, rfl⟩
  obtain ⟨w, hw⟩ : ∃ w, w = written z blob blockSize n.toNat := ⟨_, rfl⟩
  have hfile : (readerOf z blob subType blockSize n).file =
      h.bytes ++ ((w.offsets.flatMap fun offset => toBytes 8 offset.toNat) ++
        ((w.hashes.flatMap fun hash => toBytes 4 hash.toNat) ++ w.data)) := by
    rw [hh, hw, ← List.append_assoc, ← List.append_assoc]
    rfl
  have hheader : CompressedBlobHeader.ofBytes (readerOf z blob subType blockSize n).file = h := by
    rw [hfile, ofBytes_bytes]
  have hlen : h.bytes.length = headerSize := rfl
  have hoffsets : w.offsets.length = n.toNat := by
    rw [hw, written, List.length_map, List.length_range]
  have hhashes : w.hashes.length = n.toNat := by
    rw [hw, written, List.length_map, List.length_range]
  have hpointers : readWords 64 8 n.toNat ((readerOf z blob subType blockSize n).file.drop headerSize) =
      w.offsets := by
    rw [hfile, List.drop_left' hlen, ← hoffsets, readWords_flatMap (by norm_num)]
  have hwords : readWords 32 4 n.toNat
      ((readerOf z blob subType blockSize n).file.drop (headerSize + 8 * n.toNat)) = w.hashes := by
    rw [hfile, ← List.drop_drop, List.drop_left' hlen,
      List.drop_left' (by rw [length_flatMap_toBytes, hoffsets]), ← hhashes, readWords_flatMap (by norm_num)]
  have hlong : headerSize ≤ (readerOf z blob subType blockSize n).file.length := by
    rw [hfile, List.length_append, hlen]
    exact Nat.le_add_right _ _
  have hmagic : h.magicCookie = gczMagic := by rw [hh, readerOf]
  have hnum : h.numBlocks = n := by rw [hh, readerOf]
  rw [create, hheader]
  dsimp only
  rw [if_neg (by rw [not_or, not_lt, not_not]; exact ⟨hlong, hmagic⟩), hnum, hpointers, hwords, hh, hw]
  rfl

theorem length_file (z : Zlib) (blob : Blob) (subType : BitVec 32) (blockSize : ℕ) (n : BitVec 32) :
    (readerOf z blob subType blockSize n).file.length =
      headerSize + 12 * n.toNat + position z blob blockSize n.toNat := by
  rw [readerOf, fileBytes, List.length_append, List.length_append, List.length_append, length_flatMap_toBytes,
    length_flatMap_toBytes, written, List.length_map, List.length_range, List.length_map, List.length_range,
    length_dataUpTo]
  change 32 + _ + _ + _ = 32 + _ + _
  omega

theorem drop_file (z : Zlib) (blob : Blob) (subType : BitVec 32) (blockSize : ℕ) (n : BitVec 32) :
    (readerOf z blob subType blockSize n).file.drop (headerSize + 12 * n.toNat) =
      dataUpTo z blob blockSize n.toNat := by
  rw [readerOf, fileBytes]
  refine List.drop_left' ?_
  rw [List.length_append, List.length_append, length_flatMap_toBytes, length_flatMap_toBytes, written,
    List.length_map, List.length_range, List.length_map, List.length_range]
  change 32 + _ + _ = 32 + _
  omega

/-! ## Reading a block -/

section

variable {subType : BitVec 32} {n : BitVec 32} {k : ℕ}

theorem blockPointers_getElem? (hk : k < n.toNat) :
    (readerOf z blob subType blockSize n).blockPointers[k]? = some (pointer z blob blockSize k) := by
  rw [readerOf, written, List.getElem?_map, List.getElem?_range hk]
  rfl

theorem setWidth_sub (x y : BitVec 64) : (x - y).setWidth 32 = x.setWidth 32 - y.setWidth 32 := by
  apply BitVec.eq_of_toNat_eq
  rw [BitVec.toNat_setWidth, BitVec.toNat_sub, BitVec.toNat_sub, BitVec.toNat_setWidth, BitVec.toNat_setWidth]
  omega

theorem setWidth_ofNat (x : ℕ) : (BitVec.ofNat 64 x).setWidth 32 = BitVec.ofNat 32 x := by
  apply BitVec.eq_of_toNat_eq
  rw [BitVec.toNat_setWidth, BitVec.toNat_ofNat, BitVec.toNat_ofNat]
  omega

theorem setWidth_pointer (k : ℕ) : (pointer z blob blockSize k).setWidth 32 =
    BitVec.ofNat 32 (position z blob blockSize k) := by
  have hflag : storedFlag.setWidth 32 = 0#32 := rfl
  rw [pointer]
  split_ifs
  · exact setWidth_ofNat _
  · rw [BitVec.setWidth_or, hflag, BitVec.or_zero, setWidth_ofNat]

theorem position_diff (k : ℕ) (hblockSize : blockSize < 2 ^ 31) :
    (BitVec.ofNat 32 (position z blob blockSize (k + 1)) -
      BitVec.ofNat 32 (position z blob blockSize k)).toNat = (storedBlock z blob blockSize k).2.length := by
  have hle := @length_storedBlock_le z blob blockSize k
  rw [position, BitVec.toNat_sub, BitVec.toNat_ofNat, BitVec.toNat_ofNat]
  omega

/-- **The size of a block**, from the pointers. -/
theorem getBlockCompressedSize_eq (hk : k < n.toNat) (hblockSize : blockSize < 2 ^ 31) :
    ∃ size, (readerOf z blob subType blockSize n).getBlockCompressedSize k = some size ∧
      (size.setWidth 32).toNat = (storedBlock z blob blockSize k).2.length := by
  have hpred : (n - 1).toNat = n.toNat - 1 := by
    have hone : (1 : BitVec 32).toNat = 1 := rfl
    have hn := n.isLt
    rw [BitVec.toNat_sub, hone]
    omega
  have hnum : (readerOf z blob subType blockSize n).header.numBlocks = n := rfl
  rw [getBlockCompressedSize, blockPointers_getElem? hk, Option.bind_eq_bind, Option.bind_some, hnum, hpred]
  by_cases hlast : k < n.toNat - 1
  · refine ⟨pointer z blob blockSize (k + 1) - pointer z blob blockSize k, ?_, ?_⟩
    · rw [if_pos hlast, blockPointers_getElem? (by omega)]
      rfl
    · rw [setWidth_sub, setWidth_pointer, setWidth_pointer, position_diff k hblockSize]
  · have hkn : k + 1 = n.toNat := by omega
    refine ⟨BitVec.ofNat 64 (position z blob blockSize (k + 1)) - pointer z blob blockSize k, ?_, ?_⟩
    · rw [if_neg hlast, if_pos (by omega), hkn]
      rfl
    · rw [setWidth_sub, setWidth_ofNat, setWidth_pointer, position_diff k hblockSize]

theorem and_storedFlag {x : ℕ} (h : x < 2 ^ 63) : BitVec.ofNat 64 x &&& storedFlag = 0 := by
  apply BitVec.eq_of_toNat_eq
  have hflag : storedFlag.toNat = 2 ^ 63 := rfl
  rw [BitVec.toNat_and, BitVec.toNat_ofNat, Nat.mod_eq_of_lt (by omega), hflag, WordMask.and_of_low_zeros
    (k := 63) (j := 1) (by norm_num) (by norm_num) (by omega)]
  have hdiv : x / 2 ^ 63 = 0 := Nat.div_eq_of_lt h
  rw [hdiv]
  rfl

theorem or_storedFlag {x : ℕ} (h : x < 2 ^ 63) :
    BitVec.ofNat 64 x ||| storedFlag = BitVec.ofNat 64 x + storedFlag := by
  have hadd := BitVec.add_eq_or_of_and_eq_zero (BitVec.ofNat 64 x) storedFlag (and_storedFlag h)
  exact hadd.symm

theorem or_and_storedFlag (x : BitVec 64) : (x ||| storedFlag) &&& storedFlag ≠ 0 := by
  intro hzero
  have hbit := congrArg (fun y => y.getLsbD 63) hzero
  simp [storedFlag] at hbit

theorem or_and_not_storedFlag {x : ℕ} (h : x < 2 ^ 63) :
    (BitVec.ofNat 64 x ||| storedFlag) &&& ~~~storedFlag = BitVec.ofNat 64 x := by
  have hand := and_storedFlag h
  have hself : storedFlag &&& ~~~storedFlag = 0#64 := rfl
  have hmask : BitVec.ofNat 64 x &&& ~~~storedFlag = BitVec.ofNat 64 x := calc
    BitVec.ofNat 64 x &&& ~~~storedFlag
        = (BitVec.ofNat 64 x &&& storedFlag) ||| (BitVec.ofNat 64 x &&& ~~~storedFlag) := by
          rw [hand]
          exact BitVec.zero_or.symm
    _ = BitVec.ofNat 64 x &&& (storedFlag ||| ~~~storedFlag) := BitVec.and_or_distrib_left.symm
    _ = BitVec.ofNat 64 x := BitVec.and_allOnes
  rw [BitVec.and_or_distrib_right, hself, BitVec.or_zero, hmask]

theorem signExtend_ofNat {x : ℕ} (h : x < 2 ^ 31) : (BitVec.ofNat 32 x).signExtend 64 = BitVec.ofNat 64 x := by
  have hnat : (BitVec.ofNat 32 x).toNat = x := by
    rw [BitVec.toNat_ofNat]
    omega
  have hmsb : (BitVec.ofNat 32 x).msb = false := by
    rw [BitVec.msb_eq_false_iff_two_mul_lt, hnat]
    omega
  rw [BitVec.signExtend_eq_setWidth_of_msb_false hmsb]
  apply BitVec.eq_of_toNat_eq
  rw [BitVec.toNat_setWidth, hnat, BitVec.toNat_ofNat]

theorem place_lt (hfit : headerSize + 12 * n.toNat < 2 ^ 31) (hk : k ≤ n.toNat) (hblockSize : blockSize < 2 ^ 31) :
    headerSize + 12 * n.toNat + position z blob blockSize k < 2 ^ 63 := by
  have hposition := @position_le z blob blockSize k
  have hmul : k * blockSize ≤ 2 ^ 28 * 2 ^ 31 := Nat.mul_le_mul (by omega) hblockSize.le
  omega

theorem offset_eq (hfit : headerSize + 12 * n.toNat < 2 ^ 31) (hk : k < n.toNat) (hblockSize : blockSize < 2 ^ 31) :
    pointer z blob blockSize k + (readerOf z blob subType blockSize n).dataOffset.signExtend 64 =
      if (storedBlock z blob blockSize k).1 then
        BitVec.ofNat 64 (headerSize + 12 * n.toNat + position z blob blockSize k)
      else BitVec.ofNat 64 (headerSize + 12 * n.toNat + position z blob blockSize k) ||| storedFlag := by
  have hplace := @place_lt z blob blockSize n k hfit hk.le hblockSize
  have hdata : (readerOf z blob subType blockSize n).dataOffset.signExtend 64 =
      BitVec.ofNat 64 (headerSize + 12 * n.toNat) := by
    rw [readerOf]
    dsimp only
    rw [signExtend_ofNat (by omega)]
    exact congrArg _ (by omega)
  rw [hdata, pointer]
  split_ifs
  · rw [← BitVec.ofNat_add, Nat.add_comm]
  · rw [or_storedFlag hplace, or_storedFlag (by omega), BitVec.add_assoc, BitVec.add_comm storedFlag,
      ← BitVec.add_assoc, ← BitVec.ofNat_add, Nat.add_comm]

/-- **A block is read as it was.** -/
theorem getBlock_eq (hfit : headerSize + 12 * n.toNat < 2 ^ 31) (hk : k < n.toNat)
    (hblockSize : blockSize < 2 ^ 31) :
    ∃ block, (readerOf z blob subType blockSize n).getBlock z k = some block ∧
      ∀ j < blockSize, block j =
        if k * blockSize + j < blob.size.toNat then blob.byte (k * blockSize + j) else 0 := by
  obtain ⟨size, hsize, hlength⟩ := @getBlockCompressedSize_eq z blob blockSize subType n k hk hblockSize
  have hplace := @place_lt z blob blockSize n k hfit hk.le hblockSize
  have hslice : slice (readerOf z blob subType blockSize n).file
      (headerSize + 12 * n.toNat + position z blob blockSize k) (storedBlock z blob blockSize k).2.length =
      (storedBlock z blob blockSize k).2 := by
    rw [slice, ← List.drop_drop, drop_file]
    exact slice_dataUpTo hk
  have hnat : (BitVec.ofNat 64 (headerSize + 12 * n.toNat + position z blob blockSize k)).toNat =
      headerSize + 12 * n.toNat + position z blob blockSize k := by
    rw [BitVec.toNat_ofNat]
    omega
  have hbytes : ∀ j < blockSize, (blockAt blob blockSize k).getD j 0 =
      if k * blockSize + j < blob.size.toNat then blob.byte (k * blockSize + j) else 0 := by
    intro j hj
    have hlt : j < (blockAt blob blockSize k).length := by rwa [length_blockAt]
    rw [List.getD_eq_getElem _ _ hlt]
    simp only [blockAt, List.getElem_map, List.getElem_range]
  have hheader : (readerOf z blob subType blockSize n).header.blockSize.toNat = blockSize := by
    change (BitVec.ofNat 32 blockSize).toNat = blockSize
    rw [BitVec.toNat_ofNat]
    omega
  refine ⟨fun j => (blockAt blob blockSize k).getD j 0, ?_, hbytes⟩
  rw [getBlock, hsize, blockPointers_getElem? hk]
  simp only [Option.bind_eq_bind, Option.bind_some]
  rw [offset_eq hfit hk hblockSize, hlength]
  cases hstored : (storedBlock z blob blockSize k).1 with
  | true =>
    rw [if_pos rfl, if_neg (not_not_intro (and_storedFlag hplace)), if_neg (not_not_intro (and_storedFlag hplace)),
      hnat, hslice, if_neg (not_not_intro rfl), hheader, inflate_storedBlock hstored, length_blockAt,
      if_neg (not_not_intro rfl)]
    rfl
  | false =>
    rw [if_neg Bool.false_ne_true, if_pos (or_and_storedFlag _), if_pos (or_and_storedFlag _),
      or_and_not_storedFlag hplace, hnat, hslice, if_neg (not_not_intro rfl), storedBlock_of_not hstored]
    rfl

end

variable {subType : BitVec 32}

/-! ## Conversions that can be undone -/

/-- The number of blocks of a disc. -/
def blocksOf (size : BitVec 64) (blockSize : ℕ) : ℕ := (size.toNat + (blockSize - 1)) / blockSize

theorem lt_blocksOf_iff {size : BitVec 64} (hpos : 0 < blockSize) {k : ℕ} :
    k < blocksOf size blockSize ↔ k * blockSize < size.toNat := by
  rw [blocksOf, Nat.lt_iff_add_one_le, Nat.le_div_iff_mul_le hpos, Nat.succ_mul]
  omega

/-- The tables, with the header, end before what an `int` can hold. -/
def TablesFit (size : BitVec 64) (blockSize : ℕ) : Prop := headerSize + 12 * blocksOf size blockSize < 2 ^ 31

/-- A file gives the bytes of the blob back: it knows how long the blocks are, each block is the one of the
blob with zeros behind its end, and so is each range that is read after others. -/
def Restores (z : Zlib) (blob : Blob) (blockSize : ℕ) (file : List Byte) : Prop :=
  ∃ r, create file = some r ∧
    (∀ k < blocksOf blob.size blockSize, ∃ size, r.getBlockCompressedSize k = some size ∧
      (size.setWidth 32).toNat = (storedBlock z blob blockSize k).2.length) ∧
    (∀ k < blocksOf blob.size blockSize, ∃ block, r.getBlock z k = some block ∧ ∀ j < blockSize,
      block j = if k * blockSize + j < blob.size.toNat then blob.byte (k * blockSize + j) else 0) ∧
    ∃ hpos, ∀ data calls, (∀ call ∈ calls, call.1 + call.2 ≤ blob.size.toNat) →
      ∃ lines, (r.sectorReader z hpos).runReads (SectorReader.initialLines data) calls = some lines ∧
        ∀ fuel offset size, offset + size ≤ blob.size.toNat → size < fuel →
          ∃ lines', (r.sectorReader z hpos).read fuel offset size lines =
            some (lines', some ((List.range size).map fun k => blob.byte (offset + k)))

theorem numBlocks_le (blob : Blob) (blockSize : ℕ) :
    (numBlocks blob blockSize).toNat ≤ blocksOf blob.size blockSize := by
  rw [numBlocks, BitVec.toNat_ofNat]
  exact (Nat.mod_le _ _).trans (Nat.div_le_div_right (Nat.mod_le _ _))

theorem numBlocks_eq (hfit : TablesFit blob.size blockSize) (hpos : 0 < blockSize) (hint : blockSize < 2 ^ 31) :
    (numBlocks blob blockSize).toNat = blocksOf blob.size blockSize := by
  have hlt : blocksOf blob.size blockSize < 2 ^ 28 := by
    rw [TablesFit] at hfit
    omega
  have hsize : blob.size.toNat ≤ blocksOf blob.size blockSize * blockSize := by
    rw [← not_lt, ← lt_blocksOf_iff hpos]
    exact lt_irrefl _
  have hmul : blocksOf blob.size blockSize * blockSize ≤ 2 ^ 28 * 2 ^ 31 := Nat.mul_le_mul hlt.le hint.le
  have hu64 : u64 (blob.size.toNat + (blockSize - 1)) = blob.size.toNat + (blockSize - 1) :=
    Nat.mod_eq_of_lt (by omega)
  rw [numBlocks, hu64, BitVec.toNat_ofNat]
  exact Nat.mod_eq_of_lt (hlt.trans (by norm_num))

/-- **The file that a conversion writes** is the one of all its blocks. -/
theorem convertToGCZ_eq (hpos : 0 < blockSize) {succeeds : ℕ → Bool} {file : List Byte}
    (h : convertToGCZ z blob subType blockSize succeeds = some file) :
    file = (readerOf z blob subType blockSize (numBlocks blob blockSize)).file := by
  obtain ⟨w, hw, hfile⟩ := Option.map_eq_some_iff.mp h
  have hblocks : ∀ k < 0 + (numBlocks blob blockSize).toNat, k * blockSize < blob.size.toNat := by
    intro k hk
    rw [Nat.zero_add] at hk
    exact (lt_blocksOf_iff hpos).mp (hk.trans_le (numBlocks_le blob blockSize))
  have hspec := @convertFrom_spec z blob blockSize succeeds (numBlocks blob blockSize).toNat 0 w hblocks (by
    rw [Nat.zero_mul]
    exact hw)
  rw [Nat.zero_add] at hspec
  rw [← hfile, hspec]
  rfl

theorem blockSize_readerOf (hint : blockSize < 2 ^ 31) (n : BitVec 32) :
    (readerOf z blob subType blockSize n).header.blockSize.toNat = blockSize := by
  change (BitVec.ofNat 32 blockSize).toNat = blockSize
  rw [BitVec.toNat_ofNat]
  omega

theorem byteAt_readerOf (hfit : TablesFit blob.size blockSize) (hpos : 0 < blockSize) (hint : blockSize < 2 ^ 31)
    (hblockSize : 0 < (readerOf z blob subType blockSize (numBlocks blob blockSize)).header.blockSize.toNat)
    {position : ℕ} (h : position < blob.size.toNat) :
    ((readerOf z blob subType blockSize (numBlocks blob blockSize)).sectorReader z hblockSize).byteAt position =
      some (blob.byte position) := by
  have hheader := @blockSize_readerOf z blob blockSize subType hint (numBlocks blob blockSize)
  have hsize : ((readerOf z blob subType blockSize (numBlocks blob blockSize)).sectorReader z hblockSize).blockSize =
      blockSize := hheader
  have hnum := @numBlocks_eq blob blockSize hfit hpos hint
  have hsplit := Nat.div_add_mod' position blockSize
  have hk : position / blockSize < (numBlocks blob blockSize).toNat := by
    rw [hnum, lt_blocksOf_iff hpos]
    omega
  rw [TablesFit, ← hnum] at hfit
  obtain ⟨block, hblock, hbytes⟩ := @getBlock_eq z blob blockSize subType (numBlocks blob blockSize)
    (position / blockSize) hfit hk hint
  have hbyte := hbytes _ (Nat.mod_lt position hpos)
  rw [hsplit, if_pos h] at hbyte
  rw [SectorReader.byteAt, hsize]
  change ((readerOf z blob subType blockSize (numBlocks blob blockSize)).getBlock z (position / blockSize)).map _ = _
  rw [hblock, Option.map_some, hbyte]

/-- **A conversion whose tables fit is lossless.** -/
theorem restores_of_tablesFit (hfit : TablesFit blob.size blockSize) (hpos : 0 < blockSize)
    (hint : blockSize < 2 ^ 31) {succeeds : ℕ → Bool} {file : List Byte}
    (h : convertToGCZ z blob subType blockSize succeeds = some file) : Restores z blob blockSize file := by
  have hnum := @numBlocks_eq blob blockSize hfit hpos hint
  have hfit' : headerSize + 12 * (numBlocks blob blockSize).toNat < 2 ^ 31 := by rwa [hnum]
  have hheader := @blockSize_readerOf z blob blockSize subType hint (numBlocks blob blockSize)
  have hblockSize : 0 < (readerOf z blob subType blockSize (numBlocks blob blockSize)).header.blockSize.toNat := by
    rwa [hheader]
  refine ⟨readerOf z blob subType blockSize (numBlocks blob blockSize), ?_, ?_, ?_, hblockSize, ?_⟩
  · rw [convertToGCZ_eq hpos h, create_fileBytes]
  · intro k hk
    exact getBlockCompressedSize_eq (by rwa [hnum]) hint
  · intro k hk
    exact getBlock_eq hfit' (by rwa [hnum]) hint
  · intro data calls hcalls
    obtain ⟨r, hr⟩ : ∃ r, r = (readerOf z blob subType blockSize (numBlocks blob blockSize)).sectorReader z
      hblockSize := ⟨_, rfl⟩
    have hdata : r.dataSize = blob.size.toNat := by rw [hr]; rfl
    rw [← hr, ← hdata]
    rw [← hdata] at hcalls
    have hbyte : ∀ position < r.dataSize, r.byteAt position = some (blob.byte position) := by
      intro position hposition
      rw [hdata] at hposition
      rw [hr]
      exact byteAt_readerOf hfit hpos hint hblockSize hposition
    obtain ⟨lines, hlines, hserves⟩ := r.runReads_serves data calls hcalls
    refine ⟨lines, hlines, fun fuel offset size hrange hfuel => ?_⟩
    obtain ⟨⟨lines', result⟩, hread, houtcome⟩ := SectorReader.read_spec hserves hrange hfuel
    refine ⟨lines', ?_⟩
    rw [hread]
    cases result with
    | some bytes =>
      have hbytes : bytes.map some = ((List.range size).map fun k => blob.byte (offset + k)).map some := by
        rw [houtcome.2, List.map_map]
        refine List.map_congr_left fun k hk => ?_
        rw [List.mem_range] at hk
        exact hbyte (offset + k) (by omega)
      rw [List.map_injective_iff.mpr (Option.some_injective _) hbytes]
    | none =>
      -- all blocks before the end of the data can be read
      obtain ⟨-, position, hle, hlt, hchunk⟩ := houtcome
      refine absurd (fun b _ hb => ?_) hchunk
      have hsome := hbyte (b * r.blockSize) hb
      rw [SectorReader.byteAt, Nat.mul_div_cancel _ r.blockSize_pos] at hsome
      obtain ⟨block, hblock, -⟩ := Option.map_eq_some_iff.mp hsome
      rw [hblock]
      rfl

/-! ## Tables that do not fit -/

theorem getBlock_zero {n : BitVec 32} (hn : 0 < n.toNat) (hint : blockSize < 2 ^ 31)
    (hstored : (storedBlock z blob blockSize 0).1 = false) :
    (readerOf z blob subType blockSize n).getBlock z 0 =
      (let offset := storedFlag + (BitVec.ofNat 32 (headerSize + 12 * n.toNat)).signExtend 64
      let offset' := if offset &&& storedFlag ≠ 0 then offset &&& ~~~storedFlag else offset
      let bytes := slice (readerOf z blob subType blockSize n).file offset'.toNat blockSize
      if bytes.length ≠ blockSize then none
      else if offset &&& storedFlag ≠ 0 then some fun k => bytes.getD k 0
      else
        let out := z.inflate bytes blockSize
        if out.length ≠ blockSize then none else some fun k => out.getD k 0) := by
  obtain ⟨size, hsize, hlength⟩ := @getBlockCompressedSize_eq z blob blockSize subType n 0 hn hint
  have hpointer : pointer z blob blockSize 0 = storedFlag := by
    rw [pointer, hstored, if_neg Bool.false_ne_true]
    exact BitVec.zero_or
  have hdata : (readerOf z blob subType blockSize n).dataOffset = BitVec.ofNat 32 (headerSize + 12 * n.toNat) := by
    have hsum : headerSize + 8 * n.toNat + 4 * n.toNat = headerSize + 12 * n.toNat := by omega
    rw [← hsum]
    rfl
  rw [storedBlock_of_not hstored, length_blockAt] at hlength
  rw [getBlock, hsize, blockPointers_getElem? hn, hdata, blockSize_readerOf hint]
  simp only [Option.bind_eq_bind, Option.bind_some, hlength, hpointer]
  rfl

/-- A sum whose `int` is negative loses the flag, and is a place far behind the end. -/
theorem flag_add_negative {d : BitVec 32} (h : d.msb = true) :
    (storedFlag + d.signExtend 64) &&& storedFlag = 0 ∧
      2 ^ 63 - 2 ^ 31 ≤ (storedFlag + d.signExtend 64).toNat := by
  have hd := d.isLt
  have hmsb : 2 ^ 31 ≤ d.toNat := by
    rw [BitVec.msb_eq_true_iff_two_mul_ge] at h
    omega
  have hflag : storedFlag.toNat = 2 ^ 63 := rfl
  have hsign : (d.signExtend 64).toNat = 2 ^ 64 - 2 ^ 32 + d.toNat := by
    rw [BitVec.toNat_signExtend, h, BitVec.toNat_setWidth, if_pos rfl]
    omega
  have hsum : (storedFlag + d.signExtend 64).toNat = 2 ^ 63 - 2 ^ 32 + d.toNat := by
    rw [BitVec.toNat_add, hflag, hsign]
    omega
  refine ⟨?_, by omega⟩
  have hofNat : storedFlag + d.signExtend 64 = BitVec.ofNat 64 (2 ^ 63 - 2 ^ 32 + d.toNat) := by
    apply BitVec.eq_of_toNat_eq
    rw [hsum, BitVec.toNat_ofNat]
    omega
  rw [hofNat]
  exact and_storedFlag (by omega)

theorem flag_add_wrapped {x : ℕ} (hwrap : x % 2 ^ 32 < 2 ^ 31) :
    (storedFlag + (BitVec.ofNat 32 x).signExtend 64) &&& storedFlag ≠ 0 ∧
      ((storedFlag + (BitVec.ofNat 32 x).signExtend 64) &&& ~~~storedFlag).toNat = x % 2 ^ 32 := by
  have hofNat : BitVec.ofNat 32 x = BitVec.ofNat 32 (x % 2 ^ 32) := by
    apply BitVec.eq_of_toNat_eq
    rw [BitVec.toNat_ofNat, BitVec.toNat_ofNat, Nat.mod_mod]
  rw [hofNat, signExtend_ofNat hwrap, BitVec.add_comm, ← or_storedFlag (by omega)]
  refine ⟨or_and_storedFlag _, ?_⟩
  rw [or_and_not_storedFlag (by omega), BitVec.toNat_ofNat]
  omega

/-- **A first block that is stored is not found** where an `int` is negative, unless the file is as long as that. -/
theorem getBlock_zero_eq_none {n : BitVec 32} (hn : 0 < n.toNat) (hpos : 0 < blockSize) (hint : blockSize < 2 ^ 31)
    (hstored : (storedBlock z blob blockSize 0).1 = false)
    (hneg : 2 ^ 31 ≤ (headerSize + 12 * n.toNat) % 2 ^ 32)
    (hunread : (readerOf z blob subType blockSize n).file.length ≤ 2 ^ 63 - 2 ^ 31 ∨
      ∀ bytes, z.inflate bytes blockSize = []) :
    (readerOf z blob subType blockSize n).getBlock z 0 = none := by
  have hmsb : (BitVec.ofNat 32 (headerSize + 12 * n.toNat)).msb = true := by
    rw [BitVec.msb_eq_true_iff_two_mul_ge, BitVec.toNat_ofNat]
    omega
  obtain ⟨hflag, hfar⟩ := flag_add_negative hmsb
  rw [getBlock_zero hn hint hstored]
  dsimp only
  rw [hflag, if_neg (not_not_intro rfl), if_neg (not_not_intro rfl)]
  split_ifs with hlength hout
  · rfl
  · rfl
  · obtain hshort | hinflate := hunread
    · rw [slice, List.length_take, List.length_drop] at hlength
      omega
    · rw [hinflate, List.length_nil] at hout
      omega

/-! ## Blocks that are only stored -/

/-- Blocks that cannot be compressed. -/
def storeOnly : Zlib where
  deflate _ _ := (false, [])
  inflate _ _ := []
  hashAdler32 _ := 0
  length_deflate_le _ availOut := Nat.zero_le availOut
  inflate_deflate _ _ h := absurd h Bool.false_ne_true

def constantBlob (size : BitVec 64) (x : Byte) : Blob where
  size
  byte _ := x
  read _ n := some ((List.range n).map fun _ => x)
  read_eq _ _ _ h := (Option.some_inj.mp h).symm

theorem position_storeOnly (blob : Blob) (blockSize k : ℕ) :
    position storeOnly blob blockSize k = k * blockSize := by
  induction k with
  | zero => exact (Nat.zero_mul blockSize).symm
  | succ k ih =>
    have hblock : (storedBlock storeOnly blob blockSize k).2 = blockAt blob blockSize k := rfl
    rw [position, ih, hblock, length_blockAt, Nat.succ_mul]

theorem take_file_storeOnly (size : BitVec 64) (x y : Byte) (subType : BitVec 32) (blockSize : ℕ) (n : BitVec 32) :
    (readerOf storeOnly (constantBlob size x) subType blockSize n).file.take (headerSize + 12 * n.toNat) =
      (readerOf storeOnly (constantBlob size y) subType blockSize n).file.take (headerSize + 12 * n.toNat) := by
  have hpointer : ∀ k, pointer storeOnly (constantBlob size x) blockSize k =
      pointer storeOnly (constantBlob size y) blockSize k := by
    intro k
    rw [pointer, pointer, position_storeOnly, position_storeOnly]
    rfl
  have htake : ∀ v, (readerOf storeOnly (constantBlob size v) subType blockSize n).file.take
      (headerSize + 12 * n.toNat) = (readerOf storeOnly (constantBlob size v) subType blockSize n).header.bytes ++
        ((written storeOnly (constantBlob size v) blockSize n.toNat).offsets.flatMap fun offset =>
          toBytes 8 offset.toNat) ++
        ((written storeOnly (constantBlob size v) blockSize n.toNat).hashes.flatMap fun hash =>
          toBytes 4 hash.toNat) := by
    intro v
    refine List.take_left' ?_
    rw [List.length_append, List.length_append, length_flatMap_toBytes, length_flatMap_toBytes, written,
      List.length_map, List.length_range, List.length_map, List.length_range]
    change 32 + _ + _ = 32 + _
    omega
  rw [htake, htake, readerOf, readerOf, written, written, position_storeOnly, position_storeOnly,
    List.map_congr_left fun k _ => hpointer k]
  rfl

theorem file_storeOnly_getElem? (size : BitVec 64) (x y : Byte) {n : BitVec 32} {place : ℕ}
    (h : place < headerSize + 12 * n.toNat) :
    (readerOf storeOnly (constantBlob size x) subType blockSize n).file[place]? =
      (readerOf storeOnly (constantBlob size y) subType blockSize n).file[place]? := by
  rw [← List.getElem?_take_of_lt h, take_file_storeOnly size x y, List.getElem?_take_of_lt h]

/-- Where the place of the data wraps, the first block begins with a byte of the tables. -/
theorem getBlock_storeOnly_wrapped {n : BitVec 32} (hn : 0 < n.toNat) (hpos : 0 < blockSize)
    (hint : blockSize < 2 ^ 31) (hwrap : (headerSize + 12 * n.toNat) % 2 ^ 32 < 2 ^ 31) {block : ℕ → Byte}
    (h : (readerOf storeOnly blob subType blockSize n).getBlock storeOnly 0 = some block) :
    (readerOf storeOnly blob subType blockSize n).file[(headerSize + 12 * n.toNat) % 2 ^ 32]? =
      some (block 0) := by
  obtain ⟨hflag, hoffset⟩ := flag_add_wrapped hwrap
  have hstored : (storedBlock storeOnly blob blockSize 0).1 = false := rfl
  rw [getBlock_zero hn hint hstored] at h
  dsimp only at h
  rw [if_pos hflag, if_pos hflag, hoffset] at h
  split_ifs at h with hlength
  rw [not_not] at hlength
  cases h
  obtain ⟨bytes, hbytes⟩ : ∃ bytes, bytes = slice (readerOf storeOnly blob subType blockSize n).file
    ((headerSize + 12 * n.toNat) % 2 ^ 32) blockSize := ⟨_, rfl⟩
  rw [← hbytes] at hlength ⊢
  dsimp only
  rw [List.getD_eq_getElem bytes 0 (by omega), ← List.getElem?_eq_getElem, hbytes, slice,
    List.getElem?_take_of_lt hpos, List.getElem?_drop, Nat.add_zero]

theorem exists_file (hread : ∀ offset n, (blob.read offset n).isSome) (z : Zlib) (subType : BitVec 32)
    (blockSize : ℕ) : ∃ file, convertToGCZ z blob subType blockSize (fun _ => true) = some file := by
  rw [← Option.isSome_iff_exists, convertToGCZ, Option.isSome_map]
  exact convertFrom_isSome hread (fun _ => rfl) _

theorem reader_eq (hpos : 0 < blockSize) {succeeds : ℕ → Bool} {file : List Byte} {r : CompressedBlobReader}
    (h : convertToGCZ z blob subType blockSize succeeds = some file) (hr : create file = some r) :
    r = readerOf z blob subType blockSize (numBlocks blob blockSize) := by
  rw [convertToGCZ_eq hpos h, create_fileBytes] at hr
  exact (Option.some_inj.mp hr).symm

/-- **Where the tables do not fit**, some conversion cannot be undone. -/
theorem not_restores (hpos : 0 < blockSize) (hint : blockSize < 2 ^ 31) {size : BitVec 64}
    (hfit : ¬TablesFit size blockSize) : ∃ x file,
      convertToGCZ storeOnly (constantBlob size x) 0 blockSize (fun _ => true) = some file ∧
        ¬Restores storeOnly (constantBlob size x) blockSize file := by
  obtain ⟨n, hn⟩ : ∃ n, ∀ x, numBlocks (constantBlob size x) blockSize = n :=
    ⟨numBlocks (constantBlob size 0) blockSize, fun _ => rfl⟩
  have hblocks : 0 < blocksOf size blockSize := by
    rw [TablesFit, headerSize] at hfit
    omega
  have hle : n.toNat ≤ blocksOf size blockSize := hn 0 ▸ numBlocks_le (constantBlob size 0) blockSize
  -- a byte that differs from the one of the tables where the first block may be looked for
  obtain ⟨b, hb⟩ : ∃ b, some b ≠ (readerOf storeOnly (constantBlob size 0) 0 blockSize n).file[
      (headerSize + 12 * n.toNat) % 2 ^ 32]? := by
    cases (readerOf storeOnly (constantBlob size 0) 0 blockSize n).file[
      (headerSize + 12 * n.toNat) % 2 ^ 32]? with
    | none => exact ⟨0, Option.some_ne_none 0⟩
    | some b =>
      refine ⟨b + 1, fun heq => ?_⟩
      have hne : b + 1 ≠ b := by
        revert b
        decide
      exact hne (Option.some_inj.mp heq)
  obtain ⟨file, hfile⟩ := @exists_file (constantBlob size b) (fun _ _ => rfl) storeOnly 0 blockSize
  refine ⟨b, file, hfile, ?_⟩
  rintro ⟨r, hr, hsizes, hrestored, -⟩
  rw [reader_eq hpos hfile hr, hn] at hsizes hrestored
  by_cases hnum : n.toNat = blocksOf size blockSize
  · have hn0 : 0 < n.toNat := hnum ▸ hblocks
    obtain ⟨block, hblock, hbytes⟩ := hrestored 0 hblocks
    by_cases hneg : 2 ^ 31 ≤ (headerSize + 12 * n.toNat) % 2 ^ 32
    · have hstored : (storedBlock storeOnly (constantBlob size b) blockSize 0).1 = false := rfl
      rw [getBlock_zero_eq_none hn0 hpos hint hstored hneg (Or.inr fun _ => rfl)] at hblock
      cases hblock
    · have hlt : (headerSize + 12 * n.toNat) % 2 ^ 32 < headerSize + 12 * n.toNat := by
        rw [TablesFit, ← hnum] at hfit
        omega
      have hfirst : 0 * blockSize + 0 < size.toNat := by
        rw [Nat.add_zero]
        exact (lt_blocksOf_iff hpos).mp hblocks
      have hbyte : block 0 = b := (hbytes 0 hpos).trans (if_pos hfirst)
      have hget := getBlock_storeOnly_wrapped hn0 hpos hint (by omega) hblock
      rw [file_storeOnly_getElem? size b 0 hlt, hbyte] at hget
      exact hb hget.symm
  · -- the last block has no pointer
    have hlast : blocksOf size blockSize - 1 < blocksOf size blockSize := by omega
    obtain ⟨_, hsome, -⟩ := hsizes (blocksOf size blockSize - 1) hlast
    have hnone : (readerOf storeOnly (constantBlob size b) 0 blockSize n).blockPointers[
        blocksOf size blockSize - 1]? = none := by
      rw [readerOf, written, List.getElem?_eq_none]
      rw [List.length_map, List.length_range]
      omega
    rw [getBlockCompressedSize, hnone] at hsome
    cases hsome

/-- **A conversion can be undone exactly where its tables fit**: for every such size of the disc and of the
blocks, whatever can be compressed. -/
theorem conversion_lossless_iff (size : BitVec 64) {blockSize : ℕ} (hpos : 0 < blockSize)
    (hint : blockSize < 2 ^ 31) :
    (∀ (z : Zlib) (blob : Blob) (subType : BitVec 32) (succeeds : ℕ → Bool) (file : List Byte), blob.size = size →
      convertToGCZ z blob subType blockSize succeeds = some file → Restores z blob blockSize file) ↔
      TablesFit size blockSize := by
  constructor
  · intro h
    by_contra hfit
    obtain ⟨x, file, hfile, hnot⟩ := not_restores hpos hint hfit
    exact hnot (h storeOnly (constantBlob size x) 0 (fun _ => true) file rfl hfile)
  · rintro hfit z blob subType succeeds file rfl h
    exact restores_of_tablesFit hfit hpos hint h

/-- Blocks of two bytes. -/
theorem conversion_lossless_iff_two :
    (0 < 2 ∧ 2 < 2 ^ 31) ∧
      ((∀ (z : Zlib) (blob : Blob) (subType : BitVec 32) (succeeds : ℕ → Bool) (file : List Byte),
        blob.size = 5#64 → convertToGCZ z blob subType 2 succeeds = some file → Restores z blob 2 file) ↔
        TablesFit 5#64 2) :=
  ⟨⟨by decide, by decide⟩, conversion_lossless_iff 5#64 (by decide) (by decide)⟩

/-- The size of a GameCube disc. -/
def gameCubeSize : BitVec 64 := 1459978240#64

/-- A GameCube disc in blocks of 8 bytes: its conversion succeeds, and nothing can be read. -/
theorem constantDisc_not_restored (z : Zlib) (x : Byte) (subType : BitVec 32) :
    ∃ file, convertToGCZ z (constantBlob gameCubeSize x) subType 8 (fun _ => true) = some file ∧
      (∀ r, create file = some r → r.getBlock z 0 = none) ∧ ¬Restores z (constantBlob gameCubeSize x) 8 file := by
  obtain ⟨file, hfile⟩ := @exists_file (constantBlob gameCubeSize x) (fun _ _ => rfl) z subType 8
  have hn : (numBlocks (constantBlob gameCubeSize x) 8).toNat = 182497280 := by
    have hsize : (constantBlob gameCubeSize x).size.toNat = 1459978240 := rfl
    rw [numBlocks, hsize, u64, BitVec.toNat_ofNat]
    norm_num
  -- no block of 8 bytes leaves 10 bytes of its buffer
  have hstored : (storedBlock z (constantBlob gameCubeSize x) 8 0).1 = false := by
    rw [storedBlock, compress]
    dsimp only
    rw [if_pos]
    rw [Bool.or_eq_true]
    exact Or.inr (decide_eq_true (by omega))
  have hnone : ∀ r, create file = some r → r.getBlock z 0 = none := by
    intro r hr
    rw [reader_eq (by norm_num) hfile hr]
    refine getBlock_zero_eq_none (by omega) (by norm_num) (by norm_num) hstored ?_ (Or.inl ?_)
    · rw [hn, headerSize]
      norm_num
    · have hposition := @position_le z (constantBlob gameCubeSize x) 8 182497280
      rw [length_file, hn, headerSize]
      omega
  refine ⟨file, hfile, hnone, ?_⟩
  rintro ⟨r, hr, -, hrestored, -⟩
  have hblocks : 0 < blocksOf (constantBlob gameCubeSize x).size 8 := by
    change 0 < blocksOf gameCubeSize 8
    decide
  obtain ⟨block, hblock, -⟩ := hrestored 0 hblocks
  rw [hnone r hr] at hblock
  cases hblock

theorem gameCube_not_restored :
    ∃ file, convertToGCZ storeOnly (constantBlob gameCubeSize 0) 0 8 (fun _ => true) = some file ∧
      (∀ r, create file = some r → r.getBlock storeOnly 0 = none) ∧
      ¬Restores storeOnly (constantBlob gameCubeSize 0) 8 file :=
  constantDisc_not_restored storeOnly 0 0

end CompressedBlobReader
