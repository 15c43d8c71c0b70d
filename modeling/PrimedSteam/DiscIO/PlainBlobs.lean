import Mathlib.Data.List.GetD
import Mathlib.Data.Nat.Digits.Defs
import PrimedSteam.Common.DirectIOFile
import PrimedSteam.DiscIO.DiscScrubber

/-!
# Blobs without compression

A blob stands for the image of a disc, of which any part can be read. `CISOFileReader` leaves blocks out,
`SplitPlainFileReader` has the image in several files, and `ScrubbedBlob` reads unused clusters of another
blob as zeros.

* `Image`: the bytes of a disc and which of them can be read. `Serves`: a reader gives just these.
* `readPieces`: a part is read in pieces, none of which goes beyond a block.
* **`readPieces_spec`**: if each piece is right, any part is.
* **`CISOFileReader.create_serves`**, **`SplitPlainFileReader.split_serves`**,
  **`ScrubbedBlob.scrubbed_serves`**: what the readers give.
-/

set_option autoImplicit false

namespace PlainBlobs

open File

/-- The bytes of a disc, and which of them can be read. -/
structure Image where
  byte : ℕ → Byte
  readable : ℕ → Bool

namespace Image

variable (m : Image)

def bytes (offset n : ℕ) : List Byte := (List.range n).map fun i => m.byte (offset + i)

/-- All bytes of a part, if these can be read. -/
def part (offset n : ℕ) : Option (List Byte) :=
  if ∀ i < n, m.readable (offset + i) = true then some (m.bytes offset n) else none

theorem bytes_add (offset a b : ℕ) : m.bytes offset (a + b) = m.bytes offset a ++ m.bytes (offset + a) b := by
  rw [bytes, List.range_add, List.map_append, List.map_map, bytes, bytes]
  refine congrArg _ (List.map_congr_left fun i _ => ?_)
  rw [Function.comp_apply, add_assoc]

theorem part_zero (offset : ℕ) : m.part offset 0 = some [] := if_pos fun i hi => absurd hi (Nat.not_lt_zero i)

/-- **A part is two parts**, one after the other. -/
theorem part_add (offset a b : ℕ) : m.part offset (a + b) =
    (m.part offset a).bind fun first => (m.part (offset + a) b).map (first ++ ·) := by
  have hall : (∀ i < a + b, m.readable (offset + i) = true) ↔
      (∀ i < a, m.readable (offset + i) = true) ∧ ∀ i < b, m.readable (offset + a + i) = true := by
    constructor
    · intro h
      refine ⟨fun i hi => h i (by omega), fun i hi => ?_⟩
      rw [add_assoc]
      exact h (a + i) (by omega)
    · rintro ⟨hfirst, hsecond⟩ i hi
      rcases Nat.lt_or_ge i a with hlt | hge
      · exact hfirst i hlt
      · have hat := hsecond (i - a) (by omega)
        rwa [show offset + a + (i - a) = offset + i by omega] at hat
  rw [part, part, part]
  by_cases hfirst : ∀ i < a, m.readable (offset + i) = true
  · by_cases hsecond : ∀ i < b, m.readable (offset + a + i) = true
    · rw [if_pos hfirst, if_pos hsecond, if_pos (hall.mpr ⟨hfirst, hsecond⟩), bytes_add]
      rfl
    · rw [if_pos hfirst, if_neg hsecond, if_neg fun h => hsecond (hall.mp h).2]
      rfl
  · rw [if_neg hfirst, if_neg fun h => hfirst (hall.mp h).1]
    rfl

end Image

/-- A reader, which gets an offset and a size. -/
abbrev Reader := ℕ → ℕ → Option (List Byte)

/-- **A reader gives the parts of an image** that can be read, and fails on the others. -/
def Serves (read : Reader) (m : Image) : Prop :=
  ∀ offset n, 0 < n → offset + n < 2 ^ 63 → read offset n = m.part offset n

/-! ## Pieces -/

/-- A part is read up to the end of its block, and then the rest. -/
def readPieces (toEnd : ℕ → ℕ) (piece : Reader) : ℕ → Reader
  | 0, _, _ => some []
  | fuel + 1, offset, n =>
    if n = 0 then some []
    else (piece offset (min (toEnd offset) n)).bind fun bytes =>
      (readPieces toEnd piece fuel (offset + min (toEnd offset) n) (n - min (toEnd offset) n)).map (bytes ++ ·)

/-- **If each piece is right** up to a limit, any part is. -/
theorem readPieces_spec (limit : ℕ) {toEnd : ℕ → ℕ} {piece : Reader} {m : Image} (hend : ∀ offset, 0 < toEnd offset)
    (hpiece : ∀ offset k, 0 < k → k ≤ toEnd offset → offset + k ≤ limit → piece offset k = m.part offset k)
    {fuel offset n : ℕ} (hfuel : n ≤ fuel) (hlimit : offset + n ≤ limit) :
    readPieces toEnd piece fuel offset n = m.part offset n := by
  induction fuel generalizing offset n with
  | zero =>
    obtain rfl : n = 0 := by omega
    exact (m.part_zero offset).symm
  | succ fuel ih =>
    rw [readPieces]
    by_cases hzero : n = 0
    · rw [if_pos hzero, hzero, m.part_zero]
    · have hpos := hend offset
      have hk : 0 < min (toEnd offset) n := lt_min hpos (Nat.pos_of_ne_zero hzero)
      have hle : min (toEnd offset) n ≤ n := min_le_right _ _
      rw [if_neg hzero, hpiece offset _ hk (min_le_left _ _) (by omega), ih (by omega) (by omega)]
      conv_rhs => rw [show n = min (toEnd offset) n + (n - min (toEnd offset) n) by omega, m.part_add]

theorem div_mod_of_block {size offset i : ℕ} (h : offset % size + i < size) :
    (offset + i) / size = offset / size ∧ (offset + i) % size = offset % size + i := by
  have hpos : 0 < size := by omega
  have hsum : offset + i = offset % size + i + size * (offset / size) := by
    have hdivision := Nat.div_add_mod offset size
    omega
  constructor
  · rw [hsum, Nat.add_mul_div_left _ _ hpos, Nat.div_eq_of_lt h, Nat.zero_add]
  · rw [hsum, Nat.add_mul_mod_self_left, Nat.mod_eq_of_lt h]

/-! ## Files -/

/-- A read of a file. -/
def offsetRead? (file : DirectIOFile) (offset n : ℕ) : Option (List Byte) :=
  if (file.offsetRead offset n).length = n then some (file.offsetRead offset n) else none

theorem offsetRead_eq_map {file : DirectIOFile} {offset n : ℕ} (h : offset + n ≤ file.getSize) :
    file.offsetRead offset n = (List.range n).map fun i => file.content.getD (offset + i) 0 := by
  have hlength := DirectIOFile.length_offsetRead h
  refine List.ext_getElem (by rw [hlength, List.length_map, List.length_range]) fun i hi hi' => ?_
  rw [hlength] at hi
  unfold DirectIOFile.getSize at h
  rw [List.getElem_map, List.getElem_range, List.getD_eq_getElem _ _ (by omega)]
  simp only [DirectIOFile.offsetRead, List.getElem_take, List.getElem_drop]

theorem offsetRead?_eq {file : DirectIOFile} {offset n : ℕ} (hn : 0 < n) : offsetRead? file offset n =
    if offset + n ≤ file.getSize then some ((List.range n).map fun i =>
      file.content.getD (offset + i) 0) else none := by
  rw [offsetRead?]
  by_cases hle : offset + n ≤ file.getSize
  · rw [if_pos (DirectIOFile.length_offsetRead hle), if_pos hle, offsetRead_eq_map hle]
  · have hshort : (file.offsetRead offset n).length ≠ n := by
      rw [DirectIOFile.offsetRead, List.length_take, List.length_drop]
      unfold DirectIOFile.getSize at hle
      omega
    rw [if_neg hshort, if_neg hle]

/-! ## Blocks that are left out -/

/-- `CISO_HEADER_SIZE` -/
def cisoHeaderSize : ℕ := 0x8000

/-- `CISO_MAP_SIZE` -/
def cisoMapSize : ℕ := cisoHeaderSize - 4 - 4

/-- `m_ciso_map`, where `none` is an unused block. -/
structure CISOFileReader where
  file : DirectIOFile
  blockSize : ℕ
  cisoMap : List (Option ℕ)

namespace CISOFileReader

/-- The used blocks are numbered. -/
def numberBlocks : ℕ → List Byte → List (Option ℕ)
  | _, [] => []
  | count, b :: bs => if b = 1 then some count :: numberBlocks (count + 1) bs else none :: numberBlocks count bs

/-- `Create` -/
def create (file : DirectIOFile) : Option CISOFileReader := do
  let header ← offsetRead? file 0 cisoHeaderSize
  if header.take 4 = [0x43, 0x49, 0x53, 0x4F] then
    return ⟨file, Nat.ofDigits 256 (((header.drop 4).take 4).map BitVec.toNat), numberBlocks 0 (header.drop 8)⟩
  else none

variable (r : CISOFileReader)

def getDataSize : ℕ := cisoMapSize * r.blockSize

/-- Where a used block is in the file. -/
def fileOffset (index offset : ℕ) : ℕ := cisoHeaderSize + index * r.blockSize + offset % r.blockSize

/-- A part inside a block. -/
def readBlock (offset n : ℕ) : Option (List Byte) :=
  (r.cisoMap.getD (offset / r.blockSize) none).elim (some (List.replicate n 0)) fun index =>
    offsetRead? r.file (r.fileOffset index offset) n

/-- `Read` -/
def read : Reader := fun offset n =>
  if r.getDataSize < (offset + n) % 2 ^ 64 then none
  else readPieces (fun offset => r.blockSize - offset % r.blockSize) r.readBlock n offset n

/-- The disc, whose unused blocks are zeros. -/
def image : Image where
  byte offset := (r.cisoMap.getD (offset / r.blockSize) none).elim 0 fun index =>
    r.file.content.getD (r.fileOffset index offset) 0
  readable offset := decide (offset < r.getDataSize) &&
    (r.cisoMap.getD (offset / r.blockSize) none).elim true fun index =>
      decide (r.fileOffset index offset < r.file.getSize)

theorem image_byte (offset : ℕ) : r.image.byte offset =
    (r.cisoMap.getD (offset / r.blockSize) none).elim 0 fun index =>
      r.file.content.getD (r.fileOffset index offset) 0 := rfl

theorem image_readable (offset : ℕ) : r.image.readable offset = (decide (offset < r.getDataSize) &&
    (r.cisoMap.getD (offset / r.blockSize) none).elim true fun index =>
      decide (r.fileOffset index offset < r.file.getSize)) := rfl

variable {r}

theorem readBlock_spec (hsize : 0 < r.blockSize) {offset k : ℕ} (hk : 0 < k)
    (hend : k ≤ r.blockSize - offset % r.blockSize) (hdata : offset + k ≤ r.getDataSize) :
    r.readBlock offset k = r.image.part offset k := by
  have hmod := Nat.mod_lt offset hsize
  have hblock : ∀ i < k, (offset + i) / r.blockSize = offset / r.blockSize := fun i hi =>
    (div_mod_of_block (by omega)).1
  have hplace : ∀ i < k, (offset + i) % r.blockSize = offset % r.blockSize + i := fun i hi =>
    (div_mod_of_block (by omega)).2
  have hinside : ∀ i < k, decide (offset + i < r.getDataSize) = true := fun i hi => decide_eq_true (by omega)
  rw [readBlock, Image.part]
  cases hused : r.cisoMap.getD (offset / r.blockSize) none with
  | none =>
    have hall : ∀ i < k, r.image.readable (offset + i) = true := fun i hi => by
      rw [image_readable, hinside i hi, hblock i hi, hused]
      rfl
    rw [if_pos hall, Option.elim_none]
    refine congrArg some (List.eq_replicate_iff.mpr ⟨?_, fun x hx => ?_⟩).symm
    · rw [Image.bytes, List.length_map, List.length_range]
    · obtain ⟨i, hi, rfl⟩ := List.mem_map.mp hx
      rw [image_byte, hblock i (List.mem_range.mp hi), hused]
      rfl
  | some index =>
    have hoffset : ∀ i < k, r.fileOffset index (offset + i) = r.fileOffset index offset + i := fun i hi => by
      rw [fileOffset, hplace i hi, fileOffset]
      exact (Nat.add_assoc _ _ _).symm
    have hreadable : (∀ i < k, r.image.readable (offset + i) = true) ↔
        r.fileOffset index offset + k ≤ r.file.getSize := by
      have hat : ∀ i < k, (r.image.readable (offset + i) = true ↔ r.fileOffset index offset + i < r.file.getSize) :=
        fun i hi => by
          rw [image_readable, hinside i hi, hblock i hi, hused, Option.elim_some, hoffset i hi,
            Bool.true_and, decide_eq_true_eq]
      constructor
      · intro h
        have hlast := (hat (k - 1) (by omega)).mp (h (k - 1) (by omega))
        omega
      · exact fun h i hi => (hat i hi).mpr (by omega)
    rw [Option.elim_some, offsetRead?_eq hk]
    refine if_congr hreadable.symm (congrArg some (List.map_congr_left fun i hi => ?_)) rfl
    rw [image_byte, hblock i (List.mem_range.mp hi), hused, Option.elim_some, hoffset i (List.mem_range.mp hi)]

/-- **A disc whose unused blocks are left out** is read with zeros in their place. -/
theorem serves (r : CISOFileReader) : Serves r.read r.image := by
  intro offset n hn hlimit
  rw [read, Nat.mod_eq_of_lt (by omega)]
  by_cases hdata : r.getDataSize < offset + n
  · rw [if_pos hdata, Image.part, if_neg]
    intro hall
    have hlast := hall (n - 1) (by omega)
    rw [image_readable, Bool.and_eq_true, decide_eq_true_eq] at hlast
    omega
  · have hsize : 0 < r.blockSize := by
      refine Nat.pos_of_ne_zero fun hzero => hdata ?_
      rw [getDataSize, hzero]
      omega
    rw [if_neg hdata]
    exact readPieces_spec _ (fun o => Nat.sub_pos_of_lt (Nat.mod_lt o hsize))
      (fun o k hk hend hle => readBlock_spec hsize hk hend hle) le_rfl (not_lt.mp hdata)

theorem numberBlocks_getD (count : ℕ) (map : List Byte) (k : ℕ) : (numberBlocks count map).getD k none =
    if map.getD k 0 = 1 then some (count + (map.take k).count 1) else none := by
  induction map generalizing count k with
  | nil =>
    rw [numberBlocks, List.getD_nil, List.getD_nil, if_neg]
    decide
  | cons b map ih =>
    rw [numberBlocks]
    by_cases hb : b = 1
    · rw [if_pos hb]
      cases k with
      | zero => rw [List.getD_cons_zero, List.getD_cons_zero, if_pos hb, List.take_zero, List.count_nil, add_zero]
      | succ k =>
        rw [List.getD_cons_succ, List.getD_cons_succ, ih, List.take_succ_cons, hb, List.count_cons_self,
          add_right_comm, ← add_assoc]
    · rw [if_neg hb]
      cases k with
      | zero => rw [List.getD_cons_zero, List.getD_cons_zero, if_neg hb]
      | succ k => rw [List.getD_cons_succ, List.getD_cons_succ, ih, List.take_succ_cons, List.count_cons_of_ne hb]

/-- A file whose header says that blocks of one byte are used as the map does. -/
def sampleFile : DirectIOFile where
  content := [0x43, 0x49, 0x53, 0x4F, 1, 0, 0, 0] ++ (1 :: List.replicate 0x7FF7 0) ++ [0xAB]
  size_lt := by
    rw [List.length_append, List.length_append, @List.length_cons _ 1, List.length_replicate]
    norm_num

theorem create_sample : create sampleFile = some ⟨sampleFile, 1, numberBlocks 0 (1 :: List.replicate 0x7FF7 0)⟩ := by
  have hheader : ([0x43, 0x49, 0x53, 0x4F, 1, 0, 0, 0] ++ (1 :: List.replicate 0x7FF7 0) : List Byte).length =
      cisoHeaderSize := by
    rw [List.length_append, @List.length_cons _ 1, List.length_replicate, cisoHeaderSize]
    norm_num
  have hread : sampleFile.offsetRead 0 cisoHeaderSize =
      [0x43, 0x49, 0x53, 0x4F, 1, 0, 0, 0] ++ (1 :: List.replicate 0x7FF7 0) := by
    rw [DirectIOFile.offsetRead, List.drop_zero, sampleFile]
    exact List.take_left' hheader
  rw [create, offsetRead?, if_pos (by rw [hread, hheader]), hread]
  rfl

end CISOFileReader

/-! ## Several files -/

structure SingleFile where
  file : DirectIOFile
  offset : ℕ
  size : ℕ

structure SplitPlainFileReader where
  files : List SingleFile
  size : ℕ

namespace SplitPlainFileReader

/-- The files that were opened, each of them behind the one before. -/
def singleFiles : ℕ → List DirectIOFile → List SingleFile
  | _, [] => []
  | offset, f :: fs => ⟨f, offset, f.getSize⟩ :: singleFiles ((offset + f.getSize) % 2 ^ 64) fs

/-- `Create`, with the parts that are there. -/
def create (parts : List DirectIOFile) : Option SplitPlainFileReader :=
  if parts.any (·.getSize = 0) then none
  else if parts.length < 2 then none
  else some ⟨singleFiles 0 parts, ((singleFiles 0 parts).map (·.size)).sum % 2 ^ 64⟩

/-- The loop of `Read`. -/
def readFiles : List SingleFile → Reader
  | [], _, rest => if rest = 0 then some [] else none
  | f :: fs, offset, rest =>
    if f.offset ≤ offset ∧ offset < (f.offset + f.size) % 2 ^ 64 then
      (offsetRead? f.file (offset - f.offset) (min (f.size - (offset - f.offset)) rest)).bind fun bytes =>
        if rest - min (f.size - (offset - f.offset)) rest = 0 then some bytes
        else (readFiles fs ((offset + min (f.size - (offset - f.offset)) rest) % 2 ^ 64)
          (rest - min (f.size - (offset - f.offset)) rest)).map (bytes ++ ·)
    else readFiles fs offset rest

/-- `Read` -/
def read (r : SplitPlainFileReader) : Reader := fun offset n =>
  if r.size ≤ offset then none else readFiles r.files offset n

/-- The files one after the other. -/
def image (parts : List DirectIOFile) : Image where
  byte offset := (parts.flatMap (·.content)).getD offset 0
  readable offset := decide (offset < (parts.flatMap (·.content)).length)

theorem part_eq (parts : List DirectIOFile) {offset n : ℕ} (hn : 0 < n) : (image parts).part offset n =
    if offset + n ≤ (parts.flatMap (·.content)).length then some ((image parts).bytes offset n) else none := by
  refine if_congr ⟨fun h => ?_, fun h i hi => decide_eq_true (by omega)⟩ rfl rfl
  have hlast := of_decide_eq_true (h (n - 1) (by omega))
  omega

theorem image_cons_of_lt (f : DirectIOFile) (fs : List DirectIOFile) {offset n : ℕ} (h : offset + n ≤ f.getSize) :
    (image (f :: fs)).bytes offset n = (List.range n).map fun i => f.content.getD (offset + i) 0 := by
  refine List.map_congr_left fun i hi => ?_
  have hlt := List.mem_range.mp hi
  unfold DirectIOFile.getSize at h
  change (f.content ++ fs.flatMap (·.content)).getD (offset + i) 0 = _
  rw [List.getD_append _ _ _ _ (by omega)]

theorem image_cons_of_le (f : DirectIOFile) (fs : List DirectIOFile) {offset n : ℕ} (h : f.getSize ≤ offset) :
    (image (f :: fs)).bytes offset n = (image fs).bytes (offset - f.getSize) n := by
  refine List.map_congr_left fun i _ => ?_
  unfold DirectIOFile.getSize at h ⊢
  change (f.content ++ fs.flatMap (·.content)).getD (offset + i) 0 = (fs.flatMap (·.content)).getD _ 0
  rw [List.getD_append_right _ _ _ _ (by omega), show offset + i - f.content.length =
    offset - f.content.length + i by omega]

theorem readFiles_spec (parts : List DirectIOFile) {base offset rest : ℕ}
    (htotal : base + (parts.flatMap (·.content)).length < 2 ^ 64) (hbase : base ≤ offset) (hrest : 0 < rest) :
    readFiles (singleFiles base parts) offset rest = (image parts).part (offset - base) rest := by
  induction parts generalizing base offset rest with
  | nil =>
    rw [part_eq [] hrest, singleFiles, readFiles, if_neg hrest.ne', if_neg]
    change ¬offset - base + rest ≤ 0
    omega
  | cons f fs ih =>
    have hlength : ((f :: fs).flatMap (·.content)).length = f.getSize + (fs.flatMap (·.content)).length :=
      List.length_append
    rw [hlength] at htotal
    rw [singleFiles, readFiles, part_eq (f :: fs) hrest, hlength]
    dsimp only
    rw [Nat.mod_eq_of_lt (show base + f.getSize < 2 ^ 64 by omega)]
    by_cases hinside : offset < base + f.getSize
    · rw [if_pos ⟨hbase, hinside⟩]
      obtain ⟨k, hk⟩ : ∃ k, k = min (f.getSize - (offset - base)) rest := ⟨_, rfl⟩
      rw [← hk, offsetRead?_eq (by omega), if_pos (by omega), Option.bind_some, ← image_cons_of_lt f fs (by omega)]
      by_cases hdone : rest - k = 0
      · rw [if_pos hdone, if_pos (by omega), show k = rest by omega]
      · have hnext : base + f.getSize ≤ offset + k := by omega
        rw [if_neg hdone, Nat.mod_eq_of_lt (show offset + k < 2 ^ 64 by omega), ih (by omega) hnext (by omega),
          part_eq fs (by omega)]
        by_cases hfits : offset - base + rest ≤ f.getSize + (fs.flatMap (·.content)).length
        · rw [if_pos (by omega), if_pos hfits, Option.map_some,
            show offset + k - (base + f.getSize) = offset - base + k - f.getSize by omega,
            ← image_cons_of_le f fs (by omega), ← Image.bytes_add, show k + (rest - k) = rest by omega]
        · rw [if_neg (by omega), if_neg hfits]
          rfl
    · rw [if_neg fun h => hinside h.2, ih (by omega) (by omega) hrest, part_eq fs hrest]
      by_cases hfits : offset - base + rest ≤ f.getSize + (fs.flatMap (·.content)).length
      · rw [if_pos (by omega), if_pos hfits, image_cons_of_le f fs (by omega),
          show offset - base - f.getSize = offset - (base + f.getSize) by omega]
      · rw [if_neg (by omega), if_neg hfits]

theorem sum_size (base : ℕ) (parts : List DirectIOFile) :
    ((singleFiles base parts).map (·.size)).sum = (parts.flatMap (·.content)).length := by
  induction parts generalizing base with
  | nil => rfl
  | cons f fs ih =>
    rw [singleFiles, List.map_cons, List.sum_cons, ih, List.flatMap_cons, List.length_append]
    rfl

/-- Files of one and of two bytes. -/
def sampleParts : List DirectIOFile := [⟨[1], by norm_num⟩, ⟨[2, 3], by norm_num⟩]

end SplitPlainFileReader

/-! ## Unused clusters -/

structure ScrubbedBlob where
  blobReader : Reader
  scrubber : DiscScrubber

namespace ScrubbedBlob

open DiscScrubber

variable (r : ScrubbedBlob)

/-- A part inside a cluster. -/
def readCluster : Reader := fun offset n =>
  if r.scrubber.canBlockBeScrubbed offset then some (List.replicate n 0) else r.blobReader offset n

/-- `Read` -/
def read : Reader := fun offset n =>
  readPieces (fun offset => alignDown (offset + DiscScrubber.clusterSize) DiscScrubber.clusterSize - offset)
    r.readCluster n offset n

/-- The image of the other blob, with zeros in the clusters that can be scrubbed. -/
def image (m : Image) : Image where
  byte offset := if r.scrubber.canBlockBeScrubbed offset then 0 else m.byte offset
  readable offset := r.scrubber.canBlockBeScrubbed offset || m.readable offset

variable {r}

theorem readCluster_spec {m : Image} (h : Serves r.blobReader m) {offset k : ℕ} (hk : 0 < k)
    (hend : k ≤ alignDown (offset + DiscScrubber.clusterSize) DiscScrubber.clusterSize - offset)
    (hlimit : offset + k < 2 ^ 63) :
    r.readCluster offset k = (r.image m).part offset k := by
  have hcluster : 0 < DiscScrubber.clusterSize := by decide
  have hsame : ∀ i < k, r.scrubber.canBlockBeScrubbed (offset + i) = r.scrubber.canBlockBeScrubbed offset := by
    intro i hi
    have hmod := Nat.mod_lt offset hcluster
    rw [alignDown, Nat.add_mod_right] at hend
    rw [canBlockBeScrubbed, canBlockBeScrubbed, (div_mod_of_block (by omega)).1]
  rw [readCluster]
  by_cases hscrubbed : r.scrubber.canBlockBeScrubbed offset = true
  · have hall : ∀ i < k, (r.image m).readable (offset + i) = true := fun i hi => by
      change (r.scrubber.canBlockBeScrubbed (offset + i) || m.readable (offset + i)) = true
      rw [hsame i hi, hscrubbed, Bool.true_or]
    rw [if_pos hscrubbed, Image.part, if_pos hall]
    refine congrArg some (List.eq_replicate_iff.mpr ⟨?_, fun x hx => ?_⟩).symm
    · rw [Image.bytes, List.length_map, List.length_range]
    · obtain ⟨i, hi, rfl⟩ := List.mem_map.mp hx
      change (if r.scrubber.canBlockBeScrubbed (offset + i) = true then 0 else m.byte (offset + i)) = 0
      rw [hsame i (List.mem_range.mp hi), if_pos hscrubbed]
  · rw [if_neg hscrubbed, h offset k hk hlimit, Image.part, Image.part]
    have hnot := Bool.eq_false_of_not_eq_true hscrubbed
    refine if_congr (forall₂_congr fun i hi => ?_) (congrArg some (List.map_congr_left fun i hi => ?_)) rfl
    · change _ ↔ (r.scrubber.canBlockBeScrubbed (offset + i) || m.readable (offset + i)) = true
      rw [hsame i hi, hnot, Bool.false_or]
    · change _ = if r.scrubber.canBlockBeScrubbed (offset + i) = true then 0 else m.byte (offset + i)
      rw [hsame i (List.mem_range.mp hi), if_neg hscrubbed]

/-- **A scrubbed blob** is the other blob with zeros in the unused clusters, which need not be readable there. -/
theorem scrubbed_serves {m : Image} (h : Serves r.blobReader m) : Serves r.read (r.image m) := by
  intro offset n _ hlimit
  refine readPieces_spec (2 ^ 63 - 1) (fun o => ?_) (fun o k hk hend hle => ?_) le_rfl (by omega)
  · have hmod := Nat.mod_lt o (by decide : 0 < DiscScrubber.clusterSize)
    rw [alignDown, Nat.add_mod_right]
    omega
  · exact readCluster_spec h hk hend (by omega)

/-- Two clusters, of which the first one is scrubbed. -/
def sampleImage : Image := ⟨fun offset => BitVec.ofNat 8 offset, fun offset => decide (offset < 0x10000)⟩

theorem scrubbed_serves_sample : Serves (read ⟨sampleImage.part, ⟨[true, false], 0x10000, false, true⟩⟩)
    (image ⟨sampleImage.part, ⟨[true, false], 0x10000, false, true⟩⟩ sampleImage) :=
  scrubbed_serves fun _ _ _ _ => rfl

end ScrubbedBlob

end PlainBlobs
