import PrimedSteam.DiscIO.Purge
import PrimedSteam.DiscIO.Coverage
import PrimedSteam.Lib.Sparse
import Mathlib.Data.List.TakeWhile

/-!
# The purge codec gives back what it was given

* `compress_loop`: the compressor writes the segments of a sparse form of the data.
* `Reading`, `Pending`: what has been read and written, and what is still to come.
* `iteration_spec`: one iteration of the decompressor.
* **`purge_round_trip`**: for all schedules of input and output.
-/

set_option autoImplicit false

namespace DiscIO

open While Sparse

/-! ## Segments -/

@[simp]
theorem length_bigEndian (x : ℕ) : (bigEndian x).length = 4 := rfl

theorem fromBigEndian_bigEndian {x : ℕ} (hx : x < 2 ^ 32) : fromBigEndian (bigEndian x) = x := by
  simp only [fromBigEndian, bigEndian, List.foldl_cons, List.foldl_nil, BitVec.toNat_ofNat]
  omega

def encodeSegment (segment : ℕ × List Byte) : List Byte :=
  (bigEndian segment.1 ++ bigEndian segment.2.length) ++ segment.2

def encode (segs : List (ℕ × List Byte)) : List Byte := segs.flatMap encodeSegment

@[simp]
theorem encode_nil : encode [] = [] := rfl

@[simp]
theorem encode_cons (seg : ℕ × List Byte) (segs : List (ℕ × List Byte)) :
    encode (seg :: segs) = (bigEndian seg.1 ++ bigEndian seg.2.length) ++ (seg.2 ++ encode segs) := by
  simp [encode, encodeSegment]

/-! ## Compression -/

/-- The first bytes after a segment are zeroes, up to the end or as many as end a segment. -/
def EndsSegment (rest : List Byte) : Prop := ∀ x ∈ rest.take (segmentSize + 1), x = 0

theorem nonZeroDataEnd_spec (xs : List Byte) (i k nonZeroEnd : ℕ) (hi : i = nonZeroEnd + k)
    (hk : k ≤ segmentSize) :
    (nonZeroDataEnd xs i k nonZeroEnd = nonZeroEnd ∧ ∀ x ∈ xs.take (segmentSize + 1 - k), x = 0) ∨
      (i < nonZeroDataEnd xs i k nonZeroEnd ∧ nonZeroDataEnd xs i k nonZeroEnd ≤ i + xs.length ∧
        EndsSegment (xs.drop (nonZeroDataEnd xs i k nonZeroEnd - i))) := by
  induction xs generalizing i k nonZeroEnd with
  | nil => exact Or.inl ⟨rfl, by simp⟩
  | cons x xs ih =>
    unfold nonZeroDataEnd
    by_cases hx : x = 0
    · simp only [if_pos hx]
      have hlength : segmentSize + 1 - k = (segmentSize - k) + 1 := by omega
      by_cases hlong : segmentSize < k + 1
      · have hnone : segmentSize - k = 0 := by omega
        rw [if_pos hlong, hlength, hnone]
        exact Or.inl ⟨rfl, by simp [hx]⟩
      · rw [if_neg hlong]
        rcases ih (i + 1) (k + 1) nonZeroEnd (by omega) (by omega) with ⟨hend, hzero⟩ | ⟨hlt, hle, hzero⟩
        · refine Or.inl ⟨hend, ?_⟩
          have hsame : segmentSize + 1 - (k + 1) = segmentSize - k := by omega
          rw [hsame] at hzero
          rw [hlength, List.take_succ_cons]
          simpa [hx] using hzero
        · refine Or.inr ⟨by omega, by simp only [List.length_cons]; omega, ?_⟩
          have hdrop : nonZeroDataEnd xs (i + 1) (k + 1) nonZeroEnd - i =
              nonZeroDataEnd xs (i + 1) (k + 1) nonZeroEnd - (i + 1) + 1 := by omega
          rw [hdrop, List.drop_succ_cons]
          exact hzero
    · simp only [if_neg hx]
      rw [if_neg (Nat.not_lt_zero _)]
      right
      rcases ih (i + 1) 0 (i + 1) rfl (Nat.zero_le _) with ⟨hend, hzero⟩ | ⟨hlt, hle, hzero⟩
      · have hone : i + 1 - i = 1 := by omega
        rw [hend, hone]
        exact ⟨by omega, by simp, hzero⟩
      · refine ⟨by omega, by simp only [List.length_cons]; omega, ?_⟩
        have hdrop : nonZeroDataEnd xs (i + 1) 0 (i + 1) - i =
            nonZeroDataEnd xs (i + 1) 0 (i + 1) - (i + 1) + 1 := by omega
        rw [hdrop, List.drop_succ_cons]
        exact hzero

namespace PurgeCompressor

variable {data : List Byte} {b : ℕ}

/-- Zeroes up to the start of a segment, which is the end or has a byte that is not zero. -/
theorem nonZeroDataStart_spec (hsize : data.length < 2 ^ 32) (hb : b ≤ data.length) :
    b ≤ nonZeroDataStart data b ∧ nonZeroDataStart data b ≤ data.length ∧
      data.drop b = List.replicate (nonZeroDataStart data b - b) 0 ++
        data.drop (nonZeroDataStart data b) ∧
      ∀ x ∈ (data.drop (nonZeroDataStart data b)).head?, x ≠ 0 := by
  have hsplit := List.takeWhile_append_dropWhile (p := fun x : Byte => decide (x = 0)) (l := data.drop b)
  have hlength := congrArg List.length hsplit
  rw [List.length_append, List.length_drop] at hlength
  have hstart : nonZeroDataStart data b =
      b + ((data.drop b).takeWhile (· = 0)).length := Nat.mod_eq_of_lt (by omega)
  have hzeroes : (data.drop b).takeWhile (· = 0) =
      List.replicate ((data.drop b).takeWhile (· = 0)).length 0 :=
    List.eq_replicate_of_mem fun x hx => by simpa using List.mem_takeWhile_imp hx
  have hdrop : data.drop (nonZeroDataStart data b) = (data.drop b).dropWhile (· = 0) := by
    have hleft : ((data.drop b).takeWhile (· = 0) ++ (data.drop b).dropWhile (· = 0)).drop
        ((data.drop b).takeWhile (· = 0)).length = (data.drop b).dropWhile (· = 0) := List.drop_left
    rw [hsplit, List.drop_drop] at hleft
    rw [hstart]
    exact hleft
  refine ⟨by omega, by omega, ?_, ?_⟩
  · have hcount : nonZeroDataStart data b - b = ((data.drop b).takeWhile (· = 0)).length := by omega
    rw [hcount, hdrop, ← hzeroes]
    exact hsplit.symm
  · rw [hdrop]
    intro x hx
    have hnot := List.head?_dropWhile_not (fun x : Byte => decide (x = 0)) (data.drop b)
    rw [Option.mem_def.mp hx] at hnot
    simpa using hnot

/-- What the loop of `Compress` adds from a place of the data on. -/
structure Adds (data : List Byte) (s : ℕ × List Byte) (written : List Byte)
    (segs : List (ℕ × List Byte)) : Prop where
  written : written = s.2 ++ encode segs
  ordered : Ordered data.length s.1 segs
  render : render 0 data.length s.1 segs = data.drop s.1
  length : (encode segs).length ≤ data.length - s.1 + segmentSize
  shorter : EndsSegment (data.drop s.1) → (encode segs).length ≤ data.length - s.1

theorem compress_loop (hsize : data.length < 2 ^ 32) (written : List Byte) :
    ∃ b written' segs, whileLoop (fun s => nonZeroDataStart data s.1 ≠ data.length)
        (compressSegment data) (data.length + 1) (0, written) = some (.ok (b, written')) ∧
      Adds data (0, written) written' segs := by
  suffices hrun : ∃ r, whileLoop (fun s => nonZeroDataStart data s.1 ≠ data.length)
      (compressSegment data) (data.length + 1) (0, written) = some r ∧
        ∃ b written' segs, r = .ok (b, written') ∧ Adds data (0, written) written' segs by
    obtain ⟨r, hr, b, written', segs, rfl, hadds⟩ := hrun
    exact ⟨b, written', segs, hr, hadds⟩
  refine whileLoop_total (I := fun s => s.1 ≤ data.length)
    (R := fun s r => ∃ b written' segs, r = .ok (b, written') ∧ Adds data s written' segs)
    (fun s => data.length - s.1) ?_ ?_ (Nat.zero_le _) (by simp)
  · intro s hb hcond
    obtain ⟨hle, -, hrest, -⟩ := nonZeroDataStart_spec hsize hb
    have hend : nonZeroDataStart data s.1 = data.length := by simpa using hcond
    refine ⟨s.1, s.2, [], rfl, by simp, hb, ?_, by simp, by simp⟩
    rw [hrest, hend]
    simp [Sparse.render]
  · intro s hb hcond
    left
    obtain ⟨hle, hend, hrest, hhead⟩ := nonZeroDataStart_spec hsize hb
    have hnot : nonZeroDataStart data s.1 ≠ data.length := by simpa using hcond
    unfold compressSegment
    generalize nonZeroDataStart data s.1 = start at hle hend hrest hhead hnot ⊢
    have hcons : data.drop start ≠ [] := by
      rw [Ne, List.drop_eq_nil_iff]
      omega
    have hspec := nonZeroDataEnd_spec (data.drop start) start 0 start rfl (Nat.zero_le _)
    dsimp only
    generalize nonZeroDataEnd (data.drop start) start 0 start = stop at hspec ⊢
    obtain ⟨hlt, hstop, hends⟩ : start < stop ∧ stop ≤ data.length ∧ EndsSegment (data.drop stop) := by
      rcases hspec with ⟨-, hzero⟩ | ⟨hlt, hstop, hends⟩
      · cases hdrop : data.drop start with
        | nil => exact absurd hdrop hcons
        | cons x xs =>
          rw [hdrop] at hzero hhead
          exact absurd (hzero x (by simp [segmentSize])) (hhead x rfl)
      · rw [List.length_drop] at hstop
        rw [List.drop_drop] at hends
        have hsum : start + (stop - start) = stop := by omega
        rw [hsum] at hends
        exact ⟨hlt, by omega, hends⟩
    have hmod : (stop - start) % 2 ^ 32 = stop - start := Nat.mod_eq_of_lt (by omega)
    rw [hmod]
    refine ⟨_, rfl, hstop, by dsimp only; omega, ?_⟩
    rintro r ⟨b, written', segs, rfl, hadds⟩
    have hlength : ((data.drop start).take (stop - start)).length = stop - start := by
      rw [List.length_take, List.length_drop]
      omega
    have hsum : start + (stop - start) = stop := by omega
    have hshort := hadds.shorter hends
    dsimp only at hshort
    refine ⟨b, written', (start, (data.drop start).take (stop - start)) :: segs, rfl, ?_, ?_, ?_, ?_, ?_⟩
    · rw [hadds.written, encode_cons, hlength]
      simp
    · refine ⟨hle, fun hnil => ?_, ?_⟩
      · rw [hnil] at hlength
        simp only [List.length_nil] at hlength
        omega
      · rw [hlength, hsum]
        exact hadds.ordered
    · have hrender := hadds.render
      dsimp only at hrender
      have htail : data.drop stop = (data.drop start).drop (stop - start) := by
        rw [List.drop_drop, hsum]
      rw [Sparse.render, hlength, hsum, hrender, htail, List.take_append_drop, ← hrest]
    · rw [encode_cons, List.length_append, List.length_append, List.length_append, hlength]
      simp only [length_bigEndian, segmentSize]
      omega
    · intro hgap
      -- the segment starts after the zeroes that ended the last one
      have hfar : s.1 + (segmentSize + 1) ≤ start := by
        by_contra hnear
        cases hdrop : data.drop start with
        | nil => exact hcons hdrop
        | cons x xs =>
          have hzero : x = 0 := by
            refine hgap x ?_
            rw [hrest, List.take_append, List.mem_append]
            right
            rw [hdrop, List.length_replicate]
            have hpos : segmentSize + 1 - (start - s.1) = segmentSize - (start - s.1) + 1 := by omega
            rw [hpos, List.take_succ_cons]
            exact List.mem_cons_self
          rw [hdrop] at hhead
          exact hhead x rfl hzero
      rw [encode_cons, List.length_append, List.length_append, List.length_append, hlength]
      simp only [length_bigEndian, segmentSize] at hfar ⊢
      omega

end PurgeCompressor

/-! ## Decompression -/

section

variable (sha1 : List Byte → Digest) {bytes data : List Byte} {s : Decompression}
  {rest out xs : List Byte}

/-- `rest` is still to be read before the hash, and `out` is still to be written. -/
structure Reading (bytes data : List Byte) (s : Decompression) (rest out : List Byte) : Prop where
  started : s.decompressor.started = true
  notDone : s.decompressor.done = false
  input : bytes = s.decompressor.hashed ++ (rest ++ (sha1 (s.decompressor.hashed ++ rest)).1)
  read : s.inBytesRead = s.decompressor.hashed.length
  output : data = s.out.written ++ out
  written : s.decompressor.outBytesWritten = s.out.written.length
  size : s.decompressor.decompressedSize = data.length

/-- What the rest of the input and of the output are, at some place of the data. -/
inductive Pending (size n : ℕ) : (segment rest out : List Byte) → Prop
  /-- A part of the header of the next segment has been read. -/
  | header {segment rest : List Byte} (segs : List (ℕ × List Byte)) (hshort : segment.length < segmentSize)
      (hordered : Ordered size n segs) (hrest : segment ++ rest = encode segs) :
      Pending size n segment rest (render 0 size n segs)
  /-- The header has been read, and there are values left. -/
  | values {segment : List Byte} (offset length : ℕ) (values : List Byte) (segs : List (ℕ × List Byte))
      (hsegment : segment = bigEndian offset ++ bigEndian length) (hvalues : values ≠ [])
      (hend : max n offset + values.length = offset + length)
      (hordered : Ordered size (offset + length) segs) :
      Pending size n segment (values ++ encode segs)
        (List.replicate (offset - n) 0 ++ (values ++ render 0 size (offset + length) segs))

/-- The decompressor has returned that it is done. -/
structure Finished (bytes data : List Byte) (s : Decompression) : Prop where
  started : s.decompressor.started = true
  done : s.decompressor.done = true
  read : s.inBytesRead = bytes.length
  written : s.out.written = data

/-- The input is read up to `available` bytes and there are `capacity` bytes for the output. -/
structure Fits (available capacity : ℕ) (s : Decompression) : Prop where
  read : s.inBytesRead ≤ available
  written : s.out.written.length ≤ capacity
  size : s.out.size = capacity

variable {sha1} {available capacity : ℕ}

namespace Reading

variable (h : Reading sha1 bytes data s rest out)

include h in
theorem length_bytes : bytes.length = s.inBytesRead + rest.length + digestLength := by
  rw [h.input, h.read, List.length_append, List.length_append,
    (sha1 (s.decompressor.hashed ++ rest)).2]
  omega

include h in
theorem nextBytes_eq {count : ℕ} (hcount : s.inBytesRead + count ≤ available) :
    s.nextBytes ⟨bytes.take available, bytes.length⟩ count =
      (rest ++ (sha1 (s.decompressor.hashed ++ rest)).1).take count := by
  have hdrop : bytes.drop s.inBytesRead = rest ++ (sha1 (s.decompressor.hashed ++ rest)).1 := by
    rw [h.read]
    conv_lhs => rw [h.input]
    exact List.drop_left
  unfold Decompression.nextBytes
  dsimp only
  rw [List.drop_take, List.take_take, hdrop, min_eq_left (by omega)]

end Reading

theorem Reading.writeZeroes {count : ℕ}
    (h : Reading sha1 bytes data s rest (List.replicate count 0 ++ out)) :
    Reading sha1 bytes data (s.writeZeroes count) rest out where
  started := h.started
  notDone := h.notDone
  input := h.input
  read := h.read
  output := by
    rw [h.output]
    simp [Decompression.writeZeroes]
  written := by simp [Decompression.writeZeroes, h.written]
  size := h.size

/-! ## One iteration -/

theorem Reading.readSegment (available : ℕ) (h : Reading sha1 bytes data s (xs ++ rest) out)
    (hshort : s.decompressor.segment.length < segmentSize)
    (hxs : xs.length = min (available - s.inBytesRead) (segmentSize - s.decompressor.segment.length))
    (havailable : available ≤ bytes.length) (hread : s.inBytesRead ≤ available) :
    Reading sha1 bytes data (s.readSegment ⟨bytes.take available, bytes.length⟩) rest out ∧
      (s.readSegment ⟨bytes.take available, bytes.length⟩).decompressor.segment =
        s.decompressor.segment ++ xs ∧
      (s.readSegment ⟨bytes.take available, bytes.length⟩).inBytesRead = s.inBytesRead + xs.length ∧
      (s.readSegment ⟨bytes.take available, bytes.length⟩).out = s.out ∧
      (s.readSegment ⟨bytes.take available, bytes.length⟩).decompressor.outBytesWritten =
        s.decompressor.outBytesWritten := by
  have hlength : (bytes.take available).length = available := by
    rw [List.length_take]
    omega
  have hnext : s.nextBytes ⟨bytes.take available, bytes.length⟩ (min
      ((bytes.take available).length - s.inBytesRead)
      (segmentSize - s.decompressor.segment.length)) = xs := by
    rw [hlength, ← hxs, h.nextBytes_eq (by omega), List.append_assoc]
    exact List.take_left
  unfold Decompression.readSegment
  rw [if_pos hshort]
  dsimp only
  rw [hnext]
  refine ⟨⟨h.started, h.notDone, ?_, ?_, h.output, h.written, h.size⟩, rfl, rfl, rfl, rfl⟩
  · simpa using h.input
  · simp [h.read]

theorem readSegment_of_full (input : DecompressionBuffer)
    (hfull : s.decompressor.segment.length = segmentSize) : s.readSegment input = s := by
  unfold Decompression.readSegment
  rw [if_neg (by omega)]

theorem Reading.fillToOffset_eq (h : Reading sha1 bytes data s rest out) :
    s.fillToOffset = s.writeZeroes (min (s.segmentOffset - s.out.written.length) s.space) := by
  unfold Decompression.fillToOffset
  rw [h.written]
  split
  · rfl
  next hnot =>
    have hzero : s.segmentOffset - s.out.written.length = 0 := by omega
    rw [hzero, Nat.zero_min]
    simp [Decompression.writeZeroes]

theorem Reading.copyData {values : List Byte}
    (h : Reading sha1 bytes data s (values ++ rest) (values ++ out)) (hvalues : values ≠ [])
    (hfits : Fits available capacity s) (havailable : available ≤ bytes.length)
    (hoffset : s.segmentOffset ≤ s.out.written.length)
    (hend : s.out.written.length + values.length = s.segmentOffset + s.segmentLength) :
    ∃ xs ys s', s.copyData ⟨bytes.take available, bytes.length⟩ = s' ∧ values = xs ++ ys ∧
      xs.length = min (min values.length (capacity - s.out.written.length))
        (available - s.inBytesRead) ∧
      Reading sha1 bytes data s' (ys ++ rest) (ys ++ out) ∧ s'.out = ⟨s.out.written ++ xs, capacity⟩ ∧
      s'.decompressor.segment = s.decompressor.segment ∧
      s'.inBytesRead = s.inBytesRead + xs.length := by
  have hpos := List.length_pos_iff.mpr hvalues
  have hlength : (bytes.take available).length = available := by
    rw [List.length_take]
    omega
  have hread := hfits.read
  let count := min (min values.length (capacity - s.out.written.length)) (available - s.inBytesRead)
  have hcount : (values.take count).length = count := by
    rw [List.length_take]
    omega
  have hnext : s.nextBytes ⟨bytes.take available, bytes.length⟩ count = values.take count := by
    rw [h.nextBytes_eq (by omega), List.append_assoc, List.take_append_of_le_length (by omega)]
  refine ⟨values.take count, values.drop count, _, rfl, (List.take_append_drop _ _).symm, hcount, ?_⟩
  have hvaluesSplit := (List.take_append_drop count values).symm
  have hlast : s.segmentOffset + s.segmentLength - s.out.written.length = values.length := by omega
  unfold Decompression.copyData
  rw [h.written, if_pos ⟨hoffset, by omega⟩]
  dsimp only
  rw [hlength, hlast, Decompression.space, hfits.size, hnext]
  refine ⟨⟨h.started, h.notDone, ?_, ?_, ?_, ?_, h.size⟩, rfl, rfl, rfl⟩
  · have hinput := h.input
    rw [hvaluesSplit] at hinput
    simp only [List.append_assoc] at hinput ⊢
    exact hinput
  · simp [h.read]
  · have houtput := h.output
    rw [hvaluesSplit] at houtput
    simp only [List.append_assoc] at houtput ⊢
    exact houtput
  · simp

theorem fromBigEndian_header {offset length : ℕ}
    (hsegment : s.decompressor.segment = bigEndian offset ++ bigEndian length)
    (hoffset : offset < 2 ^ 32) (hlength : length < 2 ^ 32) :
    s.segmentOffset = offset ∧ s.segmentLength = length := by
  unfold Decompression.segmentOffset Decompression.segmentLength
  rw [hsegment]
  exact ⟨fromBigEndian_bigEndian hoffset, fromBigEndian_bigEndian hlength⟩

/-- The state is one from which the rest of the input gives the rest of the output. -/
def Resumes (sha1 : List Byte → Digest) (bytes data : List Byte) (s : Decompression) : Prop :=
  ∃ rest out, Reading sha1 bytes data s rest out ∧
    Pending data.length s.out.written.length s.decompressor.segment rest out

/-- What the loop can still do with the input and the space that there are. -/
def workLeft (available : ℕ) (s : Decompression) : ℕ :=
  2 * (available - s.inBytesRead) + s.space + s.decompressor.segment.length

theorem Reading.copyAndEnd {offset length : ℕ} {values : List Byte} {segs : List (ℕ × List Byte)}
    (h : Reading sha1 bytes data s (values ++ encode segs)
      (values ++ render 0 data.length (offset + length) segs))
    (hfits : Fits available capacity s) (havailable : available ≤ bytes.length)
    (hsegment : s.decompressor.segment = bigEndian offset ++ bigEndian length)
    (hoffset : offset < 2 ^ 32) (hlength : length < 2 ^ 32) (hvalues : values ≠ [])
    (hplace : offset ≤ s.out.written.length)
    (hend : s.out.written.length + values.length = offset + length)
    (hordered : Ordered data.length (offset + length) segs) :
    ∃ s', (s.copyData ⟨bytes.take available, bytes.length⟩).endSegment = s' ∧
      Resumes sha1 bytes data s' ∧ Fits available capacity s' ∧
      workLeft available s' ≤ workLeft available s ∧
      (s.inBytesRead < available → s.out.written.length < capacity →
        workLeft available s' < workLeft available s) := by
  have hpos := List.length_pos_iff.mpr hvalues
  have hread := hfits.read
  have hwritten := hfits.written
  obtain ⟨hsOffset, hsLength⟩ := fromBigEndian_header hsegment hoffset hlength
  obtain ⟨xs, ys, s', hs', hxy, hxs, hcopy, hout, hsegment', hread'⟩ :=
    h.copyData hvalues hfits havailable (hsOffset ▸ hplace) (by rw [hsOffset, hsLength]; exact hend)
  have hxyLength := congrArg List.length hxy
  rw [List.length_append] at hxyLength
  have hwritten' : s'.out.written.length = s.out.written.length + xs.length := by
    rw [hout]
    exact List.length_append
  have hspace : s.space = capacity - s.out.written.length := by
    rw [Decompression.space, hfits.size]
  have hspace' : s'.space = capacity - (s.out.written.length + xs.length) := by
    rw [Decompression.space, hwritten', hout]
  have hle : 2 * (available - s'.inBytesRead) + s'.space ≤
      2 * (available - s.inBytesRead) + s.space := by omega
  have hlt (hinput : s.inBytesRead < available) (hroom : s.out.written.length < capacity) :
      2 * (available - s'.inBytesRead) + s'.space < 2 * (available - s.inBytesRead) + s.space := by
    omega
  obtain ⟨hsOffset', hsLength'⟩ := fromBigEndian_header (hsegment'.trans hsegment) hoffset hlength
  rw [hs']
  unfold Decompression.endSegment
  rw [hsOffset', hsLength', hcopy.written]
  by_cases hlast : offset + length ≤ s'.out.written.length
  · have hys : ys = [] := List.length_eq_zero_iff.mp (by omega)
    have hplace' : s'.out.written.length = offset + length := by omega
    subst hys
    rw [if_pos hlast]
    refine ⟨_, rfl, ⟨encode segs, render 0 data.length (offset + length) segs,
      ⟨hcopy.started, hcopy.notDone, hcopy.input, hcopy.read, hcopy.output, hcopy.written, hcopy.size⟩,
      ?_⟩, ⟨by dsimp only; omega, by dsimp only; omega, by dsimp only; rw [hout]⟩, ?_, ?_⟩
    · dsimp only
      rw [hplace']
      exact .header segs (by decide) hordered rfl
    · exact Nat.add_le_add hle (Nat.zero_le _)
    · intro hinput hroom
      exact Nat.add_lt_add_of_lt_of_le (hlt hinput hroom) (Nat.zero_le _)
  · rw [if_neg hlast]
    have hys : ys ≠ [] := fun hnil => by
      rw [hnil, List.length_nil] at hxyLength
      omega
    refine ⟨s', rfl, ⟨_, _, hcopy, ?_⟩, ⟨by omega, by omega, by rw [hout]⟩, ?_, ?_⟩
    · have hnone : List.replicate (offset - s'.out.written.length) (0 : Byte) = [] := by
        rw [List.replicate_eq_nil_iff]
        omega
      have hpending := Pending.values offset length ys segs (hsegment'.trans hsegment) hys
        (n := s'.out.written.length) (by omega) hordered
      rwa [hnone, List.nil_append] at hpending
    · rw [workLeft, workLeft, hsegment']
      exact Nat.add_le_add_right hle _
    · intro hinput hroom
      rw [workLeft, workLeft, hsegment']
      exact Nat.add_lt_add_right (hlt hinput hroom) _

/-- In a segment, the decompressor writes zeroes up to its offset and copies what it can. -/
theorem Reading.copySegment {offset length : ℕ} {values : List Byte} {segs : List (ℕ × List Byte)}
    (h : Reading sha1 bytes data s (values ++ encode segs)
      (List.replicate (offset - s.out.written.length) 0 ++
        (values ++ render 0 data.length (offset + length) segs)))
    (hfits : Fits available capacity s) (havailable : available ≤ bytes.length)
    (hsegment : s.decompressor.segment = bigEndian offset ++ bigEndian length)
    (hoffset : offset < 2 ^ 32) (hlength : length < 2 ^ 32) (hvalues : values ≠ [])
    (hend : max s.out.written.length offset + values.length = offset + length)
    (hordered : Ordered data.length (offset + length) segs) :
    ∃ s', (s.fillToOffset.copyData ⟨bytes.take available, bytes.length⟩).endSegment = s' ∧
      Resumes sha1 bytes data s' ∧ Fits available capacity s' ∧
      workLeft available s' ≤ workLeft available s ∧
      (s.inBytesRead < available → s.out.written.length < capacity →
        workLeft available s' < workLeft available s) := by
  have hfitsWritten := hfits.written
  obtain ⟨hsOffset, hsLength⟩ := fromBigEndian_header hsegment hoffset hlength
  have hspace : s.space = capacity - s.out.written.length := by
    rw [Decompression.space, hfits.size]
  rw [h.fillToOffset_eq, hsOffset]
  let count := min (offset - s.out.written.length) s.space
  have hsplit : offset - s.out.written.length =
      count + (offset - s.out.written.length - count) := by omega
  rw [hsplit, List.replicate_add, List.append_assoc] at h
  have hfill := h.writeZeroes
  have hwritten : (s.writeZeroes count).out.written.length = s.out.written.length + count := by
    simp [Decompression.writeZeroes]
  have hspace₁ : (s.writeZeroes count).space = s.space - count := by
    rw [Decompression.space, hwritten, hspace, ← hfits.size, Nat.sub_add_eq]
    rfl
  have hfits₁ : Fits available capacity (s.writeZeroes count) :=
    ⟨hfits.read, by omega, hfits.size⟩
  have hle : workLeft available (s.writeZeroes count) + count = workLeft available s := by
    rw [workLeft, workLeft, hspace₁]
    show 2 * (available - s.inBytesRead) + _ + s.decompressor.segment.length + count = _
    omega
  by_cases hfull : s.out.written.length + count < offset
  · -- the output is full before the offset is reached
    obtain ⟨hoffset₁, -⟩ : (s.writeZeroes count).segmentOffset = offset ∧ _ :=
      fromBigEndian_header hsegment hoffset hlength
    have hcopy : (s.writeZeroes count).copyData ⟨bytes.take available, bytes.length⟩ =
        s.writeZeroes count := by
      unfold Decompression.copyData
      rw [hfill.written, hwritten, hoffset₁, if_neg (by omega)]
    have hopen : (s.writeZeroes count).endSegment = s.writeZeroes count := by
      unfold Decompression.endSegment
      rw [hfill.written, hwritten, hoffset₁, if_neg (by omega)]
    refine ⟨s.writeZeroes count, by rw [hcopy, hopen], ⟨_, _, hfill, ?_⟩, hfits₁, by omega, ?_⟩
    · have hzeroes : offset - s.out.written.length - count =
          offset - (s.writeZeroes count).out.written.length := by omega
      rw [hzeroes]
      exact .values offset length values segs hsegment hvalues (by omega) hordered
    · intro _ hroom
      omega
  · have hzeroes : offset - s.out.written.length - count = 0 := by omega
    rw [hzeroes, List.replicate_zero, List.nil_append] at hfill
    obtain ⟨s', hs', hresumes, hfits', hle', hlt'⟩ := hfill.copyAndEnd hfits₁ havailable hsegment
      hoffset hlength hvalues (by omega) (by omega) hordered
    refine ⟨s', hs', hresumes, hfits', by omega, fun hinput hroom => ?_⟩
    by_cases hroom₁ : (s.writeZeroes count).out.written.length < capacity
    · have hlt := hlt' hinput hroom₁
      omega
    · omega

/-- At the end of the segments, the zeroes at the end are written and the hash is compared. -/
theorem Reading.readTrailer (h : Reading sha1 bytes data s [] (List.replicate
      (data.length - s.out.written.length) 0)) (hsegment : s.decompressor.segment = [])
    (hfits : Fits available capacity s) (havailable : available ≤ bytes.length)
    (hdata : data.length < 2 ^ 32) :
    ∃ s', s.readTrailer sha1 ⟨bytes.take available, bytes.length⟩ = (true, s') ∧
      (Resumes sha1 bytes data s' ∨ Finished bytes data s') ∧
      (available = bytes.length → data.length ≤ capacity → Finished bytes data s') ∧
      Fits available capacity s' := by
  have hlength : (bytes.take available).length = available := by
    rw [List.length_take]
    omega
  have hwrittenLe : s.out.written.length ≤ data.length := by
    conv_rhs => rw [h.output]
    rw [List.length_append]
    omega
  have hspace : s.space = capacity - s.out.written.length := by
    rw [Decompression.space, hfits.size]
  have hfitsWritten := hfits.written
  have hbytes := h.length_bytes
  unfold Decompression.readTrailer
  rw [h.size, h.written, sub64_of_le hwrittenLe (by omega), hspace]
  generalize hcount : min (data.length - s.out.written.length) (capacity - s.out.written.length) = count
  have hsplit : data.length - s.out.written.length =
      count + (data.length - (s.out.written.length + count)) := by omega
  rw [hsplit, List.replicate_add] at h
  have hfill := h.writeZeroes
  have hwritten : (s.writeZeroes count).out.written.length = s.out.written.length + count := by
    simp [Decompression.writeZeroes]
  have hread : (s.writeZeroes count).inBytesRead = s.inBytesRead := rfl
  have hfits₁ : Fits available capacity (s.writeZeroes count) :=
    ⟨hfits.read, by omega, hfits.size⟩
  have hsegment₁ : (s.writeZeroes count).decompressor.segment = [] := hsegment
  generalize s.writeZeroes count = s₁ at hfill hwritten hread hfits₁ hsegment₁
  dsimp only
  have hiff : (s₁.decompressor.outBytesWritten = s₁.decompressor.decompressedSize ∧
      (bytes.take available).length = bytes.length) ↔
        s.out.written.length + count = data.length ∧ available = bytes.length := by
    rw [hfill.written, hfill.size, hwritten, hlength]
  rw [if_congr hiff rfl rfl]
  by_cases hend : s.out.written.length + count = data.length ∧ available = bytes.length
  · rw [if_pos hend]
    have hhash : (sha1 s₁.decompressor.hashed).1 =
        s₁.nextBytes ⟨bytes.take available, bytes.length⟩ digestLength := by
      rw [hfill.nextBytes_eq (by rw [hread, hend.2, hbytes]; simp)]
      simp [(sha1 s₁.decompressor.hashed).2]
    have hout : s₁.out.written = data := by
      have houtput := hfill.output
      rw [hend.1, Nat.sub_self, List.replicate_zero, List.append_nil] at houtput
      exact houtput.symm
    have hfinished : Finished bytes data { s₁ with
        decompressor := { s₁.decompressor with done := true }
        inBytesRead := s₁.inBytesRead + digestLength } :=
      ⟨hfill.started, rfl, by dsimp only; rw [hread, hbytes]; rfl, hout⟩
    refine ⟨_, ?_, Or.inr hfinished, fun _ _ => hfinished, ?_, hfits₁.written, hfits₁.size⟩
    · rw [decide_eq_true hhash]
    · dsimp only
      rw [hread, hend.2, hbytes]
      rfl
  · rw [if_neg hend]
    refine ⟨s₁, rfl, Or.inl ⟨_, _, hfill, ?_⟩, fun hall hroom => absurd ⟨?_, hall⟩ hend, hfits₁⟩
    · rw [hsegment₁, ← hwritten]
      exact .header [] (by decide) (show _ ≤ _ by omega) rfl
    · omega

/-- **One iteration** goes on with less work, or returns because input or space are used up. -/
theorem iteration_spec (h : Resumes sha1 bytes data s) (hfits : Fits available capacity s)
    (havailable : available ≤ bytes.length) (hdata : data.length < 2 ^ 32)
    (hcontinues : s.continues ⟨bytes.take available, bytes.length⟩ = true) :
    (∃ s', s.iteration sha1 ⟨bytes.take available, bytes.length⟩ = .ok s' ∧
      (Resumes sha1 bytes data s' ∧ Fits available capacity s') ∧
      workLeft available s' < workLeft available s) ∨
    ∃ s', s.iteration sha1 ⟨bytes.take available, bytes.length⟩ = .error (true, s') ∧
      (Resumes sha1 bytes data s' ∨ Finished bytes data s') ∧
      (available = bytes.length → data.length ≤ capacity → Finished bytes data s') ∧
      Fits available capacity s' := by
  obtain ⟨rest, out, hreading, hpending⟩ := h
  have hlength : (bytes.take available).length = available := by
    rw [List.length_take]
    omega
  have hbytes := hreading.length_bytes
  have hfitsRead := hfits.read
  have hfitsWritten := hfits.written
  unfold Decompression.continues at hcontinues
  simp only [hlength, hreading.notDone, hfits.size, Bool.not_false, Bool.true_and, Bool.and_eq_true,
    Bool.or_eq_true, decide_eq_true_eq] at hcontinues
  obtain ⟨hinput, hroom⟩ := hcontinues
  unfold Decompression.iteration
  generalize hsegment : s.decompressor.segment = segment at hpending hroom
  generalize hwritten : s.out.written.length = n at hpending hroom hfitsWritten
  cases hpending with
  | header segs hshort hordered hrest =>
    cases segs with
    | nil =>
      obtain ⟨hnil, hnone⟩ := List.append_eq_nil_iff.mp hrest
      subst hnil hnone hwritten
      rw [if_pos ⟨rfl, by simpa using hbytes.symm⟩]
      obtain ⟨s', hs', hresult⟩ := hreading.readTrailer hsegment hfits havailable hdata
      exact Or.inr ⟨s', by rw [hs'], hresult⟩
    | cons seg segs =>
      obtain ⟨offset, values⟩ := seg
      rw [encode_cons] at hrest
      have hrestLength := congrArg List.length hrest
      simp only [List.length_append, length_bigEndian] at hrestLength
      have hmore : ¬ (segment = [] ∧ s.inBytesRead + digestLength = bytes.length) := by
        rintro ⟨hnil, hlast⟩
        rw [hnil, List.length_nil] at hrestLength
        omega
      rw [if_neg hmore]
      simp only [segmentSize] at hshort
      let count := min (available - s.inBytesRead) (segmentSize - segment.length)
      have hcount : (rest.take count).length = count := by
        rw [List.length_take]
        simp only [count, segmentSize]
        omega
      rw [← List.take_append_drop count rest] at hreading
      obtain ⟨hread, hsegment₁, hread₁, hout₁, -⟩ := hreading.readSegment available
        (by rw [hsegment]; exact hshort) (by rw [hsegment]; exact hcount) havailable hfitsRead
      have houtLength := congrArg (fun buffer => buffer.written.length) hout₁
      generalize s.readSegment ⟨bytes.take available, bytes.length⟩ = s₁ at *
      have hspace₁ : s₁.space = s.space := by
        rw [Decompression.space, hout₁]
        rfl
      have hfits₁ : Fits available capacity s₁ :=
        ⟨by rw [hread₁, hcount]; omega, by rw [hout₁]; omega, by rw [hout₁]; exact hfits.size⟩
      have hheader : (segment ++ rest.take count) ++ rest.drop count =
          bigEndian offset ++ bigEndian values.length ++ (values ++ encode segs) := by
        rw [List.append_assoc, List.take_append_drop]
        exact hrest
      rw [hsegment] at hsegment₁
      have hlength₁ : s₁.decompressor.segment.length = segment.length + count := by
        rw [hsegment₁, List.length_append, hcount]
      dsimp only
      by_cases hpartial : s₁.decompressor.segment.length < segmentSize
      · right
        rw [if_pos hpartial]
        simp only [segmentSize] at hpartial
        refine ⟨s₁, rfl, Or.inl ⟨_, _, hread, ?_⟩, fun hall _ => ?_, hfits₁⟩
        · rw [houtLength, hwritten]
          refine .header ((offset, values) :: segs) hpartial hordered ?_
          rw [hsegment₁, hheader, encode_cons]
        · simp only [count, segmentSize] at hlength₁
          omega
      · left
        rw [if_neg hpartial]
        simp only [segmentSize] at hpartial
        obtain ⟨hcomplete, hvalues⟩ := List.append_inj hheader (by
          rw [← hsegment₁, hlength₁]
          simp only [List.length_append, length_bigEndian, count, segmentSize]
          omega)
        have hle := hordered.2.2.le
        have hfirst := hordered.1
        rw [hvalues, Sparse.render, ← hwritten, ← houtLength] at hread
        obtain ⟨s', hs', hresumes, hfits', hle', -⟩ := hread.copySegment hfits₁ havailable
          (hsegment₁.trans hcomplete) (by omega) (by omega) hordered.2.1 (by omega) hordered.2.2
        refine ⟨s', by rw [hs'], ⟨hresumes, hfits'⟩, hle'.trans_lt ?_⟩
        rw [workLeft, workLeft, hspace₁, hlength₁, hread₁, hcount, hsegment]
        omega
  | values offset length values segs hheader hvalues hend hordered =>
    have hfull : segment.length = segmentSize := by
      rw [hheader]
      rfl
    have hmore : ¬ (segment = [] ∧ s.inBytesRead + digestLength = bytes.length) := by
      rintro ⟨hnil, -⟩
      rw [hnil] at hfull
      cases hfull
    have hle := hordered.le
    subst hwritten
    rw [if_neg hmore, readSegment_of_full _ (by rw [hsegment]; exact hfull)]
    dsimp only
    rw [hsegment, if_neg (by omega)]
    obtain ⟨s', hs', hresumes, hfits', -, hlt⟩ := hreading.copySegment hfits havailable
      (hsegment.trans hheader) (by omega) (by omega) hvalues hend hordered
    exact Or.inl ⟨s', by rw [hs'], ⟨hresumes, hfits'⟩, hlt (by omega) (by omega)⟩

/-! ## Calls -/

/-- After a call: the decompressor can go on or is done, and it is done if it had everything. -/
def Called (sha1 : List Byte → Digest) (bytes data : List Byte) (available capacity : ℕ)
    (s : Decompression) : Prop :=
  (Resumes sha1 bytes data s ∨ Finished bytes data s) ∧
    (available = bytes.length → data.length ≤ capacity → Finished bytes data s) ∧
    Fits available capacity s

theorem Resumes.not_complete (h : Resumes sha1 bytes data s) (hfits : Fits available capacity s)
    (hstops : s.continues ⟨bytes.take available, bytes.length⟩ = false) :
    ¬ (available = bytes.length ∧ data.length ≤ capacity) := by
  obtain ⟨rest, out, hreading, hpending⟩ := h
  rintro ⟨hall, hroom⟩
  have hlength : (bytes.take available).length = available := by
    rw [List.length_take]
    omega
  have hbytes := hreading.length_bytes
  have houtput := congrArg List.length hreading.output
  rw [List.length_append] at houtput
  have hfitsWritten := hfits.written
  have hinput : available ≠ s.inBytesRead := by
    simp only [digestLength] at hbytes
    omega
  unfold Decompression.continues at hstops
  simp only [hlength, hreading.notDone, hfits.size, Bool.not_false, Bool.true_and, Bool.and_eq_false_iff,
    Bool.or_eq_false_iff, decide_eq_false_iff_not] at hstops
  obtain ⟨hheader, hfull⟩ := hstops.resolve_left fun h => h hinput
  generalize s.decompressor.segment = segment at hpending hheader
  cases hpending with
  | header segs hshort hordered hrest => exact hheader hshort
  | values offset length values segs hsegment hvalues hend hordered =>
    have hpos := List.length_pos_iff.mpr hvalues
    simp only [List.length_append] at houtput
    omega

theorem decompress_of_resumes (h : Resumes sha1 bytes data (s.begin ⟨bytes.take available, bytes.length⟩))
    (hfits : Fits available capacity s) (havailable : available ≤ bytes.length)
    (hdata : data.length < 2 ^ 32) :
    ∃ s', s.decompress sha1 ⟨bytes.take available, bytes.length⟩ = some (true, s') ∧
      Called sha1 bytes data available capacity s' := by
  have hlength : (bytes.take available).length = available := by
    rw [List.length_take]
    omega
  have hbegin : (s.begin ⟨bytes.take available, bytes.length⟩).inBytesRead = s.inBytesRead ∧
      (s.begin ⟨bytes.take available, bytes.length⟩).out = s.out ∧
      (s.begin ⟨bytes.take available, bytes.length⟩).decompressor.segment = s.decompressor.segment := by
    unfold Decompression.begin
    split <;> exact ⟨rfl, rfl, rfl⟩
  obtain ⟨hread, hout, hsegment⟩ := hbegin
  have hfits₀ : Fits available capacity (s.begin ⟨bytes.take available, bytes.length⟩) :=
    ⟨hread ▸ hfits.read, hout ▸ hfits.written, hout ▸ hfits.size⟩
  have hwork : workLeft available (s.begin ⟨bytes.take available, bytes.length⟩) =
      s.work ⟨bytes.take available, bytes.length⟩ := by
    rw [workLeft, Decompression.work, Decompression.space, Decompression.space, hread, hout, hsegment,
      hlength]
  obtain ⟨r, hr, s', hs', hcalled⟩ :
      ∃ r, whileLoop (Decompression.continues ⟨bytes.take available, bytes.length⟩)
        (Decompression.iteration sha1 ⟨bytes.take available, bytes.length⟩)
        (s.work ⟨bytes.take available, bytes.length⟩ + 1)
        (s.begin ⟨bytes.take available, bytes.length⟩) = some r ∧
        ∃ s', (r = .ok s' ∨ r = .error (true, s')) ∧ Called sha1 bytes data available capacity s' := by
    refine whileLoop_total (I := fun s => Resumes sha1 bytes data s ∧ Fits available capacity s)
      (R := fun _ r => ∃ s', (r = .ok s' ∨ r = .error (true, s')) ∧
        Called sha1 bytes data available capacity s')
      (workLeft available) ?_ ?_ ⟨h, hfits₀⟩ (by rw [hwork]; exact Nat.lt_succ_self _)
    · rintro s ⟨hresumes, hfits⟩ hstops
      have hnot := hresumes.not_complete hfits hstops
      exact ⟨s, Or.inl rfl, Or.inl hresumes, fun hall hroom => absurd ⟨hall, hroom⟩ hnot, hfits⟩
    · rintro s ⟨hresumes, hfits⟩ hcontinues
      rcases iteration_spec hresumes hfits havailable hdata hcontinues with
        ⟨s', hs', hI, hlt⟩ | ⟨s', hs', hcalled⟩
      · exact Or.inl ⟨s', hs', hI, hlt, fun _ hR => hR⟩
      · exact Or.inr ⟨_, hs', s', Or.inr rfl, hcalled⟩
  refine ⟨s', ?_, hcalled⟩
  unfold Decompression.decompress
  rw [hr]
  rcases hs' with rfl | rfl <;> rfl

theorem decompress_of_finished (h : Finished bytes data s) :
    s.decompress sha1 ⟨bytes.take available, bytes.length⟩ = some (true, s) := by
  have hstops : s.continues ⟨bytes.take available, bytes.length⟩ = false := by
    unfold Decompression.continues
    rw [h.done]
    rfl
  have hbegin : s.begin ⟨bytes.take available, bytes.length⟩ = s := by
    unfold Decompression.begin
    rw [if_pos h.started]
  unfold Decompression.decompress
  rw [hbegin, whileLoop, if_neg (by simp [hstops])]

/-- Before the first call. -/
structure Fresh (exceptions data : List Byte) (s : Decompression) : Prop where
  decompressor : s.decompressor = ⟨data.length, [], 0, false, false, []⟩
  written : s.out.written = []
  read : s.inBytesRead = exceptions.length

variable {exceptions : List Byte} {segs : List (ℕ × List Byte)}

theorem Fresh.resumes (h : Fresh exceptions data s)
    (hbytes : bytes = exceptions ++ (encode segs ++ (sha1 (exceptions ++ encode segs)).1))
    (hordered : Ordered data.length 0 segs) (hrender : render 0 data.length 0 segs = data)
    (havailable : exceptions.length ≤ available) :
    Resumes sha1 bytes data (s.begin ⟨bytes.take available, bytes.length⟩) := by
  have hhashed : (bytes.take available).take s.inBytesRead = exceptions := by
    rw [h.read, List.take_take, min_eq_left havailable, hbytes]
    exact List.take_left
  unfold Decompression.begin
  rw [h.decompressor]
  simp only [Bool.false_eq_true, if_false, hhashed]
  refine ⟨encode segs, data, ⟨rfl, rfl, hbytes, h.read, ?_, ?_, rfl⟩, ?_⟩
  · simp [h.written]
  · simp [h.written]
  · have hpending := Pending.header (n := 0) segs (by decide) hordered (List.nil_append (encode segs))
    rw [hrender] at hpending
    dsimp only
    rw [h.written]
    exact hpending

/-- Before each call. -/
def Ready (sha1 : List Byte → Digest) (exceptions bytes data : List Byte) (s : Decompression) : Prop :=
  Fresh exceptions data s ∨ Resumes sha1 bytes data s ∨ Finished bytes data s

theorem Ready.decompress (h : Ready sha1 exceptions bytes data s)
    (hbytes : bytes = exceptions ++ (encode segs ++ (sha1 (exceptions ++ encode segs)).1))
    (hordered : Ordered data.length 0 segs) (hrender : render 0 data.length 0 segs = data)
    (hdata : data.length < 2 ^ 32) (hpreceding : exceptions.length ≤ available)
    (havailable : available ≤ bytes.length) (hfits : Fits available capacity s) :
    ∃ s', s.decompress sha1 ⟨bytes.take available, bytes.length⟩ = some (true, s') ∧
      Called sha1 bytes data available capacity s' := by
  rcases h with hfresh | hresumes | hfinished
  · exact decompress_of_resumes (hfresh.resumes hbytes hordered hrender hpreceding) hfits havailable hdata
  · refine decompress_of_resumes ?_ hfits havailable hdata
    have hbegin : s.begin ⟨bytes.take available, bytes.length⟩ = s := by
      obtain ⟨rest, out, hreading, -⟩ := hresumes
      unfold Decompression.begin
      rw [if_pos hreading.started]
    rwa [hbegin]
  · exact ⟨s, decompress_of_finished hfinished, Or.inr hfinished, fun _ _ => hfinished, hfits⟩

theorem Ready.resize (h : Ready sha1 exceptions bytes data s) (size : ℕ) :
    Ready sha1 exceptions bytes data { s with out := { s.out with size := size } } := by
  rcases h with hfresh | ⟨rest, out, hreading, hpending⟩ | hfinished
  · exact Or.inl ⟨hfresh.decompressor, hfresh.written, hfresh.read⟩
  · exact Or.inr (Or.inl ⟨rest, out, ⟨hreading.started, hreading.notDone, hreading.input, hreading.read,
      hreading.output, hreading.written, hreading.size⟩, hpending⟩)
  · exact Or.inr (Or.inr ⟨hfinished.started, hfinished.done, hfinished.read, hfinished.written⟩)

/-- **All calls return true**, and the decompressor is done if the last one had everything. -/
theorem feed_spec (hbytes : bytes = exceptions ++ (encode segs ++ (sha1 (exceptions ++ encode segs)).1))
    (hordered : Ordered data.length 0 segs) (hrender : render 0 data.length 0 segs = data)
    (hdata : data.length < 2 ^ 32) {schedule : List (ℕ × ℕ)}
    (hgrows : schedule.Pairwise fun p q => p.1 ≤ q.1 ∧ p.2 ≤ q.2)
    (hwithin : ∀ p ∈ schedule, exceptions.length ≤ p.1 ∧ p.1 ≤ bytes.length)
    (h : Ready sha1 exceptions bytes data s)
    (hfits : ∀ p ∈ schedule, s.inBytesRead ≤ p.1 ∧ s.out.written.length ≤ p.2) :
    ∃ results s', s.feed sha1 bytes schedule = some (results, s') ∧ (∀ r ∈ results, r = true) ∧
      ∀ p ∈ schedule.getLast?, p.1 = bytes.length → data.length ≤ p.2 → Finished bytes data s' := by
  induction schedule generalizing s with
  | nil => exact ⟨[], s, rfl, by simp, by simp⟩
  | cons p schedule ih =>
    obtain ⟨available, capacity⟩ := p
    obtain ⟨hfirst, hgrows⟩ := List.pairwise_cons.mp hgrows
    obtain ⟨hpreceding, havailable⟩ := hwithin _ List.mem_cons_self
    obtain ⟨hread, hwritten⟩ := hfits _ List.mem_cons_self
    obtain ⟨s₁, hs₁, hopen, hcomplete, hfits₁⟩ := (h.resize capacity).decompress hbytes hordered hrender
      hdata hpreceding havailable ⟨hread, hwritten, rfl⟩
    obtain ⟨results, s', hs', hall, hlast⟩ := ih hgrows
      (fun q hq => hwithin q (List.mem_cons_of_mem _ hq)) (Or.inr hopen)
      fun q hq => ⟨hfits₁.read.trans (hfirst q hq).1, hfits₁.written.trans (hfirst q hq).2⟩
    refine ⟨true :: results, s', ?_, by simpa using hall, ?_⟩
    · rw [Decompression.feed]
      simp only [hs₁, Option.bind_eq_bind, Option.bind_some, hs']
    · cases schedule with
      | nil =>
        obtain rfl : s₁ = s' := congrArg Prod.snd (Option.some_inj.mp hs')
        intro q hq hinput hroom
        obtain rfl : (available, capacity) = q := Option.some_inj.mp hq
        exact hcomplete hinput hroom
      | cons p' schedule =>
        rw [List.getLast?_cons_cons]
        exact hlast

end

/-- **The purge codec round-trips**: the compressor's output fits the buffer it allocates, and with
growing parts of it and growing space each call of the decompressor succeeds; a last call with everything
gives the data, with all input consumed. -/
theorem purge_round_trip (sha1 : List Byte → Digest) (exceptions data : List Byte)
    (hsize : data.length < 2 ^ 32) :
    ∃ c, purge sha1 exceptions data = some c ∧
      c.bufferSize = data.length + segmentSize + digestLength ∧ c.written.length ≤ c.bufferSize ∧
      ∀ schedule : List (ℕ × ℕ), (schedule.Pairwise fun p q => p.1 ≤ q.1 ∧ p.2 ≤ q.2) →
        (∀ p ∈ schedule, exceptions.length ≤ p.1 ∧ p.1 ≤ (exceptions ++ c.written).length) →
        ∃ results s, Decompression.feed sha1 (exceptions ++ c.written) schedule
            (.initial data.length exceptions.length) = some (results, s) ∧
          (∀ r ∈ results, r = true) ∧
          ∀ p ∈ schedule.getLast?, p.1 = (exceptions ++ c.written).length → data.length ≤ p.2 →
            s.decompressor.done = true ∧ s.inBytesRead = (exceptions ++ c.written).length ∧
              s.out.written = data := by
  obtain ⟨b, written, segs, hloop, hadds⟩ := PurgeCompressor.compress_loop hsize []
  have hwritten : written = encode segs := hadds.written
  subst hwritten
  have hrender : render 0 data.length 0 segs = data := hadds.render
  have hpurge : purge sha1 exceptions data = some ⟨encode segs ++ (sha1 (exceptions ++ encode segs)).1,
      data.length + segmentSize + digestLength, exceptions ++ encode segs⟩ := by
    unfold purge PurgeCompressor.compress
    simp only [PurgeCompressor.start, PurgeCompressor.addPrecedingDataOnlyForPurgeHashing,
      List.nil_append, hloop, Option.map_some, PurgeCompressor.finish]
  refine ⟨_, hpurge, rfl, ?_, fun schedule hgrows hwithin => ?_⟩
  · have hlength := hadds.length
    simp only [List.length_append, (sha1 (exceptions ++ encode segs)).2]
    omega
  · have hfresh : Fresh exceptions data (.initial data.length exceptions.length) := ⟨rfl, rfl, rfl⟩
    obtain ⟨results, s, hs, hall, hlast⟩ := feed_spec rfl hadds.ordered hrender hsize hgrows hwithin
      (Or.inl hfresh) fun p hp => ⟨(hwithin p hp).1, Nat.zero_le _⟩
    refine ⟨results, s, hs, hall, fun p hp hinput hroom => ?_⟩
    have hfinished := hlast p hp hinput hroom
    exact ⟨hfinished.done, hfinished.read, hfinished.written⟩

/-- Four bytes behind one of exceptions come out again from input and room in three parts. -/
theorem purge_round_trip_zeroes :
    ∃ c, purge (fun _ => ⟨List.replicate digestLength 0, rfl⟩) [7] [0, 0, 5, 0] = some c ∧
      c.written.length ≤ c.bufferSize ∧
      ∃ results s, Decompression.feed (fun _ => ⟨List.replicate digestLength 0, rfl⟩) ([7] ++ c.written)
          [(1, 1), (9, 3), (30, 4)] (.initial 4 1) = some (results, s) ∧
        (∀ r ∈ results, r = true) ∧ s.decompressor.done = true ∧ s.out.written = [0, 0, 5, 0] := by
  obtain ⟨c, hc, -, hfits, hfeed⟩ := purge_round_trip (fun _ => ⟨List.replicate digestLength 0, rfl⟩) [7]
    [0, 0, 5, 0] (by decide)
  have hlength : (purge (fun _ => ⟨List.replicate digestLength 0, rfl⟩) [7] [0, 0, 5, 0]).map
      (fun c => ([7] ++ c.written).length) = some 30 := by decide +kernel
  rw [hc, Option.map_some, Option.some_inj] at hlength
  obtain ⟨results, s, hs, hall, hlast⟩ := hfeed [(1, 1), (9, 3), (30, 4)] (by decide) (by rw [hlength]; decide)
  obtain ⟨hdone, -, hwritten⟩ := hlast (30, 4) rfl hlength.symm (by decide)
  exact ⟨c, hc, hfits, results, s, hs, hall, hdone, hwritten⟩

end DiscIO
