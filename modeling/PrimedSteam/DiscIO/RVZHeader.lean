import PrimedSteam.DiscIO.RVZPosition

/-!
# Headers of packed data

* `Greedy`: an inner decompressor that writes what its input so far and the room in the output allow.
* `Rel`: the position of a state in the packed data.
* `readHeader_spec`: a header is read, or all of the input is.
-/

set_option autoImplicit false

namespace RVZPackDecompressor

open LaggedFibonacciGenerator

variable {σ : Type*}

/-- The inner decompressor writes the bytes of `stream`, of which `avail n` can be decompressed from
`n` bytes of the input. It writes as many as there is room for, reads all input if it could write
more, and is done when everything is written and read. `At d e i`: `e` bytes are written, and `i` bytes
read. -/
structure Greedy (inner : Decompressor σ) (input stream : List Byte) (avail : ℕ → ℕ)
    (At : σ → ℕ → ℕ → Prop) : Prop where
  mono : ∀ {n m}, n ≤ m → m ≤ input.length → avail n ≤ avail m
  le : ∀ {n}, n ≤ input.length → avail n ≤ stream.length
  writes : ∀ {d e i n} (room : ℕ), At d e i → n ≤ input.length → i ≤ n → e ≤ avail n → ∃ d' i',
    inner.decompress d (input.take n) room i =
        some (d', (stream.drop e).take (min room (avail n - e)), i') ∧
      At d' (e + min room (avail n - e)) i' ∧ i' ≤ n ∧
      (avail n < e + room ∨ avail n = e → i' = n)
  done : ∀ {d e i}, At d e i → (inner.done d = true ↔ e = stream.length ∧ i = input.length)

/-! ## Bytes of the packed data -/

theorem getD_of_drop {l packed : List Byte} {r t k j : ℕ} (h : l.drop r = (packed.drop t).take k)
    (hj : j < k) : l.getD (r + j) 0 = packed.getD (t + j) 0 := by
  have hget : (l.drop r)[j]? = ((packed.drop t).take k)[j]? := by rw [h]
  rw [List.getElem?_drop, List.getElem?_take_of_lt hj, List.getElem?_drop] at hget
  rw [List.getD_eq_getElem?_getD, hget, ← List.getD_eq_getElem?_getD]

theorem word_of_drop {l packed : List Byte} {r t k : ℕ} (h : l.drop r = (packed.drop t).take k)
    (hk : 4 ≤ k) : word l r = word packed t := by
  have hzero : l.getD r 0 = packed.getD t 0 := @getD_of_drop l packed r t k 0 h (by omega)
  simp only [word, hzero, getD_of_drop h (show 1 < k by omega),
    getD_of_drop h (show 2 < k by omega), getD_of_drop h (show 3 < k by omega)]

theorem seedAt_of_drop {l packed : List Byte} {r t k : ℕ} (h : l.drop r = (packed.drop t).take k)
    (hk : 4 + seedBytes ≤ k) {i : ℕ} (hi : i < seedSize) :
    seedAt l (r + 4) i = seedAt packed (t + 4) i := by
  have hbyte : ∀ b < 4, l.getD (r + 4 + 4 * i + b) 0 = packed.getD (t + 4 + 4 * i + b) 0 := by
    intro b hb
    simp only [seedBytes, seedSize] at hk hi
    have hget := getD_of_drop h (show 4 + 4 * i + b < k by omega)
    rwa [← Nat.add_assoc, ← Nat.add_assoc, ← Nat.add_assoc, ← Nat.add_assoc] at hget
  have hzero := hbyte 0 (by decide)
  simp only [Nat.add_zero] at hzero
  simp only [seedAt, dataWord, hzero, hbyte 1 (by decide), hbyte 2 (by decide),
    hbyte 3 (by decide)]

theorem setSeed_congr {seed seed' : Seed} (h : ∀ i < seedSize, seed i = seed' i) :
    setSeed seed = setSeed seed' := by
  have hbuffer : seedBuffer seed (fun _ => 0) = seedBuffer seed' fun _ => 0 := by
    funext i
    simp only [seedBuffer]
    split
    · rename_i hi
      rw [h i hi]
    · rfl
  rw [setSeed, setSeed, hbuffer]

theorem four_le_headerLength (packed : List Byte) (t : ℕ) : 4 ≤ headerLength packed t := by
  rw [headerLength]
  split <;> omega

/-! ## The position of a state -/

section Position

variable {inner : Decompressor σ} {input decompressed stream : List Byte} {avail : ℕ → ℕ}
  {At : σ → ℕ → ℕ → Prop} {limit n c : ℕ}

/-- The generator stands where the position says. -/
def Mode (s : State σ) (p : Pos) : Prop :=
  match p.junk with
  | none => s.junk = false
  | some (seed, q) => s.junk = true ∧ LaggedFibonacciGenerator.At (firstWords seed) q s.lfg

/-- **The state is at the position** in the packed data: what was decompressed already, and the
stream of the inner decompressor. -/
structure Rel (decompressed stream : List Byte) (avail : ℕ → ℕ) (At : σ → ℕ → ℕ → Prop)
    (limit n c : ℕ) (s : State σ) (p : Pos) : Prop where
  packedSize : s.rvzPackedSize = limit
  outSize : s.out.size = c
  written : s.out.written = p.out
  fits : p.out.length ≤ c
  size : s.size = p.size
  dataOffset : s.dataOffset = p.dataOffset
  mode : p.size ≠ 0 → Mode s p
  read_le : s.decompressedBytesRead ≤ s.decompressed.written.length
  fetched : p.parsed + (s.decompressed.written.length - s.decompressedBytesRead) = s.bytesRead
  pending : s.decompressed.written.drop s.decompressedBytesRead =
    ((decompressed ++ stream).drop p.parsed).take
      (s.decompressed.written.length - s.decompressedBytesRead)
  start : decompressed.length ≤ s.bytesRead
  bounded : s.bytesRead ≤ limit
  inner : At s.decompressor (s.bytesRead - decompressed.length) s.inBytesRead
  inRead : s.inBytesRead ≤ n
  available : s.bytesRead ≤ decompressed.length + avail n
  buffer : s.decompressed.size = s.decompressed.written.length ∨
    p.size = 0 ∧ s.decompressed.written.length <
        s.decompressedBytesRead + headerLength (decompressed ++ stream) p.parsed ∧
      s.decompressed.size ≤ s.decompressedBytesRead +
        if s.decompressed.written.length < s.decompressedBytesRead + 4 then 4
        else headerLength (decompressed ++ stream) p.parsed

theorem drop_append_stream {e k : ℕ} (h : decompressed.length ≤ k) (he : k - decompressed.length = e) :
    stream.drop e = (decompressed ++ stream).drop k := by
  rw [List.drop_append, List.drop_eq_nil_of_le h, List.nil_append, he]

/-- **The inner decompressor writes to the buffer.** -/
theorem readToDecompressed_spec (hg : Greedy inner input stream avail At) {s : State σ} {p : Pos}
    (h : Rel decompressed stream avail At limit n c s p) (hn : n ≤ input.length)
    (hsize : p.size = 0) {L k m : ℕ}
    (hL : L = 4 ∨ L = headerLength (decompressed ++ stream) p.parsed ∧
      s.decompressedBytesRead + 4 ≤ s.decompressed.written.length)
    (hsum : k + m = s.decompressedBytesRead + L) :
    (∃ s', readToDecompressed inner (input.take n) s k m = (some false, s') ∧
      limit < min (decompressed.length + avail n) (p.parsed + L)) ∨
    (∃ s', readToDecompressed inner (input.take n) s k m = (some true, s') ∧
      Rel decompressed stream avail At limit n c s' p ∧
      decompressed.length + avail n < p.parsed + L ∧ s'.inBytesRead = n ∧
      s'.bytesRead = decompressed.length + avail n) ∨
    ∃ s', readToDecompressed inner (input.take n) s k m = (none, s') ∧
      Rel decompressed stream avail At limit n c s' p ∧
      s'.decompressedBytesRead = s.decompressedBytesRead ∧
      s.decompressedBytesRead + L ≤ s'.decompressed.written.length ∧ s'.junk = s.junk := by
  have hfour := four_le_headerLength (decompressed ++ stream) p.parsed
  have hLle : L ≤ headerLength (decompressed ++ stream) p.parsed := by
    rcases hL with rfl | ⟨rfl, -⟩
    · exact hfour
    · exact le_rfl
  have hread := h.read_le
  have hfetched := h.fetched
  have hstart := h.start
  have havailable := h.available
  by_cases hlt : s.decompressed.written.length < s.decompressedBytesRead + L
  · have hmax : max s.decompressed.size (s.decompressedBytesRead + L) =
        s.decompressedBytesRead + L := by
      refine max_eq_right ?_
      rcases h.buffer with hbuffer | ⟨-, -, hbuffer⟩
      · omega
      · split at hbuffer
        · omega
        · rcases hL with rfl | ⟨rfl, -⟩
          · omega
          · exact hbuffer
    obtain ⟨d', i', hwrites, hat, hi', hall⟩ := hg.writes
      (s.decompressedBytesRead + L - s.decompressed.written.length) h.inner hn h.inRead
      (by omega)
    have hlength : ((stream.drop (s.bytesRead - decompressed.length)).take
        (min (s.decompressedBytesRead + L - s.decompressed.written.length)
          (avail n - (s.bytesRead - decompressed.length)))).length =
        min (s.decompressedBytesRead + L - s.decompressed.written.length)
          (avail n - (s.bytesRead - decompressed.length)) := by
      have hle := hg.le hn
      rw [List.length_take, List.length_drop]
      omega
    set bytes := (stream.drop (s.bytesRead - decompressed.length)).take
      (min (s.decompressedBytesRead + L - s.decompressed.written.length)
        (avail n - (s.bytesRead - decompressed.length))) with hbytes
    have hcall : readToDecompressed inner (input.take n) s k m =
        if s.rvzPackedSize < s.bytesRead + bytes.length then
          (some false,
            { s with
              decompressor := d'
              decompressed := ⟨s.decompressedBytesRead + L, s.decompressed.written ++ bytes⟩
              bytesRead := s.bytesRead + bytes.length
              inBytesRead := i' })
        else if (s.decompressed.written ++ bytes).length < s.decompressedBytesRead + L then
          (some true,
            { s with
              decompressor := d'
              decompressed := ⟨s.decompressedBytesRead + L, s.decompressed.written ++ bytes⟩
              bytesRead := s.bytesRead + bytes.length
              inBytesRead := i' })
        else
          (none,
            { s with
              decompressor := d'
              decompressed := ⟨s.decompressedBytesRead + L, s.decompressed.written ++ bytes⟩
              bytesRead := s.bytesRead + bytes.length
              inBytesRead := i' }) := by
      rw [readToDecompressed]
      simp only [hsum, hmax, if_pos hlt, hwrites]
    have hpacked := h.packedSize
    rw [hcall]
    have hrel : ¬s.rvzPackedSize < s.bytesRead + bytes.length →
        Rel decompressed stream avail At limit n c
          { s with
            decompressor := d'
            decompressed := ⟨s.decompressedBytesRead + L, s.decompressed.written ++ bytes⟩
            bytesRead := s.bytesRead + bytes.length
            inBytesRead := i' } p := by
      intro hlimit
      have hdrop : stream.drop (s.bytesRead - decompressed.length) =
          ((decompressed ++ stream).drop p.parsed).drop
            (s.decompressed.written.length - s.decompressedBytesRead) := by
        rw [drop_append_stream hstart rfl, List.drop_drop, hfetched]
      refine
        { packedSize := h.packedSize
          outSize := h.outSize
          written := h.written
          fits := h.fits
          size := h.size
          dataOffset := h.dataOffset
          mode := h.mode
          read_le := ?_
          fetched := ?_
          pending := ?_
          start := ?_
          bounded := ?_
          inner := ?_
          inRead := hi'
          available := ?_
          buffer := ?_ }
      · simp only [List.length_append]
        omega
      · simp only [List.length_append]
        omega
      · simp only [List.length_append]
        rw [List.drop_append_of_le_length hread, h.pending, Nat.sub_add_comm hread, List.take_add,
          ← hdrop, hbytes, hlength]
      · exact Nat.le_add_right_of_le hstart
      · simp only
        omega
      · simp only
        rw [Nat.sub_add_comm hstart, hlength]
        exact hat
      · simp only
        omega
      · simp only [List.length_append]
        by_cases hfull : s.decompressed.written.length + bytes.length = s.decompressedBytesRead + L
        · exact .inl hfull.symm
        · refine .inr ⟨hsize, by omega, ?_⟩
          split
          · rcases hL with rfl | ⟨-, hle⟩
            · exact le_rfl
            · omega
          · omega
    split
    · rename_i hlimit
      refine .inl ⟨_, rfl, ?_⟩
      omega
    · rename_i hlimit
      split
      · rename_i hshort
        rw [List.length_append] at hshort
        refine .inr (.inl ⟨_, rfl, hrel hlimit, by omega, hall (by omega), ?_⟩)
        simp only
        omega
      · rename_i hlong
        rw [List.length_append] at hlong
        refine .inr (.inr ⟨_, rfl, hrel hlimit, rfl, ?_, rfl⟩)
        simp only [List.length_append]
        omega
  · have hcall : readToDecompressed inner (input.take n) s k m =
        (none, { s with
          decompressed := ⟨max s.decompressed.size (s.decompressedBytesRead + L),
            s.decompressed.written⟩ }) := by
      rw [readToDecompressed]
      simp only [hsum, if_neg hlt]
    refine .inr (.inr ⟨_, hcall, ?_, rfl, Nat.le_of_not_lt hlt, rfl⟩)
    refine { h with buffer := ?_ }
    simp only
    rcases h.buffer with hbuffer | ⟨-, hshort, hbuffer⟩
    · exact .inl (by omega)
    · rw [if_neg (by omega)] at hbuffer
      refine .inr ⟨hsize, hshort, ?_⟩
      rw [if_neg (by omega)]
      omega

theorem Rel.resetBuffer {s : State σ} {p : Pos}
    (h : Rel decompressed stream avail At limit n c s p) (hsize : p.size = 0) :
    Rel decompressed stream avail At limit n c s.resetBuffer p := by
  have hfour := four_le_headerLength (decompressed ++ stream) p.parsed
  rw [State.resetBuffer]
  split
  · rename_i hempty
    have hfetched := h.fetched
    rw [hempty, Nat.sub_self] at hfetched
    refine { h with read_le := le_rfl, fetched := hfetched, pending := rfl, buffer := ?_ }
    refine .inr ⟨hsize, ?_, ?_⟩
    · simp only [List.length_nil]
      omega
    · simp
  · exact h

/-- **The header is parsed** when it is in the buffer. -/
theorem Rel.header {s : State σ} {p : Pos} (h : Rel decompressed stream avail At limit n c s p)
    (hsize : p.size = 0)
    (hlong : s.decompressedBytesRead + headerLength (decompressed ++ stream) p.parsed ≤
      s.decompressed.written.length) {s' : State σ}
    (hs' : s' = { s with
      decompressedBytesRead :=
        s.decompressedBytesRead + headerLength (decompressed ++ stream) p.parsed
      size := segmentSize (word (decompressed ++ stream) p.parsed)
      junk := s'.junk
      lfg := s'.lfg }) (hmode : Mode s' (p.next (decompressed ++ stream))) :
    Rel decompressed stream avail At limit n c s' (p.next (decompressed ++ stream)) := by
  have hnext : p.next (decompressed ++ stream) =
      { p with
        parsed := p.parsed + headerLength (decompressed ++ stream) p.parsed
        size := segmentSize (word (decompressed ++ stream) p.parsed)
        junk :=
          if isJunk (word (decompressed ++ stream) p.parsed) then
            some (seedAt (decompressed ++ stream) (p.parsed + 4), p.dataOffset % blockSize)
          else none } := by
    rw [Pos.next, if_pos hsize]
  rw [hnext] at hmode ⊢
  have hfetched := h.fetched
  rw [hs']
  refine { h with size := rfl, mode := fun _ => ?_, read_le := hlong, fetched := ?_, pending := ?_,
                  buffer := ?_ }
  · rw [← hs']
    exact hmode
  · simp only
    omega
  · simp only
    rw [← List.drop_drop, h.pending, List.drop_take, List.drop_drop, Nat.sub_sub]
  · simp only
    rcases h.buffer with hbuffer | ⟨-, hshort, -⟩
    · exact .inl hbuffer
    · omega

/-- **A header is read**, or all of the input is, or more than the limit. -/
theorem readHeader_spec (hg : Greedy inner input stream avail At) {s : State σ} {p : Pos}
    (h : Rel decompressed stream avail At limit n c s p) (hn : n ≤ input.length)
    (hsize : p.size = 0) :
    (∃ s', readHeader inner (input.take n) s = (some false, s') ∧
      limit < min (decompressed.length + avail n) (p.need (decompressed ++ stream))) ∨
    (∃ s', readHeader inner (input.take n) s = (some true, s') ∧
      Rel decompressed stream avail At limit n c s' p ∧
      decompressed.length + avail n < p.need (decompressed ++ stream) ∧ s'.inBytesRead = n ∧
      s'.bytesRead = decompressed.length + avail n) ∨
    ∃ s', readHeader inner (input.take n) s = (none, s') ∧
      Rel decompressed stream avail At limit n c s' (p.next (decompressed ++ stream)) ∧
      Mode s' (p.next (decompressed ++ stream)) ∧
      p.need (decompressed ++ stream) ≤ s'.bytesRead := by
  have hfour := four_le_headerLength (decompressed ++ stream) p.parsed
  have hneed : p.need (decompressed ++ stream) =
      p.parsed + headerLength (decompressed ++ stream) p.parsed := by
    rw [Pos.need, if_pos hsize]
  rw [hneed]
  have h₁ := h.resetBuffer hsize
  unfold readHeader
  rcases readToDecompressed_spec hg h₁ hn hsize (.inl rfl) rfl with
    ⟨s₂, hread, hlimit⟩ | ⟨s₂, hread, h₂, hshort, hall⟩ | ⟨s₂, hread, h₂, hpos, hlong, -⟩
  · simp only [hread]
    exact .inl ⟨_, rfl, by omega⟩
  · simp only [hread]
    exact .inr (.inl ⟨_, rfl, h₂, by omega, hall⟩)
  · have hword : word s₂.decompressed.written s₂.decompressedBytesRead =
        word (decompressed ++ stream) p.parsed := word_of_drop h₂.pending (by omega)
    have hjunk : Rel decompressed stream avail At limit n c
        { s₂ with junk := isJunk (word (decompressed ++ stream) p.parsed) } p :=
      { h₂ with mode := fun hne => absurd hsize hne }
    simp only [hread, hword]
    by_cases hisJunk : isJunk (word (decompressed ++ stream) p.parsed) = true
    · have hlength : headerLength (decompressed ++ stream) p.parsed = 4 + seedBytes := by
        rw [headerLength, if_pos hisJunk]
      rw [if_pos hisJunk]
      rcases readToDecompressed_spec hg hjunk hn hsize
          (.inr ⟨rfl, show s₂.decompressedBytesRead + 4 ≤ _ by rw [hpos]; exact hlong⟩)
          (show s₂.decompressedBytesRead + 4 + seedBytes = s₂.decompressedBytesRead + _ by omega)
        with ⟨s₃, hread₃, hlimit⟩ | ⟨s₃, hread₃, h₃, hshort, hall⟩ |
          ⟨s₃, hread₃, h₃, hpos₃, hlong₃, hjunk₃⟩
      · simp only [hread₃]
        exact .inl ⟨_, rfl, hlimit⟩
      · simp only [hread₃]
        exact .inr (.inl ⟨_, rfl, h₃, hshort, hall⟩)
      · simp only [hread₃]
        have hlong' : s₃.decompressedBytesRead + headerLength (decompressed ++ stream) p.parsed ≤
            s₃.decompressed.written.length := by
          rw [hpos₃]
          exact hlong₃
        have hmode : Mode
            { s₃ with
              lfg := (setSeed (seedAt s₃.decompressed.written
                (s₃.decompressedBytesRead + 4))).forwardBytes (s₃.dataOffset % blockSize)
              decompressedBytesRead := s₃.decompressedBytesRead + seedBytes + 4
              size := segmentSize (word (decompressed ++ stream) p.parsed) }
            (p.next (decompressed ++ stream)) := by
          have hseed : setSeed (seedAt s₃.decompressed.written (s₃.decompressedBytesRead + 4)) =
              setSeed (seedAt (decompressed ++ stream) (p.parsed + 4)) :=
            setSeed_congr fun i hi => seedAt_of_drop h₃.pending (by omega) hi
          rw [Pos.next, if_pos hsize, if_pos hisJunk]
          refine ⟨?_, ?_⟩
          · rw [← hisJunk]
            exact hjunk₃
          · simp only
            rw [hseed, h₃.dataOffset]
            exact setSeed_forwardBytes _ _
        have hrel := h₃.header hsize hlong' (by
          simp only [hlength]
          rw [Nat.add_assoc, Nat.add_comm seedBytes 4]) hmode
        refine .inr (.inr ⟨_, rfl, hrel, hmode, ?_⟩)
        have hfetched := h₃.fetched
        simp only
        omega
    · have hlength : headerLength (decompressed ++ stream) p.parsed = 4 := by
        rw [headerLength, if_neg hisJunk]
      rw [if_neg hisJunk]
      have hmode : Mode
          { s₂ with
            junk := isJunk (word (decompressed ++ stream) p.parsed)
            decompressedBytesRead := s₂.decompressedBytesRead + 4
            size := segmentSize (word (decompressed ++ stream) p.parsed) }
          (p.next (decompressed ++ stream)) := by
        rw [Pos.next, if_pos hsize, if_neg hisJunk]
        exact Bool.eq_false_iff.mpr hisJunk
      have hlong' : s₂.decompressedBytesRead + headerLength (decompressed ++ stream) p.parsed ≤
          s₂.decompressed.written.length := by
        rw [hlength, hpos]
        exact hlong
      have hrel := h₂.header hsize hlong' (by simp only [hlength]) hmode
      refine .inr (.inr ⟨_, rfl, hrel, hmode, ?_⟩)
      have hfetched := h₂.fetched
      simp only
      omega

end Position

end RVZPackDecompressor
