import PrimedSteam.DiscIO.RVZHeader

/-!
# Unpacking does not depend on how it is fed

* `writeBytes_spec`, `loop_spec`, `decompress_spec`: a call moves the position as far as the input
  and the output allow.
* `feed_eq_once`: calls with growing inputs and outputs end like one call with everything.
* `feed_differs`: without the conditions they do not.
-/

set_option autoImplicit false

namespace RVZPackDecompressor

open LaggedFibonacciGenerator

variable {σ : Type*} {inner : Decompressor σ} {input decompressed stream : List Byte}
  {avail : ℕ → ℕ} {At : σ → ℕ → ℕ → Prop} {limit n c : ℕ}

/-! ## One call -/

theorem Rel.parsed_le {s : State σ} {p : Pos} (h : Rel decompressed stream avail At limit n c s p) :
    p.parsed ≤ s.bytesRead := by
  have hfetched := h.fetched
  omega

/-- **Bytes of the segment are written**, as many as the input and the output allow. -/
theorem writeBytes_spec (hg : Greedy inner input stream avail At) {s : State σ} {p : Pos}
    (h : Rel decompressed stream avail At limit n c s p) (hn : n ≤ input.length)
    (hmode : Mode s p) (hroom : p.out.length < c) (hempty : p.junk = none → p.size ≠ 0) :
    (∃ s', writeBytes inner (input.take n) s = (some false, s') ∧ ∃ p',
      Moves (decompressed ++ stream) limit (decompressed.length + avail n) c p p' ∧
        p'.Fails (decompressed ++ stream) limit (decompressed.length + avail n) c) ∨
    (∃ s', writeBytes inner (input.take n) s = (some true, s') ∧
      Rel decompressed stream avail At limit n c s' p ∧
      decompressed.length + avail n < p.need (decompressed ++ stream) ∧ s'.inBytesRead = n ∧
      s'.bytesRead = decompressed.length + avail n) ∨
    ∃ s' p', writeBytes inner (input.take n) s = (none, s') ∧
      Moves (decompressed ++ stream) limit (decompressed.length + avail n) c p p' ∧
      Rel decompressed stream avail At limit n c s' p' ∧ p.parsed ≤ p'.parsed ∧
      p.out.length + min p.size 1 ≤ p'.out.length := by
  have hread := h.read_le
  have hfetched := h.fetched
  have hbounded := h.bounded
  have havailable := h.available
  have hstart := h.start
  have hle := hg.le hn
  have hpacked : (decompressed ++ stream).length = decompressed.length + stream.length :=
    List.length_append
  obtain ⟨m, hm⟩ : ∃ m, m = min p.size (c - p.out.length) := ⟨_, rfl⟩
  have hwrite : min s.size (s.out.size - s.out.written.length) = m := by
    rw [h.size, h.outSize, h.written, hm]
  rw [writeBytes]
  simp only [hwrite]
  clear hwrite
  cases hjunk : p.junk with
  | some generator =>
    obtain ⟨seed, q⟩ := generator
    rw [Mode, hjunk] at hmode
    obtain ⟨hflag, hat⟩ := hmode
    have hlength : (s.lfg.getBytes m).1.length = m := by
      rw [hat.getBytes m, List.length_map, List.length_range]
    rw [hflag, if_pos rfl]
    refine .inr (.inr ⟨_, _, rfl, moves_junk hjunk (show m ≤ p.size by omega) (by omega)
      (by omega) (by omega), ?_, le_rfl, ?_⟩)
    · refine { h with written := ?_, fits := ?_, size := ?_, dataOffset := ?_, mode := ?_,
                      buffer := ?_ }
      · simp only [State.advance]
        rw [h.written, hat.getBytes m]
      · simp only [List.length_append, List.length_map, List.length_range]
        omega
      · simp only [State.advance]
        rw [hlength, h.size]
      · simp only [State.advance]
        rw [hlength, h.dataOffset]
      · intro _
        exact ⟨hflag, hat.after_getBytes m⟩
      · rcases h.buffer with hbuffer | ⟨hsize, hbuffer⟩
        · exact .inl hbuffer
        · exact .inr ⟨by simp only [hsize, Nat.zero_sub], hbuffer⟩
    · simp only [List.length_append, List.length_map, List.length_range]
      omega
  | none =>
    have hsize : p.size ≠ 0 := hempty hjunk
    rw [Mode, hjunk] at hmode
    have hbuffer : s.decompressed.size = s.decompressed.written.length := by
      rcases h.buffer with hbuffer | ⟨hzero, -⟩
      · exact hbuffer
      · exact absurd hzero hsize
    have hneed : p.need (decompressed ++ stream) = p.parsed + 1 := by
      rw [Pos.need, if_neg hsize, hjunk]
      rfl
    simp only [hmode, Bool.false_eq_true, if_false]
    by_cases hpending : s.decompressed.written.length ≠ s.decompressedBytesRead
    · rw [if_pos hpending]
      obtain ⟨k, hk⟩ : ∃ k, k = min m (s.decompressed.written.length - s.decompressedBytesRead) :=
        ⟨_, rfl⟩
      have hbytes : (s.decompressed.written.drop s.decompressedBytesRead).take m =
          ((decompressed ++ stream).drop p.parsed).take k := by
        rw [h.pending, List.take_take, ← hk]
      have hlength : (((decompressed ++ stream).drop p.parsed).take k).length = k := by
        rw [List.length_take, List.length_drop, hpacked]
        omega
      simp only [hbytes, hlength]
      refine .inr (.inr ⟨_, _, rfl, moves_literal hjunk (show k ≤ p.size by omega) (by omega)
        (by omega) (by omega) (by omega), ?_, Nat.le_add_right _ _, ?_⟩)
      · refine { h with written := ?_, fits := ?_, size := ?_, dataOffset := ?_, mode := ?_,
                        read_le := ?_, fetched := ?_, pending := ?_, buffer := .inl hbuffer }
        · simp only [State.advance]
          rw [h.written]
        · simp only [List.length_append, hlength]
          omega
        · simp only [State.advance]
          rw [hlength, h.size]
        · simp only [State.advance]
          rw [hlength, h.dataOffset]
        · intro _
          rw [Mode, hjunk]
          exact hmode
        · simp only [State.advance]
          omega
        · simp only [State.advance]
          omega
        · simp only [State.advance]
          rw [← List.drop_drop, h.pending, List.drop_take, List.drop_drop, Nat.sub_sub]
      · simp only [List.length_append, hlength]
        omega
    · rw [if_neg hpending]
      have hnone : s.decompressed.written.length - s.decompressedBytesRead = 0 := by omega
      have hparsed : p.parsed = s.bytesRead := by omega
      obtain ⟨d', i', hwrites, hat, hi', hall⟩ := hg.writes m h.inner hn h.inRead
        (by omega)
      obtain ⟨k, hk⟩ : ∃ k, k = min m (avail n - (s.bytesRead - decompressed.length)) := ⟨_, rfl⟩
      rw [← hk] at hwrites hat
      have hbytes : (stream.drop (s.bytesRead - decompressed.length)).take k =
          ((decompressed ++ stream).drop p.parsed).take k := by
        rw [drop_append_stream hstart rfl, hparsed]
      have hlength : (((decompressed ++ stream).drop p.parsed).take k).length = k := by
        rw [List.length_take, List.length_drop, hpacked]
        omega
      have hpackedSize := h.packedSize
      simp only [hwrites, hbytes, hlength]
      by_cases hlimit : s.rvzPackedSize < s.bytesRead + k
      · rw [if_pos hlimit]
        refine .inl ⟨_, rfl, _, moves_literal hjunk (show limit - p.parsed ≤ p.size by omega)
          (by omega) (by omega) (by omega) (by omega), ?_, ?_⟩
        · simp only [List.length_append, List.length_take, List.length_drop, hpacked]
          omega
        · have hrest : p.size - (limit - p.parsed) ≠ 0 := by omega
          rw [Pos.need, if_neg hrest, hjunk]
          simp only [Option.isSome_none, Bool.false_eq_true, if_false]
          omega
      · rw [if_neg hlimit]
        by_cases hzero : k = 0
        · rw [if_pos hzero]
          refine .inr (.inl ⟨_, rfl, ?_, by omega, hall (by omega), by simp only; omega⟩)
          rw [hzero] at hat ⊢
          have hmode' : Mode
              { s with decompressor := d', bytesRead := s.bytesRead + 0, junk := false,
                       inBytesRead := i' } p := by
            simp only [Mode, hjunk]
          exact { h with mode := fun _ => hmode', inner := hat, inRead := hi' }
        · rw [if_neg hzero]
          refine .inr (.inr ⟨_, _, rfl, moves_literal hjunk (show k ≤ p.size by omega) (by omega)
            (by omega) (by omega) (by omega), ?_, Nat.le_add_right _ _, ?_⟩)
          · refine { h with written := ?_, fits := ?_, size := ?_, dataOffset := ?_, mode := ?_,
                            fetched := ?_, pending := ?_, start := ?_, bounded := ?_, inner := ?_,
                            inRead := hi', available := ?_, buffer := .inl hbuffer }
            · simp only [State.advance]
              rw [h.written]
            · simp only [List.length_append, hlength]
              omega
            · simp only [State.advance]
              rw [hlength, h.size]
            · simp only [State.advance]
              rw [hlength, h.dataOffset]
            · intro _
              simp only [Mode, hjunk, State.advance]
            · simp only [State.advance]
              omega
            · simp only [State.advance]
              rw [hnone, List.take_zero]
              exact List.drop_eq_nil_of_le (by omega)
            · exact Nat.le_add_right_of_le hstart
            · simp only [State.advance]
              omega
            · simp only [State.advance]
              rw [Nat.sub_add_comm hstart]
              exact hat
            · simp only [State.advance]
              omega
          · simp only [List.length_append, hlength]
            omega

theorem segmentSize_ne_zero {w : Word} (hjunk : ¬isJunk w = true) (hw : w ≠ 0) :
    segmentSize w ≠ 0 := by
  intro hzero
  refine hw (BitVec.eq_of_toNat_eq ?_)
  have hlt : 2 * w.toNat < 2 ^ 32 :=
    BitVec.msb_eq_false_iff_two_mul_lt.mp (Bool.eq_false_iff.mpr hjunk)
  have hand : w.toNat % 2 ^ 31 = 0 := by
    rw [← Nat.and_two_pow_sub_one_eq_mod]
    rw [segmentSize, BitVec.toNat_and] at hzero
    exact hzero
  rw [Nat.mod_eq_of_lt (by omega)] at hand
  exact hand

theorem done_iff (s : State σ) : done inner s = true ↔ s.size = 0 ∧ s.rvzPackedSize = s.bytesRead ∧
    s.decompressed.written.length = s.decompressedBytesRead ∧ inner.done s.decompressor = true := by
  simp only [done, Bool.and_eq_true, beq_iff_eq, and_assoc]

/-- How the loop ends, for a position that it moves from. -/
def LoopEnds (inner : Decompressor σ) (decompressed stream : List Byte) (avail : ℕ → ℕ)
    (At : σ → ℕ → ℕ → Prop) (limit n c : ℕ) (p : Pos) (r : Option Bool) (s' : State σ) : Prop :=
  ∃ p', Moves (decompressed ++ stream) limit (decompressed.length + avail n) c p p' ∧
    match r with
    | some false => p'.Fails (decompressed ++ stream) limit (decompressed.length + avail n) c
    | some true => Rel decompressed stream avail At limit n c s' p' ∧
        decompressed.length + avail n < p'.need (decompressed ++ stream) ∧ s'.inBytesRead = n ∧
        s'.bytesRead = decompressed.length + avail n
    | none => Rel decompressed stream avail At limit n c s' p' ∧
        (p'.out.length = c ∨ done inner s' = true)

theorem LoopEnds.trans {p q : Pos} {r : Option Bool} {s' : State σ}
    (hmoves : Moves (decompressed ++ stream) limit (decompressed.length + avail n) c p q)
    (h : LoopEnds inner decompressed stream avail At limit n c q r s') :
    LoopEnds inner decompressed stream avail At limit n c p r s' := by
  obtain ⟨p', hmoves', hend⟩ := h
  exact ⟨p', hmoves.trans hmoves', hend⟩

/-- **The loop goes as far as the input and the output allow.** -/
theorem loop_spec (hg : Greedy inner input stream avail At) (hn : n ≤ input.length) {fuel : ℕ}
    {s : State σ} {p : Pos} (h : Rel decompressed stream avail At limit n c s p)
    (hne : p.NoEmptyLiteral (decompressed ++ stream))
    (hfuel : c - p.out.length + (limit - p.parsed) < fuel) :
    ∃ r s', loop inner (input.take n) fuel s = some (r, s') ∧
      LoopEnds inner decompressed stream avail At limit n c p r s' := by
  induction fuel generalizing s p with
  | zero => exact absurd hfuel (Nat.not_lt_zero _)
  | succ fuel ih =>
    have hout : s.out.size = s.out.written.length ↔ p.out.length = c := by
      rw [h.outSize, h.written]
      exact eq_comm
    rw [loop]
    by_cases hcond : s.out.size ≠ s.out.written.length ∧ done inner s = false
    · rw [if_pos hcond]
      have hroom : p.out.length < c := lt_of_le_of_ne h.fits (mt hout.mpr hcond.1)
      -- the rest of a turn, from a position in a segment
      have hwrite : ∀ {s₁ : State σ} {q : Pos},
          Moves (decompressed ++ stream) limit (decompressed.length + avail n) c p q →
          Rel decompressed stream avail At limit n c s₁ q → Mode s₁ q → q.out.length < c →
          (q.junk = none → q.size ≠ 0) →
          (∀ p₂ : Pos, q.parsed ≤ p₂.parsed → q.out.length + min q.size 1 ≤ p₂.out.length →
            p₂.parsed ≤ limit → p₂.out.length ≤ c →
            c - p₂.out.length + (limit - p₂.parsed) < c - p.out.length + (limit - p.parsed)) →
          ∃ r s', ((∃ result, writeBytes inner (input.take n) s₁ = (some result, s') ∧
              r = some result) ∨
            ∃ s₂, writeBytes inner (input.take n) s₁ = (none, s₂) ∧
              loop inner (input.take n) fuel s₂ = some (r, s')) ∧
            LoopEnds inner decompressed stream avail At limit n c p r s' := by
        intro s₁ q hmoves hrel hmode hq hempty hless
        rcases writeBytes_spec hg hrel hn hmode hq hempty with
          ⟨s', hcall, p', hmoves', hfails⟩ | ⟨s', hcall, hrel', hneed, hall, hbytes⟩ |
            ⟨s', p', hcall, hmoves', hrel', hparsed, hlonger⟩
        · exact ⟨_, s', .inl ⟨_, hcall, rfl⟩, p', hmoves.trans hmoves', hfails⟩
        · exact ⟨_, s', .inl ⟨_, hcall, rfl⟩, q, hmoves, hrel', hneed, hall, hbytes⟩
        · have hlimit : p'.parsed ≤ limit := hrel'.parsed_le.trans hrel'.bounded
          obtain ⟨r, s'', hloop, hends⟩ := ih hrel' ((hmoves.trans hmoves').noEmptyLiteral hne)
            (by have hmeasure := hless p' hparsed hlonger hlimit hrel'.fits
                omega)
          exact ⟨r, s'', .inr ⟨s', hcall, hloop⟩, hends.trans (hmoves.trans hmoves')⟩
      by_cases hsize : p.size = 0
      · rw [if_pos (h.size.trans hsize)]
        rcases readHeader_spec hg h hn hsize with ⟨s', hcall, hlimit⟩ |
          ⟨s', hcall, hrel, hneed, hall, hbytes⟩ | ⟨s₁, hcall, hrel, hmode, hneed⟩
        · rw [hcall]
          exact ⟨_, s', rfl, p, .refl p, hroom, hlimit⟩
        · rw [hcall]
          exact ⟨_, s', rfl, p, .refl p, hrel, hneed, hall, hbytes⟩
        · rw [hcall]
          have hallowed : p.Allowed (decompressed ++ stream) limit
              (decompressed.length + avail n) c :=
            ⟨hroom, hneed.trans hrel.available, hneed.trans hrel.bounded⟩
          have hnext : (p.next (decompressed ++ stream)).out = p.out := by
            rw [Pos.next, if_pos hsize]
          have hlength := four_le_headerLength (decompressed ++ stream) p.parsed
          have hparsed : (p.next (decompressed ++ stream)).parsed =
              p.parsed + headerLength (decompressed ++ stream) p.parsed := by
            rw [Pos.next, if_pos hsize]
          have havailable := hrel.parsed_le.trans hrel.available
          have hle := hg.le hn
          have hempty : (p.next (decompressed ++ stream)).junk = none →
              (p.next (decompressed ++ stream)).size ≠ 0 := by
            rw [Pos.next, if_pos hsize]
            intro hjunk
            have hliteral : ¬isJunk (word (decompressed ++ stream) p.parsed) = true := by
              intro hisJunk
              simp only [if_pos hisJunk] at hjunk
              cases hjunk
            refine segmentSize_ne_zero hliteral (hne 0 hsize ?_)
            rw [List.length_append]
            simp only [Function.iterate_zero, id_eq]
            omega
          have hless : ∀ p₂ : Pos, (p.next (decompressed ++ stream)).parsed ≤ p₂.parsed →
              (p.next (decompressed ++ stream)).out.length +
                min (p.next (decompressed ++ stream)).size 1 ≤ p₂.out.length →
              p₂.parsed ≤ limit → p₂.out.length ≤ c →
              c - p₂.out.length + (limit - p₂.parsed) <
                c - p.out.length + (limit - p.parsed) := by
            intro p₂ hp₂ hout₂ hlimit hfits
            rw [hnext] at hout₂
            omega
          obtain ⟨r, s', hturn, hends⟩ :=
            hwrite (.step hallowed (.refl _)) hrel hmode (by rwa [hnext]) hempty hless
          refine ⟨r, s', ?_, hends⟩
          rcases hturn with ⟨result, hcall', rfl⟩ | ⟨s₂, hcall', hloop⟩
          · simp only [hcall']
          · simp only [hcall', hloop]
      · rw [if_neg (fun hzero => hsize (h.size.symm.trans hzero))]
        obtain ⟨r, s', hturn, hends⟩ := hwrite (.refl p) h (h.mode hsize) hroom (fun _ => hsize)
          fun p₂ hp₂ hout₂ hlimit hfits => by omega
        refine ⟨r, s', ?_, hends⟩
        rcases hturn with ⟨result, hcall, rfl⟩ | ⟨s₂, hcall, hloop⟩
        · simp only [hcall]
        · simp only [hcall, hloop]
    · rw [if_neg hcond]
      refine ⟨none, s, rfl, p, .refl p, h, ?_⟩
      by_cases hfull : p.out.length = c
      · exact .inl hfull
      · refine .inr ?_
        by_contra hnot
        exact hcond ⟨mt hout.mp hfull, Bool.eq_false_iff.mpr hnot⟩

/-- A call that succeeds: the position cannot move on, and when all packed data is fetched, the inner
decompressor has read all input or is done. -/
structure Stopped (inner : Decompressor σ) (decompressed stream : List Byte) (avail : ℕ → ℕ)
    (At : σ → ℕ → ℕ → Prop) (limit n c : ℕ) (s : State σ) (p : Pos) : Prop where
  rel : Rel decompressed stream avail At limit n c s p
  not_allowed : ¬p.Allowed (decompressed ++ stream) limit (decompressed.length + avail n) c
  not_fails : ¬p.Fails (decompressed ++ stream) limit (decompressed.length + avail n) c
  settled : s.bytesRead = decompressed.length + stream.length →
    done inner s = true ∨ s.inBytesRead = n

theorem decompress_spec (hg : Greedy inner input stream avail At) (hn : n ≤ input.length)
    {s : State σ} {p : Pos} (h : Rel decompressed stream avail At limit n c s p)
    (hne : p.NoEmptyLiteral (decompressed ++ stream)) :
    ∃ ok s', decompress inner (input.take n) s = some (ok, s') ∧ ∃ p',
      Moves (decompressed ++ stream) limit (decompressed.length + avail n) c p p' ∧
      if ok then Stopped inner decompressed stream avail At limit n c s' p'
      else p'.Fails (decompressed ++ stream) limit (decompressed.length + avail n) c := by
  have hle := hg.le hn
  have hlength : (input.take n).length = n := by
    rw [List.length_take]
    omega
  have hfuel : c - p.out.length + (limit - p.parsed) <
      s.out.size + s.rvzPackedSize + s.decompressed.written.length + 1 := by
    rw [h.outSize, h.packedSize]
    omega
  obtain ⟨r, s', hloop, p', hmoves, hend⟩ := loop_spec hg hn h hne hfuel
  rw [decompress, hloop, Option.map_some]
  cases r with
  | some result =>
    cases result with
    | false => exact ⟨false, s', rfl, p', hmoves, by simpa using hend⟩
    | true =>
      obtain ⟨hrel, hneed, hall, hbytes⟩ := hend
      refine ⟨true, s', rfl, p', hmoves, ?_⟩
      rw [if_pos rfl]
      refine ⟨hrel, fun hallowed => absurd hallowed.2.1 (Nat.not_le.mpr hneed), fun hfails => ?_,
        fun _ => .inr hall⟩
      have hbounded := hrel.bounded
      have hlimit := hfails.2
      omega
  | none =>
    obtain ⟨hrel, hstop⟩ := hend
    have hbounded := hrel.bounded
    have havailable := hrel.available
    have hstart := hrel.start
    -- with a full output nothing is allowed, and nothing fails
    by_cases hfull : p'.out.length = c
    · have hnot : ¬p'.out.length < c := by omega
      have hsize : s'.out.size = s'.out.written.length := by
        rw [hrel.outSize, hrel.written, hfull]
      by_cases hread : n = s'.inBytesRead
      · simp only [hlength, ne_eq, not_true_eq_false, ← hread, and_false, if_false]
        refine ⟨true, s', rfl, p', hmoves, ?_⟩
        rw [if_pos rfl]
        exact ⟨hrel, fun hallowed => hnot hallowed.1, fun hfails => hnot hfails.1,
          fun _ => .inr hread.symm⟩
      · obtain ⟨d', i', hwrites, hat, hi', hall⟩ := hg.writes 0 hrel.inner hn hrel.inRead
          (by omega)
        rw [Nat.zero_min, List.take_zero] at hwrites
        rw [Nat.zero_min, Nat.add_zero] at hat
        simp only [hlength, hsize, ne_eq, hread, not_false_eq_true, and_self, if_true, hwrites,
          List.append_nil]
        refine ⟨true, _, rfl, p', hmoves, ?_⟩
        rw [if_pos rfl]
        refine ⟨{ hrel with outSize := ?_, written := ?_, inner := hat, inRead := hi' },
          fun hallowed => hnot hallowed.1, fun hfails => hnot hfails.1,
          fun hbytes => .inr (hall (.inr ?_))⟩
        · rw [← hsize]
          exact hrel.outSize
        · exact hrel.written
        · simp only at hbytes
          omega
    · have hdone : done inner s' = true := hstop.resolve_left hfull
      have hsize : ¬(s'.out.size = s'.out.written.length ∧ (input.take n).length ≠ s'.inBytesRead) :=
        fun hcond => hfull (by
          have heq := hcond.1
          rw [hrel.outSize, hrel.written] at heq
          exact heq.symm)
      simp only [if_neg hsize]
      refine ⟨true, s', rfl, p', hmoves, ?_⟩
      rw [if_pos rfl]
      obtain ⟨hzero, hlimit, hempty, hinner⟩ := (done_iff s').mp hdone
      have hpacked := hrel.packedSize
      have hfetched := hrel.fetched
      have hall := ((hg.done hrel.inner).mp hinner).1
      have hfour := four_le_headerLength (decompressed ++ stream) p'.parsed
      have hneed : p'.need (decompressed ++ stream) =
          p'.parsed + headerLength (decompressed ++ stream) p'.parsed := by
        rw [Pos.need, if_pos (hrel.size.symm.trans hzero)]
      refine ⟨hrel, fun hallowed => ?_, fun hfails => ?_, fun _ => .inl hdone⟩
      · have hneedle := hallowed.2.2
        omega
      · have hlt := hfails.2
        omega

/-- **When the calls have all input**, the position says whether the decompressor is done. -/
theorem Stopped.done_iff (hg : Greedy inner input stream avail At) {s : State σ} {p : Pos}
    (h : Stopped inner decompressed stream avail At limit input.length c s p) :
    done inner s = true ↔ p.size = 0 ∧ p.parsed = decompressed.length + stream.length ∧
      limit = decompressed.length + stream.length := by
  have hfetched := h.rel.fetched
  have hpacked := h.rel.packedSize
  have hstart := h.rel.start
  have hread := h.rel.read_le
  have hle := hg.le le_rfl
  have havailable := h.rel.available
  refine ⟨fun hdone => ?_, fun ⟨hsize, hparsed, hlimit⟩ => ?_⟩
  · obtain ⟨hsize, hbytes, hempty, hinner⟩ := (RVZPackDecompressor.done_iff s).mp hdone
    have hall := ((hg.done h.rel.inner).mp hinner).1
    exact ⟨h.rel.size.symm.trans hsize, by omega, by omega⟩
  · rcases h.settled (by omega) with hdone | hinput
    · exact hdone
    · exact (RVZPackDecompressor.done_iff s).mpr ⟨h.rel.size.trans hsize, by omega, by omega,
        (hg.done h.rel.inner).mpr ⟨by omega, hinput⟩⟩

/-! ## Many calls -/

/-- The input and the size of the output grow, up to the length of the input. -/
def Growing (inputLength : ℕ) : ℕ → ℕ → List (ℕ × ℕ) → Prop
  | _, _, [] => True
  | n₀, c₀, (n, c) :: calls => n₀ ≤ n ∧ n ≤ inputLength ∧ c₀ ≤ c ∧ Growing inputLength n c calls

theorem Rel.grow (hg : Greedy inner input stream avail At) {s : State σ} {p : Pos} {n' c' : ℕ}
    (h : Rel decompressed stream avail At limit n c s p) (hn : n ≤ n') (hn' : n' ≤ input.length)
    (hc : c ≤ c') :
    Rel decompressed stream avail At limit n' c' { s with out := ⟨c', s.out.written⟩ } p := by
  have havail := hg.mono hn hn'
  have havailable := h.available
  exact { h with outSize := rfl, fits := h.fits.trans hc, inRead := h.inRead.trans hn,
                 available := by simp only; omega }

theorem Growing.last {inputLength n₀ c₀ n c : ℕ} {calls : List (ℕ × ℕ)}
    (h : Growing inputLength n₀ c₀ (calls ++ [(n, c)])) : n₀ ≤ n ∧ n ≤ inputLength ∧ c₀ ≤ c := by
  induction calls generalizing n₀ c₀ with
  | nil => exact ⟨h.1, h.2.1, h.2.2.1⟩
  | cons call calls ih =>
    obtain ⟨hn, -, hc, hrest⟩ := h
    obtain ⟨hn', hle, hc'⟩ := ih hrest
    exact ⟨hn.trans hn', hle, hc.trans hc'⟩

/-- **Calls with growing input and output** go as far as the last ones allow. -/
theorem feed_spec (hg : Greedy inner input stream avail At) {calls : List (ℕ × ℕ)} {n₀ c₀ : ℕ}
    {s : State σ} {p : Pos} (hgrow : Growing input.length n₀ c₀ (calls ++ [(n, c)]))
    (h : Rel decompressed stream avail At limit n₀ c₀ s p)
    (hne : p.NoEmptyLiteral (decompressed ++ stream)) :
    ∃ ok s', feed inner input (calls ++ [(n, c)]) s = some (ok, s') ∧ ∃ p',
      Moves (decompressed ++ stream) limit (decompressed.length + avail n) c p p' ∧
      if ok then Stopped inner decompressed stream avail At limit n c s' p'
      else p'.Fails (decompressed ++ stream) limit (decompressed.length + avail n) c := by
  induction calls generalizing n₀ c₀ s p with
  | nil =>
    obtain ⟨hn, hle, hc, -⟩ := hgrow
    obtain ⟨ok, s', hcall, hend⟩ := decompress_spec hg hle (h.grow hg hn hle hc) hne
    refine ⟨ok, s', ?_, hend⟩
    rw [List.nil_append, feed, hcall, Option.bind_some]
    cases ok <;> rfl
  | cons call calls ih =>
    obtain ⟨n₁, c₁⟩ := call
    obtain ⟨hn, hle, hc, hrest⟩ := hgrow
    obtain ⟨hlast, hlastle, hlastc⟩ := Growing.last hrest
    have havail := hg.mono hlast hlastle
    obtain ⟨ok, s', hcall, p', hmoves, hend⟩ :=
      decompress_spec hg hle (h.grow hg hn hle hc) hne
    have hmoves' := hmoves.mono (Nat.add_le_add_left havail decompressed.length) hlastc
    rw [List.cons_append, feed, hcall, Option.bind_some]
    cases ok with
    | false =>
      rw [if_neg Bool.false_ne_true] at hend
      refine ⟨false, s', rfl, p', hmoves', ?_⟩
      rw [if_neg Bool.false_ne_true]
      exact hend.mono (Nat.add_le_add_left havail decompressed.length) hlastc
    | true =>
      rw [if_pos rfl] at hend
      obtain ⟨ok, s'', hfeed, p'', hmoves'', hend'⟩ := ih hrest hend.rel (hmoves.noEmptyLiteral hne)
      exact ⟨ok, s'', by simpa using hfeed, p'', hmoves'.trans hmoves'', hend'⟩

/-- The position of a new decompressor. -/
def Pos.start (written : List Byte) (dataOffset : ℕ) : Pos := ⟨0, written, 0, none, dataOffset⟩

theorem create_rel {d : σ} {i dataOffset : ℕ} {written : List Byte}
    (hat : At d 0 i) (hlimit : decompressed.length ≤ limit) :
    Rel decompressed stream avail At limit i written.length
      (create d decompressed dataOffset limit written i) (.start written dataOffset) where
  packedSize := rfl
  outSize := rfl
  written := rfl
  fits := le_rfl
  size := rfl
  dataOffset := rfl
  mode h := absurd rfl h
  read_le := Nat.zero_le _
  fetched := by simp [create, Pos.start]
  pending := by simp [create, Pos.start]
  start := le_rfl
  bounded := hlimit
  inner := by simpa [create] using hat
  inRead := le_rfl
  available := Nat.le_add_right _ _
  buffer := .inl rfl

/-! ## Uncompressed data -/

/-- **The decompressor of uncompressed data** writes what its input and the room allow. -/
theorem noneDecompressor_greedy {i₀ : ℕ} :
    Greedy (noneDecompressor input.length) input (input.drop i₀) (fun n => n - i₀)
      (fun d e i => i = i₀ + e ∧ (d = true ↔ i = input.length)) where
  mono h _ := Nat.sub_le_sub_right h i₀
  le h := by
    rw [List.length_drop]
    exact Nat.sub_le_sub_right h i₀
  writes := by
    rintro d e i n room ⟨hi, -⟩ hn hin he
    have hbytes : ((input.take n).drop i).take room =
        ((input.drop i₀).drop e).take (min room (n - i₀ - e)) := by
      rw [List.drop_take, List.take_take, List.drop_drop, ← hi]
      congr 1
      omega
    have hlength : (((input.drop i₀).drop e).take (min room (n - i₀ - e))).length =
        min room (n - i₀ - e) := by
      rw [List.length_take, List.length_drop, List.length_drop]
      omega
    refine ⟨input.length == i + min room (n - i₀ - e), i + min room (n - i₀ - e), ?_, ⟨?_, ?_⟩, ?_,
      ?_⟩
    · simp only [noneDecompressor, hbytes, hlength]
    · omega
    · rw [beq_iff_eq]
      exact eq_comm
    · omega
    · omega
  done := by
    rintro d e i ⟨hi, hd⟩
    rw [List.length_drop]
    refine hd.trans ?_
    omega

theorem noEmptyLiteral_sample : (Pos.start [] 0).NoEmptyLiteral [0, 0, 0, 2, 7, 8] := by
  intro k hsize hparsed
  match k with
  | 0 => decide
  | 1 => exact absurd hsize (by decide)
  | 2 => exact absurd hsize (by decide)
  | k + 3 =>
    have hle := Pos.parsed_le_iterate [0, 0, 0, 2, 7, 8] k
      ((Pos.next [0, 0, 0, 2, 7, 8])^[3] (Pos.start [] 0))
    rw [← Function.iterate_add_apply] at hle
    have hsix : ((Pos.next [0, 0, 0, 2, 7, 8])^[3] (Pos.start [] 0)).parsed = 6 := by decide
    have hlength : ([0, 0, 0, 2, 7, 8] : List Byte).length = 6 := rfl
    omega

/-! ## One call and many -/

/-- **The decompressor is insensitive to how it is fed.** -/
theorem feed_eq_once (hg : Greedy inner input stream avail At) {d : σ} {i dataOffset : ℕ}
    {written : List Byte} (hat : At d 0 i) (hlimit : decompressed.length ≤ limit)
    (hne : (Pos.start written dataOffset).NoEmptyLiteral (decompressed ++ stream))
    {calls : List (ℕ × ℕ)}
    (hgrow : Growing input.length i written.length (calls ++ [(input.length, c)])) :
    ∃ ok s s₁,
      feed inner input (calls ++ [(input.length, c)])
        (create d decompressed dataOffset limit written i) = some (ok, s) ∧
      feed inner input [(input.length, c)]
        (create d decompressed dataOffset limit written i) = some (ok, s₁) ∧
      (ok = true → s.out.written = s₁.out.written ∧ done inner s = done inner s₁ ∧
        s.bytesRead ≤ limit ∧ s₁.bytesRead ≤ limit) := by
  have hrel := @create_rel σ decompressed stream avail At limit d i dataOffset written hat hlimit
  obtain ⟨hn, hle, hc⟩ := Growing.last hgrow
  obtain ⟨ok, s, hfeed, p, hmoves, hend⟩ := feed_spec hg hgrow hrel hne
  obtain ⟨ok₁, s₁, hfeed₁, p₁, hmoves₁, hend₁⟩ :=
    @feed_spec σ inner input decompressed stream avail At limit input.length c hg [] _ _ _ _
      ⟨hn, hle, hc, trivial⟩ hrel hne
  have hsame : ok₁ = ok ∧ p₁ = p := by
    cases ok <;> cases ok₁ <;> simp only [if_true, Bool.false_eq_true, if_false] at hend hend₁
    · exact ⟨rfl, hmoves₁.unique hmoves hend₁.not_allowed hend.not_allowed⟩
    · have hp := hmoves₁.unique hmoves hend₁.not_allowed hend.not_allowed
      exact absurd (hp ▸ hend) hend₁.not_fails
    · have hp := hmoves₁.unique hmoves hend₁.not_allowed hend.not_allowed
      exact absurd (hp.symm ▸ hend₁) hend.not_fails
    · exact ⟨rfl, hmoves₁.unique hmoves hend₁.not_allowed hend.not_allowed⟩
  obtain ⟨rfl, rfl⟩ := hsame
  refine ⟨ok₁, s, s₁, hfeed, hfeed₁, fun hok => ?_⟩
  rw [hok, if_pos rfl] at hend hend₁
  refine ⟨?_, ?_, hend.rel.bounded, hend₁.rel.bounded⟩
  · rw [hend.rel.written, hend₁.rel.written]
  · exact Bool.eq_iff_iff.mpr ((hend.done_iff hg).trans (hend₁.done_iff hg).symm)

theorem feed_eq_once_sample : ∃ ok s s₁,
    feed (noneDecompressor 6) [0, 0, 0, 2, 7, 8] [(3, 1), (5, 1), (6, 2)]
      (create false [] 0 6 [] 0) = some (ok, s) ∧
    feed (noneDecompressor 6) [0, 0, 0, 2, 7, 8] [(6, 2)] (create false [] 0 6 [] 0) =
      some (ok, s₁) ∧
    (ok = true → s.out.written = s₁.out.written ∧
      done (noneDecompressor 6) s = done (noneDecompressor 6) s₁ ∧ s.bytesRead ≤ 6 ∧
      s₁.bytesRead ≤ 6) :=
  @feed_eq_once Bool (noneDecompressor 6) [0, 0, 0, 2, 7, 8] [] [0, 0, 0, 2, 7, 8] (fun n => n - 0)
    (fun d e i => i = 0 + e ∧ (d = true ↔ i = 6)) 6 2
    (@noneDecompressor_greedy [0, 0, 0, 2, 7, 8] 0) false 0 0 [] (by decide) (by decide)
    noEmptyLiteral_sample [(3, 1), (5, 1)] (by simp [Growing])

theorem feed_differs :
    ((feed (noneDecompressor 9) [0, 0, 0, 5, 1, 2, 3, 4, 5] [(9, 10)]
        (create false [] 0 6 [] 0)).map fun r => (r.1, r.2.out.written)) =
        some (false, [1, 2, 3, 4, 5]) ∧
      ((feed (noneDecompressor 9) [0, 0, 0, 5, 1, 2, 3, 4, 5] [(9, 3), (9, 10)]
        (create false [] 0 6 [] 0)).map fun r => (r.1, r.2.out.written)) =
        some (false, [1, 2, 3]) ∧
      ((feed (noneDecompressor 9) [0, 0, 0, 0, 0, 0, 0, 1, 7] [(9, 1)]
        (create false [] 0 9 [] 0)).map fun r => (r.1, r.2.out.written)) = some (true, []) ∧
      ((feed (noneDecompressor 9) [0, 0, 0, 0, 0, 0, 0, 1, 7] [(4, 1), (9, 1)]
        (create false [] 0 9 [] 0)).map fun r => (r.1, r.2.out.written)) = some (true, [7]) ∧
      ((feed ⟨fun d input room i => (noneDecompressor 5).decompress d input (min room 1) i, id⟩
        [0, 0, 0, 1, 7] [(5, 1)] (create false [] 0 5 [] 0)).map
          fun r => (r.1, r.2.out.written)) = some (true, []) ∧
      ((feed ⟨fun d input room i => (noneDecompressor 5).decompress d input (min room 1) i, id⟩
        [0, 0, 0, 1, 7] [(1, 1), (2, 1), (3, 1), (4, 1), (5, 1)] (create false [] 0 5 [] 0)).map
          fun r => (r.1, r.2.out.written)) = some (true, [7]) ∧
      ((feed (noneDecompressor 1) [9] [(1, 1)] (create false [0, 0, 0, 1, 7] 0 4 [] 0)).map
          fun r => (r.1, r.2.bytesRead)) = some (true, 5) := by decide

end RVZPackDecompressor
