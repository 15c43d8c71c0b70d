import PrimedSteam.DiscIO.JunkStream

/-!
# Seeds of junk data

* `getSeed_sound`: where `getSeed` finds a seed, the seed generates the bytes.
* `getSeed_complete`: `getSeed` finds a seed of generated data, which generates the same stream.
-/

set_option autoImplicit false

namespace LaggedFibonacciGenerator

open Lagged

variable {first : Buffer} {p : ℕ} {lfg : Generator}

/-! ## Soundness -/

theorem At.matching_le (h : At first p lfg) (data : List Byte) :
    matching lfg data ≤ data.length ∧
      data.take (matching lfg data) =
        (List.range (matching lfg data)).map fun i => streamByte first (p + i) := by
  induction data generalizing p lfg with
  | nil => exact ⟨le_rfl, rfl⟩
  | cons b rest ih =>
    obtain ⟨hbyte, hnext⟩ := h.getByte
    obtain ⟨hle, htake⟩ := ih hnext
    simp only [matching]
    split
    · rename_i hb
      refine ⟨Nat.succ_le_succ hle, ?_⟩
      rw [List.take_succ_cons, htake, List.range_succ_eq_map, List.map_cons, List.map_map, ← hb,
        hbyte]
      refine congrArg₂ _ rfl (List.map_congr_left fun i _ => ?_)
      rw [Function.comp_apply, Nat.succ_eq_add_one, Nat.add_assoc, Nat.add_comm 1 i]
    · exact ⟨Nat.zero_le _, rfl⟩

theorem At.matching_eq (h : At first p lfg) (n : ℕ) :
    matching lfg ((List.range n).map fun i => streamByte first (p + i)) = n := by
  induction n generalizing p lfg with
  | zero => rfl
  | succ n ih =>
    obtain ⟨hbyte, hnext⟩ := h.getByte
    have hrest := ih hnext
    rw [List.range_succ_eq_map, List.map_cons, List.map_map]
    simp only [matching]
    rw [if_pos (show lfg.getByte.1 = streamByte first (p + 0) from hbyte)]
    refine congrArg (· + 1) (Eq.trans (congrArg _ (List.map_congr_left fun i _ => ?_)) hrest)
    rw [Function.comp_apply, Nat.succ_eq_add_one, Nat.add_assoc, Nat.add_comm 1 i]

theorem stream_firstWords (words : Buffer) (n : ℕ) :
    stream (firstWords fun i => swap32 (words i)) n = stream words n :=
  stream_congr (fun n => congrArg outputCode
    (raw_congr (fun i _ => swap32_swap32 (words i)) n)) n

theorem getSeedWords_window {data : ℕ → Word} {size dataOffset : ℕ} {b : Buffer} {seed : Option Seed}
    (h : getSeedWords data size dataOffset = (some b, seed)) :
    ∃ seed', seed = some seed' ∧
      Window lfgK (stream (firstWords seed')) (4 * lfgK + dataOffset / lfgK * lfgK) 0 b := by
  simp only [getSeedWords] at h
  split at h
  · cases h
  · split at h
    · cases h
    · simp only [reinit] at h
      obtain ⟨hbuffer, hseed⟩ := Prod.mk.inj h
      obtain ⟨b', hb', rfl⟩ := Option.map_eq_some_iff.mp hbuffer
      refine ⟨_, hseed.symm, ?_⟩
      have hwindow := window_forwards (dataOffset / lfgK) (initBuffer_window hb')
      intro i hi
      rw [hwindow i hi, stream_firstWords, stream_firstWords]

/-- The first block of a stream that goes on with the words at an offset. -/
def firstBlock (data : ℕ → Word) (dataOffset : ℕ) : Buffer :=
  (backward 0 lfgK)^[dataOffset / lfgK] (backward 0 (dataOffset % lfgK) fun i =>
    if i < dataOffset % lfgK then data (lfgK - dataOffset % lfgK + i) else data (i - dataOffset % lfgK))

/-- `GetSeed` gets a generator: there are enough words behind the bytes that are skipped, the first ones
look like junk, and `Reinitialize` takes the block that they lead back to. -/
structure Rebuilds (data : List Byte) (dataOffset : ℕ) : Prop where
  words : lfgK ≤ (data.length - (4 - dataOffset % 4) % 4) / 4
  regular : ∀ i < lfgK, Regular (dataWord data ((4 - dataOffset % 4) % 4 + 4 * i))
  reinitializes : (reinit (firstBlock (fun i => dataWord data ((4 - dataOffset % 4) % 4 + 4 * i))
    ((dataOffset + (4 - dataOffset % 4) % 4) % 2 ^ 64 / 4))).1.isSome = true

/-- Without a generator no byte is counted. -/
theorem getSeed_of_not_rebuilds {address dataOffset n : ℕ} {data : List Byte} {seedOut seed : Seed}
    (hnot : ¬Rebuilds data dataOffset)
    (h : getSeed address data dataOffset seedOut = some (n, seed)) : n = 0 := by
  simp only [getSeed] at h
  split at h
  · cases h
    rfl
  · split at h
    · cases h
    · split at h
      · cases h
        rfl
      · rename_i b seed' hwords
        simp only [getSeedWords] at hwords
        split at hwords
        · cases hwords
        · rename_i hsize
          split at hwords
          · cases hwords
          · rename_i hregular
            push Not at hregular
            refine absurd ⟨Nat.le_of_not_lt hsize, hregular, ?_⟩ hnot
            obtain ⟨b', hb', -⟩ := Option.map_eq_some_iff.mp (Prod.mk.inj hwords).1
            rw [firstBlock, hb']
            rfl

/-- **A seed that is found generates the bytes that are counted**, if the rounded offset is in the
same block or the words are not those of a generator. -/
theorem getSeed_sound {address dataOffset n : ℕ} {data : List Byte} {seedOut seed : Seed}
    (hgood : dataOffset % bufferBytes ≤ bufferBytes - 4 ∧ dataOffset + 3 < 2 ^ 64 ∨
      ¬Rebuilds data dataOffset)
    (h : getSeed address data dataOffset seedOut = some (n, seed)) :
    (((setSeed seed).forwardBytes dataOffset).getBytes n).1 = data.take n := by
  rw [(setSeed_forwardBytes seed dataOffset).getBytes]
  rcases hgood with ⟨hblock, hoffset⟩ | hnot
  swap
  · rw [getSeed_of_not_rebuilds hnot h]
    rfl
  simp only [getSeed] at h
  split at h
  · cases h
    rfl
  · split at h
    · cases h
    · split at h
      · cases h
        rfl
      · rename_i b seed' hwords
        obtain ⟨hn, hseed⟩ := Prod.mk.inj (Option.some_injective _ h)
        obtain ⟨seed'', rfl, hwindow⟩ := getSeedWords_window hwords
        have hq : (dataOffset + (4 - dataOffset % 4) % 4) % 2 ^ 64 / 4 / lfgK =
            dataOffset / bufferBytes := by
          rw [Nat.mod_eq_of_lt (by omega)]
          simp only [bufferBytes, lfgK] at hblock ⊢
          omega
        rw [hq] at hwindow
        rw [Option.getD_some] at hseed
        subst hseed
        have hat : At (firstWords seed'') dataOffset ⟨b, dataOffset % bufferBytes⟩ := ⟨hwindow, rfl⟩
        rw [← hn]
        exact (hat.matching_le data).2.symm

/-! ## Completeness -/

theorem dataWord_stream {offset size i : ℕ} (hoffset : offset % 4 = 0) (hi : 4 * i + 4 ≤ size) :
    dataWord ((List.range size).map fun k => streamByte first (offset + k)) (4 * i) =
      stream first (4 * lfgK + (offset / 4 + i)) := by
  have hbyte : ∀ k, k < 4 → ((List.range size).map fun k => streamByte first (offset + k)).getD
      (4 * i + k) 0 = wordByte (stream first (4 * lfgK + (offset / 4 + i))) k := by
    intro k hk
    have hindex : (offset + (4 * i + k)) / 4 = offset / 4 + i := by omega
    have hrest : (offset + (4 * i + k)) % 4 = k := by omega
    rw [List.getD_eq_getElem?_getD, List.getElem?_map, List.getElem?_range (by omega)]
    simp only [Option.map_some, Option.getD_some, streamByte, hindex, hrest]
  have hzero := hbyte 0 (by omega)
  rw [Nat.add_zero] at hzero
  rw [dataWord, hzero, hbyte 1 (by omega), hbyte 2 (by omega), hbyte 3 (by omega),
    append_wordByte]

theorem regular_stream (first : Buffer) (n : ℕ) : Regular (stream first n) := by
  induction n using Nat.strong_induction_on with
  | _ n ih =>
    rw [stream]
    split
    · exact regular_outputCode _
    · rename_i hn
      simp only [lfgK, lfgJ] at hn ⊢
      exact (ih (n - 521) (by omega)).xor (ih (n - 32) (by omega))

theorem reconstructed_congr {b b' : Buffer} {i : ℕ} (h : b i = b' i)
    (h16 : b (i + 16) = b' (i + 16)) (h15 : b (i + 15) = b' (i + 15)) :
    reconstructed b i = reconstructed b' i := by
  simp only [reconstructed, h, h16, h15]

theorem reconstruct_eq (b : Buffer) (i : ℕ) :
    reconstruct b i = if i < seedSize then reconstructed b i else b i := by
  have hsteps : ∀ n, n ≤ seedSize → ∀ i,
      (List.range n).foldl (fun b i => Function.update b i (reconstructed b i)) b i =
        if i < n then reconstructed b i else b i := by
    intro n hn
    induction n with
    | zero => exact fun i => rfl
    | succ n ih =>
      intro i
      have ih := ih (Nat.le_of_succ_le hn)
      simp only [seedSize] at hn
      rw [List.range_succ, List.foldl_append, List.foldl_cons, List.foldl_nil]
      have hsame : reconstructed ((List.range n).foldl
          (fun b i => Function.update b i (reconstructed b i)) b) n = reconstructed b n := by
        refine reconstructed_congr ?_ ?_ ?_
        · rw [ih, if_neg (lt_irrefl n)]
        · rw [ih, if_neg (by omega)]
        · rw [ih, if_neg (by omega)]
      by_cases hin : i = n
      · subst hin
        rw [Function.update_self, hsame, if_pos (Nat.lt_succ_self i)]
      · rw [Function.update_of_ne hin, ih]
        by_cases hlt : i < n
        · rw [if_pos hlt, if_pos (Nat.lt_succ_of_lt hlt)]
        · rw [if_neg hlt, if_neg (by omega)]
  exact hsteps seedSize le_rfl i

/-- The words that are reconstructed from the output of the raw words. -/
def recovered (first : Buffer) : Buffer := reconstruct fun i => outputBits (raw first i)

theorem recovered_of_pos {first : Buffer} {i : ℕ} (hpos : 0 < i) (hi : i < seedSize) :
    recovered first i = raw first i := by
  rw [recovered, reconstruct_eq, if_pos hi]
  refine reconstructed_bits (raw first i) (raw first (i - 1)) _ _ ?_
  simp only [seedSize] at hi
  rw [raw.eq_def first (i + 16), if_neg (by simp only [seedSize]; omega),
    show i + 16 - 17 = i - 1 by omega, show i + 16 - 16 = i by omega,
    show i + 16 - 1 = i + 15 by omega, xor_xor_self]

theorem recovered_zero (first : Buffer) :
    recovered first 0 &&& 0xfffcffff#32 = raw first 0 &&& 0xfffcffff#32 := by
  rw [recovered, reconstruct_eq, if_pos (by decide)]
  exact reconstructed_bits_and _ _

/-- **The recovered words make the same stream.** -/
theorem raw_recovered (first : Buffer) (n : ℕ) :
    raw (recovered first) n &&& 0xfffcffff#32 = raw first n &&& 0xfffcffff#32 ∧
      (0 < n → raw (recovered first) n = raw first n) := by
  induction n using Nat.strong_induction_on with
  | _ n ih =>
    by_cases hn : n < seedSize
    · have hraw : raw (recovered first) n = recovered first n := by rw [raw, if_pos hn]
      rw [hraw]
      by_cases hpos : 0 < n
      · rw [recovered_of_pos hpos hn]
        exact ⟨rfl, fun _ => rfl⟩
      · rw [Nat.eq_zero_of_not_pos hpos]
        exact ⟨recovered_zero first, fun hpos => absurd hpos (lt_irrefl 0)⟩
    · have heq : raw (recovered first) n = raw first n := by
        rw [raw.eq_def (recovered first), raw.eq_def first, if_neg hn, if_neg hn]
        simp only [seedSize] at hn
        rw [(outputBits_congr (ih (n - 17) (by omega)).1).2,
          (ih (n - 16) (by omega)).2 (by omega), (ih (n - 1) (by omega)).2 (by omega)]
      rw [heq]
      exact ⟨rfl, fun _ => rfl⟩

theorem stream_recovered (first : Buffer) (n : ℕ) :
    stream (recovered first) n = stream first n :=
  stream_congr (fun n => congrArg swap32 (outputBits_congr (raw_recovered first n).1).1) n

variable (first) in
theorem initFrom_recovered {n i : ℕ} {b : Buffer} (hi : seedSize ≤ i)
    (hb : ∀ k < i, b k = raw (recovered first) k)
    (hdata : ∀ k, i ≤ k → k < i + n → b k = outputBits (raw first k)) :
    ∃ b', initFrom true n i b = some b' := by
  induction n generalizing i b with
  | zero => exact ⟨b, rfl⟩
  | succ n ih =>
    have hlower : 17 ≤ i := hi
    have hcalculated : calculated b i = raw (recovered first) i := by
      rw [calculated, hb _ (by omega), hb _ (by omega), hb _ (by omega),
        raw.eq_def (recovered first) i, if_neg (Nat.not_lt.mpr hi)]
    have hmatches : matchesData (b i) (calculated b i) := by
      rw [hcalculated, hdata i le_rfl (by omega), (raw_recovered first i).2 (by omega)]
      exact matchesData_outputBits _
    have hbelow : ∀ k < i + 1, Function.update b i (calculated b i) k =
        raw (recovered first) k := by
      intro k hk
      by_cases hki : k = i
      · rw [hki, Function.update_self, hcalculated]
      · rw [Function.update_of_ne hki]
        exact hb k (by omega)
    have habove : ∀ k, i + 1 ≤ k → k < i + 1 + n →
        Function.update b i (calculated b i) k = outputBits (raw first k) := by
      intro k hk hlt
      rw [Function.update_of_ne (by omega)]
      exact hdata k (by omega) (by omega)
    obtain ⟨b', hb'⟩ := ih (Nat.le_succ_of_le hi) hbelow habove
    exact ⟨b', by rw [initFrom, if_neg fun hboth => hboth.2 hmatches, hb']⟩

/-- **A seed of words of the stream is found**, and it makes the same stream. -/
theorem getSeedWords_complete (first : Buffer) (data : ℕ → Word) (dataOffset : ℕ) {size : ℕ}
    (hsize : lfgK ≤ size)
    (hdata : ∀ i < lfgK, data i = stream first (4 * lfgK + (dataOffset + i))) :
    ∃ b seed', getSeedWords data size dataOffset = (some b, some seed') ∧
      ∀ n, stream (firstWords seed') n = stream first n := by
  have hregular : ¬∃ i < lfgK, ¬Regular (data i) := by
    rintro ⟨i, hi, hnot⟩
    rw [hdata i hi] at hnot
    exact hnot (regular_stream first _)
  obtain ⟨m, hm⟩ : ∃ m, m = dataOffset % lfgK := ⟨_, rfl⟩
  obtain ⟨q, hq⟩ : ∃ q, q = dataOffset / lfgK := ⟨_, rfl⟩
  have hmlt : m < lfgK := hm ▸ Nat.mod_lt _ (by decide)
  have hoffset : dataOffset = q * lfgK + m := by
    rw [hm, hq, Nat.div_add_mod']
  have hcopied : Window lfgK (stream first) (4 * lfgK + q * lfgK) m
      fun i => if i < m then data (lfgK - m + i) else data (i - m) := by
    intro i hi
    by_cases him : i < m
    · simp only [if_pos him]
      rw [hdata _ (by omega)]
      congr 1
      omega
    · simp only [if_neg him]
      rw [hdata _ (by omega)]
      congr 1
      omega
  have hback := window_backwards q (window_backward hmlt.le hcopied)
  have hzero := window_backwards 4 (n := 0) (by rwa [Nat.zero_add])
  set back := (backward 0 lfgK)^[4] ((backward 0 lfgK)^[q] (backward 0 m fun i =>
    if i < m then data (lfgK - m + i) else data (i - m))) with hbackdef
  have hbits : ∀ i < lfgK, swap32 (back i) = outputBits (raw first i) := by
    intro i hi
    rw [hzero i hi, if_neg (Nat.not_lt_zero i), Nat.zero_add, stream, if_pos hi,
      swap32_outputCode]
  have hwords : ∀ i < lfgK, reconstruct (fun i => swap32 (back i)) i = recovered first i := by
    intro i hi
    rw [recovered, reconstruct_eq, reconstruct_eq]
    split
    · rename_i hlt
      simp only [seedSize] at hlt
      simp only [lfgK] at hbits
      exact reconstructed_congr (hbits _ (by omega)) (hbits _ (by omega)) (hbits _ (by omega))
    · exact hbits i hi
  obtain ⟨b, hb⟩ := @initFrom_recovered first (lfgK - seedSize) seedSize
    (reconstruct fun i => swap32 (back i)) le_rfl
    (fun k hk => by
      rw [hwords k (hk.trans (by decide)), raw, if_pos hk])
    (fun k hk hlt => by
      have hklt : k < lfgK := hlt
      rw [hwords k hklt, recovered, reconstruct_eq, if_neg (Nat.not_lt.mpr hk)])
  refine ⟨forward^[q] (finishInit b), fun i => swap32 (reconstruct (fun i => swap32 (back i)) i),
    ?_, fun n => ?_⟩
  · simp only [getSeedWords, if_neg (Nat.not_lt.mpr hsize), if_neg hregular, reinit, ← hm, ← hq,
      ← hbackdef, initBuffer, hb]
    rfl
  · rw [stream_firstWords, ← stream_recovered first n]
    refine stream_congr (fun n => congrArg outputCode (raw_congr (fun i hi => ?_) n)) n
    exact hwords i (hi.trans (by decide))

theorem getBytes_congr {seed seed' : Seed}
    (h : ∀ n, stream (firstWords seed') n = stream (firstWords seed) n) (offset n : ℕ) :
    (((setSeed seed').forwardBytes offset).getBytes n).1 =
      (((setSeed seed).forwardBytes offset).getBytes n).1 := by
  rw [(setSeed_forwardBytes seed' offset).getBytes, (setSeed_forwardBytes seed offset).getBytes]
  exact List.map_congr_left fun i _ => by rw [streamByte, streamByte, h]

/-- **A seed of generated data is found**: all bytes are counted, and the seed generates the same
stream from every offset. -/
theorem getSeed_complete {address dataOffset size : ℕ} {seed seedOut : Seed}
    (haddress : address % 4 = 0) (hoffset : dataOffset % 4 = 0) (hlt : dataOffset < 2 ^ 64)
    (hsize : lfgK * 4 ≤ size) :
    ∃ seed', getSeed address (((setSeed seed).forwardBytes dataOffset).getBytes size).1 dataOffset
        seedOut = some (size, seed') ∧
      ∀ offset n, (((setSeed seed').forwardBytes offset).getBytes n).1 =
        (((setSeed seed).forwardBytes offset).getBytes n).1 := by
  rw [(setSeed_forwardBytes seed dataOffset).getBytes]
  set data := (List.range size).map fun i => streamByte (firstWords seed) (dataOffset + i)
    with hdata
  have hlength : data.length = size := by simp [hdata]
  have hskip : (4 - dataOffset % 4) % 4 = 0 := by omega
  have hround : (dataOffset + 0) % 2 ^ 64 / 4 = dataOffset / 4 := by
    rw [Nat.add_zero, Nat.mod_eq_of_lt hlt]
  obtain ⟨b, seed', hwords, hstream⟩ := @getSeedWords_complete (firstWords seed)
    (fun i => dataWord data (0 + 4 * i)) (dataOffset / 4) ((size - 0) / 4) (by omega)
    (fun i hi => by
      rw [Nat.zero_add]
      exact dataWord_stream hoffset (by omega))
  obtain ⟨seed'', hseed, hwindow⟩ := getSeedWords_window hwords
  cases hseed
  have hblock : dataOffset / 4 / lfgK = dataOffset / bufferBytes := by
    rw [Nat.div_div_eq_div_mul, bufferBytes, Nat.mul_comm]
  rw [hblock] at hwindow
  have hat : At (firstWords seed') dataOffset ⟨b, dataOffset % bufferBytes⟩ := ⟨hwindow, rfl⟩
  have hsame : data = (List.range size).map fun i => streamByte (firstWords seed')
      (dataOffset + i) :=
    List.map_congr_left fun i _ => by rw [streamByte, streamByte, hstream]
  have hmatching := hat.matching_eq size
  rw [← hsame] at hmatching
  refine ⟨seed', ?_, getBytes_congr hstream⟩
  have haligned : ¬((address : ℤ) - dataOffset) % 4 ≠ 0 := by omega
  rw [getSeed, if_neg haligned]
  simp only [hskip, hlength, hround, hwords, hmatching, if_neg (Nat.not_lt_zero size),
    Option.getD_some]

/-! ## A block that is too far -/

/-- The seed of the samples. -/
def sampleSeed : Seed := fun i => swap32 (BitVec.ofNat 32 (i + 1))

/-- An entry of a list that holds the newest words first. -/
def entry (l : List Word) (i : ℕ) : Word := (l.drop i).headD 0

/-- The list holds the first `n` words. -/
def Newest (x : ℕ → Word) (n : ℕ) (l : List Word) : Prop := l = (List.range n).reverse.map x

theorem Newest.entry {x : ℕ → Word} {n i : ℕ} {l : List Word} (h : Newest x n l) (hi : i < n) :
    entry l i = x (n - 1 - i) := by
  rw [h, LaggedFibonacciGenerator.entry, List.headD_eq_head?_getD, List.head?_drop,
    List.getElem?_map, List.getElem?_reverse (by simpa using hi), List.length_range,
    List.getElem?_range (by omega)]
  rfl

theorem Newest.cons {x : ℕ → Word} {n : ℕ} {l : List Word} (h : Newest x n l) :
    Newest x (n + 1) (x n :: l) := by
  rw [Newest, h, List.range_succ, List.reverse_append, List.reverse_singleton,
    List.singleton_append, List.map_cons]

/-- The next raw word. -/
def rawStep (l : List Word) : List Word :=
  ((entry l 16 <<< 23) ^^^ (entry l 15 >>> 9) ^^^ entry l 0) :: l

/-- The next word of the stream. -/
def streamStep (l : List Word) : List Word := (entry l 520 ^^^ entry l 31) :: l

/-- A step is done `k` times. -/
def repeatStep (step : List Word → List Word) : ℕ → List Word → List Word
  | 0, l => l
  | k + 1, l => repeatStep step k (step l)

theorem Newest.repeatStep {x : ℕ → Word} {step : List Word → List Word} {m : ℕ}
    (hstep : ∀ n l, m ≤ n → Newest x n l → Newest x (n + 1) (step l)) {n : ℕ} (k : ℕ)
    {l : List Word} (hn : m ≤ n) (h : Newest x n l) : Newest x (n + k) (repeatStep step k l) := by
  induction k generalizing n l with
  | zero => exact h
  | succ k ih =>
    have hrest := ih (Nat.le_succ_of_le hn) (hstep n l hn h)
    rwa [Nat.succ_add_eq_add_succ] at hrest

theorem newest_rawStep {first : Buffer} {n : ℕ} {l : List Word} (hn : seedSize ≤ n)
    (h : Newest (raw first) n l) : Newest (raw first) (n + 1) (rawStep l) := by
  have hraw : rawStep l = raw first n :: l := by
    have hlower : 17 ≤ n := hn
    rw [rawStep, h.entry (by omega), h.entry (by omega), h.entry (by omega), raw.eq_def first n,
      if_neg (Nat.not_lt.mpr hn), show n - 1 - 16 = n - 17 by omega,
      show n - 1 - 15 = n - 16 by omega, Nat.sub_zero]
  rw [hraw]
  exact h.cons

theorem newest_streamStep {first : Buffer} {n : ℕ} {l : List Word} (hn : lfgK ≤ n)
    (h : Newest (stream first) n l) : Newest (stream first) (n + 1) (streamStep l) := by
  have hstream : streamStep l = stream first n :: l := by
    have hlower : 521 ≤ n := hn
    rw [streamStep, h.entry (by omega), h.entry (by omega), stream.eq_def first n,
      if_neg (Nat.not_lt.mpr hn), show n - 1 - 520 = n - lfgK by simp only [lfgK]; omega,
      show n - 1 - 31 = n - lfgJ by simp only [lfgJ]; omega]
  rw [hstream]
  exact h.cons

/-- The stream of the sample, up to its sixth block. -/
def sampleStream : List Word :=
  repeatStep streamStep 2605 ((repeatStep rawStep 504
    ((List.range 17).reverse.map fun i => BitVec.ofNat 32 (i + 1))).map outputCode)

theorem newest_sampleStream : Newest (stream (firstWords sampleSeed)) 3126 sampleStream := by
  have hfirst : Newest (raw (firstWords sampleSeed)) 17
      ((List.range 17).reverse.map fun i => BitVec.ofNat 32 (i + 1)) := by
    refine List.map_congr_left fun i hi => ?_
    have hlt : i < seedSize := by simpa [seedSize] using hi
    rw [raw, if_pos hlt]
    exact (swap32_swap32 _).symm
  have hraw := hfirst.repeatStep (fun n l hn h => newest_rawStep hn h) 504 le_rfl
  have hstream : Newest (stream (firstWords sampleSeed)) 521 ((repeatStep rawStep 504
      ((List.range 17).reverse.map fun i => BitVec.ofNat 32 (i + 1))).map outputCode) := by
    rw [hraw, Newest, List.map_map]
    refine List.map_congr_left fun i hi => ?_
    have hlt : i < lfgK := by simpa [lfgK, seedSize] using hi
    rw [Function.comp_apply, stream, if_pos hlt]
  exact hstream.repeatStep (fun n l hn h => newest_streamStep hn h) 2605 le_rfl

theorem sampleStream_ne :
    wordByte (entry sampleStream 521) 1 ≠ wordByte (entry sampleStream 0) 1 := by
  decide +kernel

theorem sample_streamByte_ne :
    streamByte (firstWords sampleSeed) 2081 ≠ streamByte (firstWords sampleSeed) 4165 := by
  have hne := sampleStream_ne
  rw [newest_sampleStream.entry (by decide), newest_sampleStream.entry (by decide)] at hne
  exact hne

/-- The end of the second block of the sample, and then the whole block. -/
def sampleData : List Byte :=
  (((setSeed sampleSeed).forwardBytes 4165).getBytes 3).1 ++
    (((setSeed sampleSeed).forwardBytes 2084).getBytes 2084).1

theorem matching_append (h : At first p lfg) (n : ℕ) (rest : List Byte) :
    n ≤ matching lfg (((List.range n).map fun i => streamByte first (p + i)) ++ rest) := by
  induction n generalizing p lfg with
  | zero => exact Nat.zero_le _
  | succ n ih =>
    obtain ⟨hbyte, hnext⟩ := h.getByte
    have hrest := ih hnext
    rw [List.range_succ_eq_map, List.map_cons, List.map_map, List.cons_append]
    simp only [matching]
    rw [if_pos (show lfg.getByte.1 = streamByte first (p + 0) from hbyte)]
    refine Nat.succ_le_succ (hrest.trans_eq ?_)
    congr 2
    exact List.map_congr_left fun i _ => by
      rw [Function.comp_apply, Nat.succ_eq_add_one, Nat.add_assoc, Nat.add_comm 1 i]

theorem dataWord_append (xs ys : List Byte) (i : ℕ) :
    dataWord (xs ++ ys) (xs.length + i) = dataWord ys i := by
  simp only [dataWord, List.getD_eq_getElem?_getD, Nat.add_assoc]
  rw [List.getElem?_append_right (by omega), List.getElem?_append_right (by omega),
    List.getElem?_append_right (by omega), List.getElem?_append_right (by omega)]
  simp only [Nat.add_sub_cancel_left]

/-- **The seed that is found for the end of a block generates other bytes**, as the generator that it
is compared with is one block too far. -/
theorem getSeed_unsound : ∃ n seed,
    getSeed 1 sampleData 2081 (fun _ => 0) = some (n, seed) ∧
      (((setSeed seed).forwardBytes 2081).getBytes n).1 ≠ sampleData.take n := by
  have hend := (setSeed_forwardBytes sampleSeed 4165).getBytes 3
  have hblock := (setSeed_forwardBytes sampleSeed 2084).getBytes 2084
  have hlength : sampleData.length = 2087 := by
    rw [sampleData, hend, hblock]
    simp
  have hwordsAt : ∀ i < lfgK, dataWord sampleData (3 + 4 * i) =
      stream (firstWords sampleSeed) (4 * lfgK + (521 + i)) := by
    intro i hi
    simp only [lfgK] at hi
    have hthree : (((setSeed sampleSeed).forwardBytes 4165).getBytes 3).1.length = 3 := by
      rw [hend]
      simp
    have happend := dataWord_append (((setSeed sampleSeed).forwardBytes 4165).getBytes 3).1
      (((setSeed sampleSeed).forwardBytes 2084).getBytes 2084).1 (4 * i)
    rw [hthree] at happend
    rw [sampleData, happend, hblock, dataWord_stream (by decide) (by omega)]
  obtain ⟨b, seed', hwords, hstream⟩ := @getSeedWords_complete (firstWords sampleSeed) _ 521 521
    le_rfl hwordsAt
  obtain ⟨seed'', hseed, hwindow⟩ := getSeedWords_window hwords
  cases hseed
  have hat : At (firstWords seed') 4165 ⟨b, 2081⟩ := ⟨hwindow, rfl⟩
  have hsame : ∀ q, streamByte (firstWords seed') q = streamByte (firstWords sampleSeed) q :=
    fun q => by rw [streamByte, streamByte, hstream]
  have hthree : 3 ≤ matching ⟨b, 2081⟩ sampleData := by
    have hmatching := matching_append hat 3
      (((setSeed sampleSeed).forwardBytes 2084).getBytes 2084).1
    simp only [hsame] at hmatching
    rwa [← hend] at hmatching
  refine ⟨matching ⟨b, 2081⟩ sampleData, seed', ?_, fun heq => ?_⟩
  · have haligned : ¬(((1 : ℕ) : ℤ) - (2081 : ℕ)) % 4 ≠ 0 := by decide
    rw [getSeed, if_neg haligned]
    simp only [show (4 - 2081 % 4) % 4 = 3 by decide, hlength, show ¬2087 < 3 by decide, if_false,
      show (2087 - 3) / 4 = 521 by decide, show (2081 + 3) % 2 ^ 64 / 4 = 521 by decide, hwords,
      show 2081 % bufferBytes = 2081 by decide, Option.getD_some]
  · rw [(setSeed_forwardBytes seed' 2081).getBytes] at heq
    have hfirst := congrArg (fun l : List Byte => l[0]?) heq
    rw [List.getElem?_map, List.getElem?_range (by omega), List.getElem?_take_of_lt (by omega),
      sampleData, List.getElem?_append_left (by rw [hend]; simp), hend] at hfirst
    have hbyte := Option.some_injective _ hfirst
    simp only [hsame] at hbyte
    exact sample_streamByte_ne hbyte

/-! ## Samples -/

/-- A seed that is found is a seed of the data. -/
theorem getSeed_sound_sample :
    ∃ n seed, getSeed 0 (((setSeed sampleSeed).forwardBytes 8).getBytes 2084).1 8 (fun _ => 0) =
        some (n, seed) ∧
      (((setSeed seed).forwardBytes 8).getBytes n).1 =
        ((((setSeed sampleSeed).forwardBytes 8).getBytes 2084).1).take n := by
  obtain ⟨b, seed', hwords, -⟩ := @getSeedWords_complete (firstWords sampleSeed)
    (fun i => dataWord (((setSeed sampleSeed).forwardBytes 8).getBytes 2084).1 (0 + 4 * i)) 2 521
    le_rfl (fun i hi => by
      simp only [lfgK] at hi
      rw [Nat.zero_add, (setSeed_forwardBytes sampleSeed 8).getBytes,
        dataWord_stream (by decide) (by omega)])
  have hlength : (((setSeed sampleSeed).forwardBytes 8).getBytes 2084).1.length = 2084 := by
    rw [(setSeed_forwardBytes sampleSeed 8).getBytes]
    simp
  have hget : getSeed 0 (((setSeed sampleSeed).forwardBytes 8).getBytes 2084).1 8 (fun _ => 0) =
      some (matching ⟨b, 8⟩ (((setSeed sampleSeed).forwardBytes 8).getBytes 2084).1, seed') := by
    have haligned : ¬(((0 : ℕ) : ℤ) - (8 : ℕ)) % 4 ≠ 0 := by decide
    rw [getSeed, if_neg haligned]
    simp only [show (4 - 8 % 4) % 4 = 0 by decide, hlength, show ¬2084 < 0 by decide, if_false,
      show (2084 - 0) / 4 = 521 by decide, show (8 + 0) % 2 ^ 64 / 4 = 2 by decide, hwords,
      show 8 % bufferBytes = 8 by decide, Option.getD_some]
  exact ⟨_, _, hget, getSeed_sound (.inl ⟨by decide, by decide⟩) hget⟩

theorem getSeed_complete_sample : ∃ seed',
    getSeed 0 (((setSeed sampleSeed).forwardBytes 2084).getBytes 2084).1 2084 (fun _ => 0) =
        some (2084, seed') ∧
      ∀ offset n, (((setSeed seed').forwardBytes offset).getBytes n).1 =
        (((setSeed sampleSeed).forwardBytes offset).getBytes n).1 :=
  getSeed_complete (by decide) (by decide) (by decide) (by decide)

end LaggedFibonacciGenerator
