import PrimedSteam.DiscIO.LaggedFibonacciGenerator
import Mathlib.Tactic.IntervalCases

/-!
# The stream of junk data

* `raw`: the words that a seed is extended to; `stream`: all words that the buffer ever holds.
* `At`: the generator of a seed stands at a byte of its stream. `getBytes` and `forwardBytes` move it
  (`At.getBytes`, `At.forwardBytes`).
-/

set_option autoImplicit false

namespace LaggedFibonacciGenerator

open Lagged

/-! ## Bits -/

theorem getLsbD_swap32 (w : Word) {i : ℕ} (hi : i < 32) :
    (swap32 w).getLsbD i = w.getLsbD (24 - i / 8 * 8 + i % 8) := by
  simp only [swap32, wordByte, BitVec.getLsbD_append, BitVec.getLsbD_extractLsb']
  interval_cases i <;> simp

theorem swap32_swap32 (w : Word) : swap32 (swap32 w) = w := by
  refine BitVec.eq_of_getLsbD_eq fun i hi => ?_
  rw [getLsbD_swap32 _ hi, getLsbD_swap32 _ (by omega)]
  congr 1
  omega

theorem swap32_xor (v w : Word) : swap32 (v ^^^ w) = swap32 v ^^^ swap32 w := by
  refine BitVec.eq_of_getLsbD_eq fun i hi => ?_
  rw [BitVec.getLsbD_xor, getLsbD_swap32 _ hi, getLsbD_swap32 _ hi, getLsbD_swap32 _ hi,
    BitVec.getLsbD_xor]

theorem append_wordByte (w : Word) :
    wordByte w 3 ++ wordByte w 2 ++ wordByte w 1 ++ wordByte w 0 = w := by
  refine BitVec.eq_of_getLsbD_eq fun i hi => ?_
  simp only [wordByte, BitVec.getLsbD_append, BitVec.getLsbD_extractLsb']
  interval_cases i <;> simp

/-- The output code without the change of the byte order. -/
def outputBits (x : Word) : Word := (x &&& 0xff00ffff#32) ||| ((x >>> 2) &&& 0x00ff0000#32)

theorem swap32_outputCode (x : Word) : swap32 (outputCode x) = outputBits x :=
  swap32_swap32 (outputBits x)

/-- The output code loses two bits at most, which two later words still tell. -/
theorem reconstructed_bits (x a p q : Word) (h : q ^^^ p = (a <<< 23) ^^^ (x >>> 9)) :
    (outputBits x &&& 0xff00ffff#32) ||| ((outputBits x <<< 2) &&& 0x00fc0000#32) |||
      (((outputBits q ^^^ outputBits p) <<< 9) &&& 0x00030000#32) = x := by
  have hbit : ∀ k, k < 9 → (q ^^^ p).getLsbD k = x.getLsbD (9 + k) := by
    intro k hk
    rw [h]
    simp only [BitVec.getLsbD_xor, BitVec.getLsbD_shiftLeft, BitVec.getLsbD_ushiftRight]
    rw [decide_eq_true (show k < 23 by omega)]
    simp
  refine BitVec.eq_of_getLsbD_eq fun i hi => ?_
  simp only [outputBits, BitVec.getLsbD_or, BitVec.getLsbD_and, BitVec.getLsbD_shiftLeft,
    BitVec.getLsbD_ushiftRight, BitVec.getLsbD_xor]
  interval_cases i <;> simp
  · simpa using hbit 7 (by omega)
  · simpa using hbit 8 (by omega)

/-- All but two bits of a word can be reconstructed without the later words. -/
theorem reconstructed_bits_and (x y : Word) :
    ((outputBits x &&& 0xff00ffff#32) ||| ((outputBits x <<< 2) &&& 0x00fc0000#32) |||
      (y &&& 0x00030000#32)) &&& 0xfffcffff#32 = x &&& 0xfffcffff#32 := by
  refine BitVec.eq_of_getLsbD_eq fun i hi => ?_
  simp only [outputBits, BitVec.getLsbD_or, BitVec.getLsbD_and, BitVec.getLsbD_ushiftRight,
    BitVec.getLsbD_shiftLeft]
  interval_cases i <;> simp

theorem outputBits_congr {x y : Word} (h : x &&& 0xfffcffff#32 = y &&& 0xfffcffff#32) :
    outputBits x = outputBits y ∧ x <<< 23 = y <<< 23 := by
  have hbit : ∀ k, (x &&& 0xfffcffff#32).getLsbD k = (y &&& 0xfffcffff#32).getLsbD k :=
    fun k => by rw [h]
  constructor
  · refine BitVec.eq_of_getLsbD_eq fun i hi => ?_
    have hsame := hbit i
    have hshift := hbit (i + 2)
    simp only [outputBits, BitVec.getLsbD_or, BitVec.getLsbD_and, BitVec.getLsbD_ushiftRight]
      at hsame hshift ⊢
    interval_cases i <;> simp_all
  · refine BitVec.eq_of_getLsbD_eq fun i hi => ?_
    have hshift := hbit (i - 23)
    simp only [BitVec.getLsbD_and, BitVec.getLsbD_shiftLeft] at hshift ⊢
    interval_cases i <;> simp_all

theorem matchesData_outputBits (x : Word) : matchesData (outputBits x) x := by
  unfold matchesData
  refine BitVec.eq_of_getLsbD_eq fun i hi => ?_
  simp only [outputBits, BitVec.getLsbD_or, BitVec.getLsbD_and, BitVec.getLsbD_ushiftRight,
    BitVec.getLsbD_shiftLeft]
  interval_cases i <;> simp

theorem regular_outputCode (x : Word) : Regular (outputCode x) := by
  unfold Regular
  rw [swap32_outputCode]
  refine BitVec.eq_of_getLsbD_eq fun i hi => ?_
  simp only [outputBits, BitVec.getLsbD_or, BitVec.getLsbD_and, BitVec.getLsbD_ushiftRight]
  interval_cases i <;> simp

theorem Regular.xor {x y : Word} (hx : Regular x) (hy : Regular y) : Regular (x ^^^ y) := by
  unfold Regular at hx hy ⊢
  refine BitVec.eq_of_getLsbD_eq fun i hi => ?_
  have hxi := congrArg (fun w => w.getLsbD i) hx
  have hyi := congrArg (fun w => w.getLsbD i) hy
  simp only [swap32_xor, BitVec.getLsbD_and, BitVec.getLsbD_xor, BitVec.getLsbD_ushiftRight]
    at hxi hyi ⊢
  rw [Bool.and_xor_distrib_right, hxi, hyi, ← Bool.and_xor_distrib_right]

/-! ## Streams -/

/-- The words that `Initialize` makes of the first ones. -/
def raw (first : Buffer) (n : ℕ) : Word :=
  if n < seedSize then first n
  else (raw first (n - 17) <<< 23) ^^^ (raw first (n - 16) >>> 9) ^^^ raw first (n - 1)
  termination_by n
  decreasing_by all_goals simp only [seedSize] at *; omega

/-- The words that the buffer holds one after the other. -/
def stream (first : Buffer) (n : ℕ) : Word :=
  if n < lfgK then outputCode (raw first n)
  else stream first (n - lfgK) ^^^ stream first (n - lfgJ)
  termination_by n
  decreasing_by all_goals simp only [lfgK, lfgJ] at *; omega

theorem stream_recurrence (first : Buffer) :
    Recurrence (fun x y : Word => x ^^^ y) lfgJ lfgK (stream first) := by
  intro n
  rw [stream, if_neg (by omega), Nat.add_sub_cancel]
  rfl

theorem raw_congr {first first' : Buffer} (h : ∀ i < seedSize, first i = first' i) (n : ℕ) :
    raw first n = raw first' n := by
  induction n using Nat.strong_induction_on with
  | _ n ih =>
    rw [raw.eq_def first, raw.eq_def first']
    split
    · rename_i hn
      exact h n hn
    · rename_i hn
      simp only [seedSize] at hn
      rw [ih (n - 17) (by omega), ih (n - 16) (by omega), ih (n - 1) (by omega)]

theorem stream_congr {first first' : Buffer}
    (h : ∀ n, outputCode (raw first n) = outputCode (raw first' n)) (n : ℕ) :
    stream first n = stream first' n := by
  induction n using Nat.strong_induction_on with
  | _ n ih =>
    rw [stream.eq_def first, stream.eq_def first']
    split
    · exact h n
    · rename_i hn
      simp only [lfgK, lfgJ] at hn ⊢
      rw [ih (n - 521) (by omega), ih (n - 32) (by omega)]

/-! ## The buffer -/

theorem xor_xor_self (a c : Word) : (a ^^^ c) ^^^ c = a := by
  rw [BitVec.xor_assoc, BitVec.xor_self, BitVec.xor_zero]

theorem window_forward {first b : Buffer} {n : ℕ} (h : Window lfgK (stream first) n 0 b) :
    Window lfgK (stream first) (n + lfgK) 0 (forward b) :=
  forward_window (stream_recurrence first) (by decide) (by decide) h

theorem window_forwards {first b : Buffer} {n : ℕ} (q : ℕ)
    (h : Window lfgK (stream first) n 0 b) :
    Window lfgK (stream first) (n + q * lfgK) 0 (forward^[q] b) := by
  induction q with
  | zero => simpa using h
  | succ q ih =>
    rw [Function.iterate_succ_apply', Nat.succ_mul, ← Nat.add_assoc]
    exact window_forward ih

theorem window_backward {first b : Buffer} {n m : ℕ} (hm : m ≤ lfgK)
    (h : Window lfgK (stream first) n m b) :
    Window lfgK (stream first) n 0 (backward 0 m b) :=
  backward_window xor_xor_self (stream_recurrence first) (by decide) (by decide) hm h

theorem window_backwards {first b : Buffer} {n : ℕ} (q : ℕ)
    (h : Window lfgK (stream first) (n + q * lfgK) 0 b) :
    Window lfgK (stream first) n 0 ((backward 0 lfgK)^[q] b) := by
  induction q generalizing b with
  | zero => simpa using h
  | succ q ih =>
    rw [Function.iterate_succ_apply]
    refine ih (window_backward le_rfl ?_)
    intro i hi
    rw [h i hi, if_neg (Nat.not_lt_zero i), if_pos hi]
    congr 1
    rw [Nat.succ_mul]
    omega

theorem initFrom_eq {first : Buffer} {check : Bool} {n i : ℕ} {b b' : Buffer} (hi : seedSize ≤ i)
    (hb : ∀ k < i, b k = raw first k) (h : initFrom check n i b = some b') :
    ∀ k < i + n, b' k = raw first k := by
  induction n generalizing i b with
  | zero =>
    cases h
    exact hb
  | succ n ih =>
    rw [initFrom] at h
    split at h
    · cases h
    · have hrest := ih (Nat.le_succ_of_le hi) (fun k hk => ?_) h
      · intro k hk
        exact hrest k (by omega)
      · by_cases hki : k = i
        · subst hki
          have hlower : 17 ≤ k := hi
          rw [Function.update_self, calculated, hb _ (by omega), hb _ (by omega),
            hb _ (by omega), raw.eq_def first k, if_neg (by simpa [seedSize] using hi)]
        · rw [Function.update_of_ne hki]
          exact hb k (by omega)

/-- **`Initialize` leaves the first block of the stream**, whether it checks the data or not. -/
theorem initBuffer_window {first b' : Buffer} {check : Bool}
    (h : initBuffer check first = some b') :
    Window lfgK (stream first) (4 * lfgK) 0 b' := by
  obtain ⟨b, hb, rfl⟩ := Option.map_eq_some_iff.mp h
  have hraw := initFrom_eq le_rfl (fun k hk => by rw [raw, if_pos hk]) hb
  have hwindow : Window lfgK (stream first) 0 0 fun i => outputCode (b i) := by
    intro i hi
    simp only
    rw [hraw i hi, if_neg (Nat.not_lt_zero i), Nat.zero_add, stream, if_pos hi]
  have hforwards := window_forwards 4 hwindow
  rw [Nat.zero_add] at hforwards
  exact hforwards

theorem initFrom_false (n i : ℕ) (b : Buffer) : ∃ b', initFrom false n i b = some b' := by
  induction n generalizing i b with
  | zero => exact ⟨b, rfl⟩
  | succ n ih =>
    obtain ⟨b', hb'⟩ := ih (i + 1) (Function.update b i (calculated b i))
    exact ⟨b', by simpa [initFrom] using hb'⟩

/-- The first words of a seed. -/
def firstWords (seed : Seed) : Buffer := fun i => swap32 (seed i)

theorem setSeed_window (seed : Seed) :
    Window lfgK (stream (firstWords seed)) (4 * lfgK) 0 (setSeed seed).buffer := by
  obtain ⟨b, hb⟩ := initFrom_false (lfgK - seedSize) seedSize (seedBuffer seed fun _ => 0)
  have hinit : initBuffer false (seedBuffer seed fun _ => 0) = some (finishInit b) := by
    rw [initBuffer, hb]
    rfl
  have hwindow := initBuffer_window hinit
  have hbuffer : (setSeed seed).buffer =
      (initBuffer false (seedBuffer seed fun _ => 0)).getD fun _ => 0 := by
    simp only [setSeed]
  rw [hbuffer, hinit, Option.getD_some]
  intro i hi
  rw [hwindow i hi]
  have hfirst : ∀ k < seedSize, seedBuffer seed (fun _ => 0) k = firstWords seed k :=
    fun k hk => if_pos hk
  exact stream_congr (fun n => by rw [raw_congr hfirst]) _

/-! ## Bytes -/

/-- A byte of the junk data of a seed. -/
def streamByte (first : Buffer) (p : ℕ) : Byte :=
  wordByte (stream first (4 * lfgK + p / 4)) (p % 4)

/-- The generator stands at the byte `p` of its stream. -/
structure At (first : Buffer) (p : ℕ) (lfg : Generator) : Prop where
  buffer : Window lfgK (stream first) (4 * lfgK + p / bufferBytes * lfgK) 0 lfg.buffer
  position : lfg.positionBytes = p % bufferBytes

variable {first : Buffer} {p : ℕ} {lfg : Generator}

theorem At.bufferByte (h : At first p lfg) {i : ℕ} (hi : p % bufferBytes + i < bufferBytes) :
    wordByte (lfg.buffer ((lfg.positionBytes + i) / 4)) ((lfg.positionBytes + i) % 4) =
      streamByte first (p + i) := by
  simp only [bufferBytes, lfgK] at hi
  have hword := h.buffer ((p % bufferBytes + i) / 4) (by simp only [bufferBytes, lfgK]; omega)
  rw [if_neg (Nat.not_lt_zero _)] at hword
  have hindex : 4 * lfgK + p / bufferBytes * lfgK + (p % bufferBytes + i) / 4 =
      4 * lfgK + (p + i) / 4 := by
    simp only [bufferBytes, lfgK]
    omega
  have hoffset : (p % bufferBytes + i) % 4 = (p + i) % 4 := by
    simp only [bufferBytes, lfgK]
    omega
  rw [h.position, hword, streamByte, hindex, hoffset]

/-- The position moves on in the buffer, and the buffer moves on at its end. -/
theorem At.move (h : At first p lfg) {n : ℕ} (hn : p % bufferBytes + n ≤ bufferBytes) :
    At first (p + n)
      (if lfg.positionBytes + n = bufferBytes then ⟨forward lfg.buffer, 0⟩
        else ⟨lfg.buffer, lfg.positionBytes + n⟩) := by
  rw [h.position]
  split
  · rename_i hend
    have hdiv : (p + n) / bufferBytes = p / bufferBytes + 1 := by
      simp only [bufferBytes, lfgK] at hend ⊢
      omega
    refine ⟨?_, ?_⟩
    · simp only [hdiv, Nat.add_one_mul, ← Nat.add_assoc]
      exact window_forward h.buffer
    · simp only [bufferBytes, lfgK] at hend ⊢
      omega
  · rename_i hend
    have hdiv : (p + n) / bufferBytes = p / bufferBytes := by
      simp only [bufferBytes, lfgK] at hn hend ⊢
      omega
    refine ⟨?_, ?_⟩
    · rw [hdiv]
      exact h.buffer
    · simp only [bufferBytes, lfgK] at hn hend ⊢
      omega

theorem position_lt (p : ℕ) : p % bufferBytes < bufferBytes := Nat.mod_lt _ (by decide)

theorem At.getByte (h : At first p lfg) :
    lfg.getByte.1 = streamByte first p ∧ At first (p + 1) lfg.getByte.2 :=
  ⟨h.bufferByte (i := 0) (position_lt p), h.move (n := 1) (position_lt p)⟩

theorem At.getBytesFor {fuel count : ℕ} (h : At first p lfg) (hfuel : count ≤ fuel) :
    (Generator.getBytesFor fuel count lfg).1 =
      (List.range count).map fun i => streamByte first (p + i) := by
  induction fuel generalizing count p lfg with
  | zero =>
    rw [Nat.le_zero.mp hfuel]
    rfl
  | succ fuel ih =>
    rw [Generator.getBytesFor]
    split
    · rename_i hcount
      rw [hcount]
      rfl
    · rename_i hcount
      have hlt := position_lt p
      rw [← h.position] at hlt
      obtain ⟨n, hn⟩ : ∃ n, n = min count (bufferBytes - lfg.positionBytes) := ⟨_, rfl⟩
      have hle : lfg.positionBytes + n ≤ bufferBytes := by omega
      simp only [← hn]
      rw [ih (h.move (h.position ▸ hle)) (by omega)]
      have hcopy : lfg.copy n = (List.range n).map fun i => streamByte first (p + i) := by
        refine List.map_congr_left fun i hi => h.bufferByte ?_
        rw [← h.position]
        have := List.mem_range.mp hi
        omega
      have hcount' : count = n + (count - n) := by omega
      rw [hcopy]
      conv_rhs => rw [hcount', List.range_add, List.map_append, List.map_map]
      congr 1
      exact List.map_congr_left fun i _ => by rw [Function.comp_apply, Nat.add_assoc]

/-- **`GetBytes` outputs the stream.** -/
theorem At.getBytes (h : At first p lfg) (count : ℕ) :
    (lfg.getBytes count).1 = (List.range count).map fun i => streamByte first (p + i) :=
  h.getBytesFor le_rfl

theorem At.after_getBytesFor {fuel count : ℕ} (h : At first p lfg) (hfuel : count ≤ fuel) :
    At first (p + count) (Generator.getBytesFor fuel count lfg).2 := by
  induction fuel generalizing count p lfg with
  | zero =>
    rw [Nat.le_zero.mp hfuel]
    exact h
  | succ fuel ih =>
    rw [Generator.getBytesFor]
    split
    · rename_i hcount
      rw [hcount]
      exact h
    · rename_i hcount
      have hlt := position_lt p
      rw [← h.position] at hlt
      obtain ⟨n, hn⟩ : ∃ n, n = min count (bufferBytes - lfg.positionBytes) := ⟨_, rfl⟩
      have hle : lfg.positionBytes + n ≤ bufferBytes := by omega
      have hcount' : p + count = p + n + (count - n) := by omega
      simp only [← hn]
      rw [hcount']
      exact ih (h.move (h.position ▸ hle)) (by omega)

theorem At.after_getBytes (h : At first p lfg) (count : ℕ) :
    At first (p + count) (lfg.getBytes count).2 :=
  h.after_getBytesFor le_rfl

/-- The generator stands where the position says, once the position is in the buffer. -/
theorem forwardFor_at {fuel q n : ℕ} {b : Buffer}
    (h : Window lfgK (stream first) (4 * lfgK + q * lfgK) 0 b) (hfuel : n ≤ fuel) :
    At first (q * bufferBytes + n) (Generator.forwardFor fuel ⟨b, n⟩) := by
  have hhere : ∀ {n : ℕ} {b : Buffer} {q : ℕ},
      Window lfgK (stream first) (4 * lfgK + q * lfgK) 0 b → n < bufferBytes →
        At first (q * bufferBytes + n) ⟨b, n⟩ := by
    intro n b q h hn
    have hdiv : (q * bufferBytes + n) / bufferBytes = q := by
      simp only [bufferBytes, lfgK] at hn ⊢
      omega
    refine ⟨?_, ?_⟩
    · rw [hdiv]
      exact h
    · simp only [bufferBytes, lfgK] at hn ⊢
      omega
  induction fuel generalizing n b q with
  | zero =>
    rw [Nat.le_zero.mp hfuel]
    exact hhere h (by decide)
  | succ fuel ih =>
    rw [Generator.forwardFor]
    split
    · rename_i hn
      have hnext := window_forward h
      rw [Nat.add_assoc, ← Nat.add_one_mul] at hnext
      have hrest := ih hnext (n := n - bufferBytes) (by simp only [bufferBytes, lfgK] at *; omega)
      have hsum : (q + 1) * bufferBytes + (n - bufferBytes) = q * bufferBytes + n := by
        simp only [bufferBytes, lfgK] at *
        omega
      rwa [hsum] at hrest
    · rename_i hn
      exact hhere h (Nat.not_le.mp hn)

/-- **`Forward` goes to a byte of the stream.** -/
theorem setSeed_forwardBytes (seed : Seed) (count : ℕ) :
    At (firstWords seed) count ((setSeed seed).forwardBytes count) := by
  have hwindow : Window lfgK (stream (firstWords seed)) (4 * lfgK + 0 * lfgK) 0
      (setSeed seed).buffer := by simpa using setSeed_window seed
  have hat : At (firstWords seed) (0 * bufferBytes + (0 + count))
      (Generator.forwardFor (0 + count) ⟨(setSeed seed).buffer, 0 + count⟩) :=
    forwardFor_at hwindow le_rfl
  have hsum : 0 * bufferBytes + (0 + count) = count := by omega
  rw [hsum] at hat
  exact hat

end LaggedFibonacciGenerator
