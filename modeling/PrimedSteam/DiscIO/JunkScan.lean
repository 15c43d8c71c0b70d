import PrimedSteam.Lib.While
import PrimedSteam.DiscIO.FileCache
import PrimedSteam.DiscIO.LaggedFibonacciGenerator

/-!
# Looking for junk

Before data is packed it is scanned for junk: after the zeros that stand at a position, a seed is looked
for in the rest
of the block, and the scan goes on behind the block or behind the file that stands there.

* `scanStep`: one iteration.
* `scan_terminates`: every iteration advances, and the scan ends.
* `callsSafe_iff`: when a seed is looked for inside the data.
-/

set_option autoImplicit false

namespace JunkScan

open FileSystemGCWii hiding Byte
open LaggedFibonacciGenerator While

/-- The bytes of a seed. -/
def seedSizeBytes : ℕ := seedSize * 4

/-- `VolumeWii::BLOCK_TOTAL_SIZE` -/
def blockTotalSize : ℕ := 0x8000

/-- `AlignUp` -/
def alignUp (value size : ℕ) : ℕ := u64 (value + (size - 1)) - u64 (value + (size - 1)) % size

structure JunkInfo where
  startOffset : ℕ
  seed : Seed

instance : Inhabited JunkInfo := ⟨0, fun _ => 0⟩

/-- The file system of the disc: its table, and the shift of its offsets. -/
structure FileSystem where
  fst : Table
  offsetShift : ℕ

/-- What the scan is called with. The bytes are in memory at an address; a read behind them gives bytes that are not
known, with which a search for a seed has some result. -/
structure Input where
  data : List Byte
  address : ℕ
  compression : Bool
  fileSystem : Option FileSystem
  overrun : ℕ → ℕ → ℕ × Seed
  length_lt : data.length < 2 ^ 64

structure State where
  position : ℕ
  dataOffset : ℕ
  junkInfo : OrderedMap ℕ JunkInfo

/-- The beginning of the scan. -/
def start (dataOffset : ℕ) : State := ⟨0, dataOffset, OrderedMap.empty⟩

section Step

variable (input : Input)

/-- The zeros at a position. -/
def zeroes (position : ℕ) : ℕ := ((input.data.drop position).takeWhile (· = 0)).length

/-- The rest of the block, or of the data. -/
def bytesToRead (position dataOffset : ℕ) : ℕ :=
  min (u64 (alignUp (u64 (dataOffset + 1)) blockTotalSize + 2 ^ 64 - dataOffset)) (input.data.length - position)

/-- The call of `GetSeed`; it compares no more bytes than it is given. -/
def callGetSeed (position size dataOffsetMod : ℕ) : ℕ × Seed :=
  match getSeed (input.address + position) ((input.data.drop position).take size) dataOffsetMod fun _ => 0 with
  | some result => result
  | none => (min (input.overrun position size).1 size, (input.overrun position size).2)

/-- The end of the file at an offset, if the file system has one there. -/
def fileEndAt (discOffset : ℕ) : Option ℕ := do
  let fileSystem ← input.fileSystem
  let index ← (findFileInfoAt fileSystem.fst fileSystem.offsetShift discOffset).getD none
  getEnd fileSystem.fst fileSystem.offsetShift index

/-- The position and the offset behind the file at the offset, if that ends in what was read, or else behind what was
read. -/
def skip (position dataOffset bytesReconstructed bytesToRead : ℕ) : ℕ × ℕ :=
  let behindBlock := (u64 (position + bytesToRead), u64 (dataOffset + bytesToRead))
  match fileEndAt input (u64 (dataOffset + bytesReconstructed)) with
  | some fileEndOffset =>
    if fileEndOffset < u64 (dataOffset + bytesToRead) then
      (u64 (position + u64 (fileEndOffset + 2 ^ 64 - dataOffset)), fileEndOffset)
    else behindBlock
  | none => behindBlock

/-- The position and the offset behind the zeros, where a seed is looked for. -/
def callPosition (s : State) : ℕ := u64 (s.position + zeroes input s.position)

def callOffset (s : State) : ℕ := u64 (s.dataOffset + zeroes input s.position)

/-- The number of bytes for the call. -/
def callSize (s : State) : ℕ := bytesToRead input (callPosition input s) (callOffset input s)

/-- One iteration. -/
def scanStep (s : State) : State :=
  let zeroes := zeroes input s.position
  -- many zeros are junk too, unless they are compressed
  let junkInfo := if !input.compression && seedSizeBytes < zeroes then
    s.junkInfo.emplace (s.position + zeroes) ⟨s.position, fun _ => 0⟩ else s.junkInfo
  let position := callPosition input s
  let dataOffset := callOffset input s
  let bytesToRead := callSize input s
  let (bytesReconstructed, seed) := callGetSeed input position bytesToRead (dataOffset % blockTotalSize)
  let junkInfo := if 0 < bytesReconstructed then
    junkInfo.emplace (position + bytesReconstructed) ⟨position, seed⟩ else junkInfo
  let (position, dataOffset) := skip input position dataOffset bytesReconstructed bytesToRead
  ⟨position, dataOffset, junkInfo⟩

/-- The loop, with at most `fuel` iterations. -/
def scan (fuel : ℕ) (s : State) : Option (Except Empty State) :=
  whileLoop (fun s => decide (s.position < input.data.length)) (fun s => .ok (scanStep input s)) fuel s

end Step

/-! ## Advancing -/

section Advance

variable (input : Input)

theorem zeroes_le (position : ℕ) : zeroes input position ≤ input.data.length - position := by
  have h := (List.takeWhile_sublist (l := input.data.drop position) (· = 0)).length_le
  rw [List.length_drop] at h
  exact h

theorem block_rest {dataOffset : ℕ} (h : dataOffset < 2 ^ 64) :
    u64 (alignUp (u64 (dataOffset + 1)) blockTotalSize + 2 ^ 64 - dataOffset)
      = blockTotalSize - dataOffset % blockTotalSize := by
  unfold u64 alignUp u64 blockTotalSize
  omega

theorem bytesToRead_eq (position : ℕ) {dataOffset : ℕ} (h : dataOffset < 2 ^ 64) :
    bytesToRead input position dataOffset
      = min (blockTotalSize - dataOffset % blockTotalSize) (input.data.length - position) := by
  rw [bytesToRead, block_rest h]

theorem matching_le (lfg : Generator) (bytes : List Byte) : matching lfg bytes ≤ bytes.length := by
  induction bytes generalizing lfg with
  | nil => exact le_rfl
  | cons b bytes ih =>
    rw [matching, List.length_cons]
    have hle := ih lfg.getByte.2
    dsimp only
    split_ifs
    · omega
    · omega

theorem getSeed_le {address dataOffset : ℕ} {data : List Byte} {seedOut : Seed} {result : ℕ × Seed}
    (h : getSeed address data dataOffset seedOut = some result) : result.1 ≤ data.length := by
  unfold getSeed at h
  dsimp only at h
  split_ifs at h
  · cases h
    exact Nat.zero_le _
  · generalize getSeedWords _ _ _ = words at h
    obtain ⟨buffer, seed⟩ := words
    cases buffer with
    | none =>
      cases h
      exact Nat.zero_le _
    | some buffer =>
      cases h
      exact matching_le _ _

theorem callGetSeed_le (position size dataOffsetMod : ℕ) :
    (callGetSeed input position size dataOffsetMod).1 ≤ size := by
  rw [callGetSeed]
  cases h : getSeed (input.address + position) ((input.data.drop position).take size) dataOffsetMod fun _ => 0 with
  | none => exact Nat.min_le_right _ _
  | some result => exact (getSeed_le h).trans (List.length_take_le _ _)

theorem lt_of_fileEndAt {discOffset fileEnd : ℕ} (h : fileEndAt input discOffset = some fileEnd) :
    discOffset < fileEnd ∧ fileEnd < 2 ^ 64 := by
  rw [fileEndAt] at h
  obtain ⟨fileSystem, -, h⟩ := Option.bind_eq_some_iff.mp h
  obtain ⟨index, hindex, hend⟩ := Option.bind_eq_some_iff.mp h
  obtain ⟨result, hresult, hcontains⟩ := findFileInfoAt_spec fileSystem.fst fileSystem.offsetShift discOffset
  rw [hresult, Option.getD_some] at hindex
  obtain ⟨-, offset, size, hoffset, hsize, -, hlt⟩ := hcontains index hindex
  rw [getEnd, hoffset, hsize] at hend
  cases hend
  exact ⟨hlt, Nat.mod_lt _ (by decide)⟩

/-- The position stays inside the data, and at the same distance from the offset, up to words. -/
structure Aligned (phase : ℕ) (s : State) : Prop where
  position_le : s.position ≤ input.data.length
  offset_lt : s.dataOffset < 2 ^ 64
  aligned : s.dataOffset % 4 = (s.position + phase) % 4

variable {phase : ℕ}

theorem skip_spec {position dataOffset bytesReconstructed bytesToRead : ℕ} (hd : dataOffset < 2 ^ 64)
    (hle : bytesReconstructed ≤ bytesToRead) (hoffset : dataOffset + bytesToRead ≤ 2 ^ 64)
    (hposition : position + bytesToRead < 2 ^ 64) :
    ∃ n ≤ bytesToRead, skip input position dataOffset bytesReconstructed bytesToRead
        = (position + n, u64 (dataOffset + n)) ∧ (0 < bytesToRead → 0 < n) := by
  have hblock : (u64 (position + bytesToRead), u64 (dataOffset + bytesToRead))
      = (position + bytesToRead, u64 (dataOffset + bytesToRead)) := by
    rw [u64, Nat.mod_eq_of_lt hposition]
  rw [skip]
  cases hfile : fileEndAt input (u64 (dataOffset + bytesReconstructed)) with
  | none => exact ⟨bytesToRead, le_rfl, hblock, id⟩
  | some fileEnd =>
    obtain ⟨hlt, hend⟩ := lt_of_fileEndAt input hfile
    dsimp only
    by_cases hless : fileEnd < u64 (dataOffset + bytesToRead)
    · -- what was read does not reach the end of the address space
      have hinside : dataOffset + bytesToRead < 2 ^ 64 := by
        unfold u64 at hless
        omega
      have hbounds : dataOffset + bytesReconstructed < fileEnd ∧ fileEnd < dataOffset + bytesToRead := by
        unfold u64 at hless hlt
        omega
      refine ⟨fileEnd - dataOffset, by omega, ?_, fun _ => by omega⟩
      rw [if_pos hless, Prod.mk.injEq]
      unfold u64
      constructor
      · omega
      · omega
    · rw [if_neg hless]
      exact ⟨bytesToRead, le_rfl, hblock, id⟩

theorem zeroes_spec {s : State} (h : Aligned input phase s) :
    s.position + zeroes input s.position ≤ input.data.length ∧
      u64 (s.dataOffset + zeroes input s.position) < 2 ^ 64 ∧
      u64 (s.dataOffset + zeroes input s.position) % 4 = (s.position + zeroes input s.position + phase) % 4 := by
  have hzeroes := zeroes_le input s.position
  have hposition := h.position_le
  have haligned := h.aligned
  unfold u64
  omega

/-- **An iteration advances**, not beyond the data. -/
theorem scanStep_spec {s : State} (h : Aligned input phase s) (hlt : s.position < input.data.length) :
    Aligned input phase (scanStep input s) ∧ s.position < (scanStep input s).position := by
  have hlength := input.length_lt
  obtain ⟨hzeroes, hd, haligned⟩ := zeroes_spec input h
  have hp : callPosition input s = s.position + zeroes input s.position := Nat.mod_eq_of_lt (by omega)
  change callOffset input s < 2 ^ 64 at hd
  change callOffset input s % 4 = _ at haligned
  rw [scanStep]
  dsimp only
  rw [callSize, hp]
  generalize hposition : s.position + zeroes input s.position = position at *
  generalize callOffset input s = dataOffset at *
  have hread := bytesToRead_eq input position hd
  have hle := callGetSeed_le input position (bytesToRead input position dataOffset) (dataOffset % blockTotalSize)
  have hrest : dataOffset % blockTotalSize < blockTotalSize ∧ blockTotalSize = 0x8000 :=
    ⟨Nat.mod_lt _ (by decide), rfl⟩
  have hoffset : dataOffset + bytesToRead input position dataOffset ≤ 2 ^ 64 := by
    rw [hread]
    unfold blockTotalSize
    omega
  have hend : position + bytesToRead input position dataOffset < 2 ^ 64 := by omega
  obtain ⟨n, hn, hskip, hpos⟩ := skip_spec input hd hle hoffset hend
  rw [hskip]
  refine ⟨⟨?_, Nat.mod_lt _ (by decide), ?_⟩, ?_⟩
  · change position + n ≤ input.data.length
    omega
  · change u64 (dataOffset + n) % 4 = (position + n + phase) % 4
    unfold u64
    omega
  · change s.position < position + n
    rcases Nat.lt_or_ge position input.data.length with hmore | hall
    · have hsome := hpos (by omega)
      omega
    · omega

theorem aligned_start (dataOffset : BitVec 64) : Aligned input dataOffset.toNat (start dataOffset.toNat) :=
  ⟨Nat.zero_le _, dataOffset.isLt, by rw [start, Nat.zero_add]⟩

/-- The states that the loop comes to. -/
inductive Visits (s : State) : State → Prop where
  | start : Visits s s
  | step {t : State} (h : Visits s t) (hlt : t.position < input.data.length) : Visits s (scanStep input t)

theorem Visits.aligned {s t : State} (hs : Aligned input phase s)
    (h : Visits input s t) : Aligned input phase t := by
  induction h with
  | start => exact hs
  | step h hlt ih => exact (scanStep_spec input ih hlt).1

/-- **The scan ends**: a file that is found contains the offset, and so every iteration advances, not
beyond the data,
whatever the files and the offset are. -/
theorem scan_terminates (dataOffset : BitVec 64) :
    (∀ (fileSystem : FileSystem) (discOffset index : ℕ),
      findFileInfoAt fileSystem.fst fileSystem.offsetShift discOffset = some (some index) →
      Contains fileSystem.fst fileSystem.offsetShift discOffset index) ∧
    (∀ t, Visits input (start dataOffset.toNat) t → t.position < input.data.length →
      t.position < (scanStep input t).position ∧ (scanStep input t).position ≤ input.data.length) ∧
    ∃ t, scan input (input.data.length + 1) (start dataOffset.toNat) = some (.ok t) ∧
      t.position = input.data.length := by
  have hstart := aligned_start input dataOffset
  refine ⟨fun fileSystem discOffset index h => ?_, fun t ht hlt => ?_, ?_⟩
  · obtain ⟨result, hresult, hcontains⟩ := findFileInfoAt_spec fileSystem.fst fileSystem.offsetShift discOffset
    rw [h, Option.some_inj] at hresult
    exact hcontains index (by rw [← hresult]; rfl)
  · obtain ⟨haligned, hadvance⟩ := scanStep_spec input (Visits.aligned input hstart ht) hlt
    exact ⟨hadvance, haligned.position_le⟩
  · obtain ⟨t, ht⟩ : ∃ t, scan input (input.data.length + 1) (start dataOffset.toNat) = some (.ok t) := by
      refine whileLoop_terminates (fun s => input.data.length - s.position) (fun s hs hlt => ?_) hstart (by omega)
      have hless : s.position < input.data.length := of_decide_eq_true hlt
      obtain ⟨haligned, hadvance⟩ := scanStep_spec input hs hless
      exact ⟨_, rfl, haligned, by omega⟩
    refine ⟨t, ht, ?_⟩
    obtain ⟨haligned, hend⟩ := whileLoop_invariant (fun s s' hs hlt hs' => by
      cases hs'
      exact (scanStep_spec input hs (of_decide_eq_true hlt)).1) hstart ht
    have hge : ¬t.position < input.data.length := of_decide_eq_false hend
    have hle := haligned.position_le
    omega

end Advance

/-! ## Seeds inside the data -/

section Calls

variable (input : Input)

/-- The call has the bytes that are skipped. -/
def CallSafe (s : State) : Prop :=
  alignUp (callOffset input s % blockTotalSize) 4 - callOffset input s % blockTotalSize ≤ callSize input s

/-- Nothing is read behind the bytes of the call. -/
def CallInside (s : State) : Prop :=
  ∀ seedOut, (getSeed (input.address + callPosition input s)
    ((input.data.drop (callPosition input s)).take (callSize input s)) (callOffset input s % blockTotalSize)
      seedOut).isSome

theorem alignUp_four {x : ℕ} (h : x < blockTotalSize) : alignUp x 4 - x = (4 - x % 4) % 4 := by
  unfold alignUp u64
  unfold blockTotalSize at h
  omega

theorem callInside_of_callSafe {s : State} (h : CallSafe input s) : CallInside input s := by
  intro seedOut
  rw [CallSafe, alignUp_four (Nat.mod_lt _ (by decide))] at h
  have hlength : ((input.data.drop (callPosition input s)).take (callSize input s)).length = callSize input s := by
    rw [List.length_take, List.length_drop]
    exact Nat.min_eq_left (Nat.min_le_right _ _)
  unfold getSeed
  dsimp only
  rw [hlength, if_neg (not_lt.mpr h)]
  split_ifs
  · rfl
  · generalize getSeedWords _ _ _ = words
    obtain ⟨buffer, seed⟩ := words
    cases buffer with
    | none => rfl
    | some buffer => rfl

/-- **When a call has the bytes that are skipped**: if the zeros do not end in the last, partial word. -/
theorem callSafe_iff {phase : ℕ} {s : State} (h : Aligned input phase s) (hphase : phase % 4 = 0) :
    CallSafe input s ↔ s.position + zeroes input s.position ≤ input.data.length / 4 * 4 := by
  have hlength := input.length_lt
  obtain ⟨hzeroes, hd, haligned⟩ := zeroes_spec input h
  have hp : callPosition input s = s.position + zeroes input s.position := Nat.mod_eq_of_lt (by omega)
  have hoffset : callOffset input s % 4 = callPosition input s % 4 := by
    rw [hp, callOffset, haligned]
    omega
  change callOffset input s < 2 ^ 64 at hd
  rw [← hp] at hzeroes ⊢
  rw [CallSafe, alignUp_four (Nat.mod_lt _ (by decide)), callSize, bytesToRead_eq input _ hd]
  generalize callOffset input s = dataOffset at *
  generalize callPosition input s = position at *
  unfold blockTotalSize
  omega

/-- **When a seed is looked for inside the data**: if and only if no iteration has zeros that end in the
last, partial
word of the data, and so always if there is none. -/
theorem callsSafe_iff (dataOffset : BitVec 64) (h4 : dataOffset.toNat % 4 = 0) :
    ((∀ t, Visits input (start dataOffset.toNat) t → t.position < input.data.length →
        CallSafe input t ∧ CallInside input t) ↔
      ∀ t, Visits input (start dataOffset.toNat) t → t.position < input.data.length →
        t.position + zeroes input t.position ≤ input.data.length / 4 * 4) ∧
      (input.data.length % 4 = 0 →
        ∀ t, Visits input (start dataOffset.toNat) t → t.position < input.data.length →
          CallSafe input t ∧ CallInside input t) := by
  have hstart := aligned_start input dataOffset
  have hcall : ∀ t, Visits input (start dataOffset.toNat) t →
      (CallSafe input t ↔ t.position + zeroes input t.position ≤ input.data.length / 4 * 4) :=
    fun t ht => callSafe_iff input (Visits.aligned input hstart ht) h4
  have hsafe : ∀ t, CallSafe input t → CallSafe input t ∧ CallInside input t :=
    fun t h => ⟨h, callInside_of_callSafe input h⟩
  refine ⟨⟨fun h t ht hlt => (hcall t ht).mp (h t ht hlt).1, fun h t ht hlt =>
    hsafe t ((hcall t ht).mpr (h t ht hlt))⟩,
    fun hwords t ht hlt => hsafe t ((hcall t ht).mpr ?_)⟩
  have hzeroes := zeroes_le input t.position
  omega

end Calls

/-- A zero and another byte. -/
def shortInput : Input where
  data := [0, 1]
  address := 0
  compression := false
  fileSystem := none
  overrun := fun _ _ => (0, fun _ => 0)
  length_lt := by decide

theorem callsSafe_short :
    ((∀ t, Visits shortInput (start 0) t → t.position < 2 → CallSafe shortInput t ∧ CallInside shortInput t) ↔
      ∀ t, Visits shortInput (start 0) t → t.position < 2 → t.position + zeroes shortInput t.position ≤ 0) :=
  (callsSafe_iff shortInput 0 (by decide)).1

theorem not_callsSafe_short : Visits shortInput (start 0) (start 0) ∧ ¬CallSafe shortInput (start 0) ∧
    ¬CallInside shortInput (start 0) := by
  refine ⟨.start, by unfold CallSafe; decide, fun h => ?_⟩
  have hcall := h fun _ => 0
  revert hcall
  decide

end JunkScan
