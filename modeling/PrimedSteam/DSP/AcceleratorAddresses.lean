import PrimedSteam.DSP.Accelerator
import PrimedSteam.Lib.WordMasks
import Mathlib.Data.List.Infix

/-!
# The addresses of the accelerator

* `apply_current_le`: what an operation does to the current address.
* `visited_eq_range'`: PCM samples between two loops.
* **`address_discipline`**: the current address stays within the end address, and the exception is raised
  where it loops back to the start.
-/

set_option autoImplicit false

namespace DSP.Accelerator

/-! ## Bits of addresses -/

theorem toNat_and_15 (x : BitVec 32) : (x &&& 15#32).toNat = x.toNat % 16 := by
  rw [BitVec.toNat_and]
  exact Nat.and_two_pow_sub_one_eq_mod x.toNat 4

theorem and_15_eq_zero_iff (x : BitVec 32) : x &&& 15#32 = 0#32 ↔ x.toNat % 16 = 0 := by
  rw [BitVec.toNat_eq, toNat_and_15]
  rfl

theorem and_15_eq_one_iff (x : BitVec 32) : x &&& 15#32 = 1#32 ↔ x.toNat % 16 = 1 := by
  rw [BitVec.toNat_eq, toNat_and_15]
  rfl

theorem toNat_group (x y : BitVec 32) :
    ((x &&& ~~~3#32) ||| (y &&& 3#32)).toNat = x.toNat / 4 * 4 + y.toNat % 4 := by
  have hlow : (y &&& 3#32).toNat = y.toNat % 4 := by
    rw [BitVec.toNat_and]
    exact Nat.and_two_pow_sub_one_eq_mod y.toNat 2
  have hhigh : (x &&& ~~~3#32).toNat = x.toNat / 4 * 4 :=
    @WordMask.toNat_and_not 2 32 x 3#32 (by decide) rfl
  have hdisjoint : (x &&& ~~~3#32) &&& (y &&& 3#32) = 0#32 := by
    rw [BitVec.and_comm y, ← BitVec.and_assoc, BitVec.and_assoc x]
    have hzero : ~~~3#32 &&& 3#32 = 0#32 := by decide
    rw [hzero, BitVec.and_zero, BitVec.zero_and]
  have hx := x.isLt
  rw [← BitVec.add_eq_or_of_and_eq_zero _ _ hdisjoint, BitVec.toNat_add, hhigh, hlow]
  omega

theorem and_currentAddressMask {x : BitVec 32} (h : x.toNat < 2 ^ 30) : x &&& currentAddressMask = x := by
  have hlow : x &&& startEndAddressMask = x := by
    refine BitVec.eq_of_toNat_eq ?_
    rw [BitVec.toNat_and]
    exact (Nat.and_two_pow_sub_one_eq_mod x.toNat 30).trans (Nat.mod_eq_of_lt h)
  have hmask : startEndAddressMask &&& currentAddressMask = startEndAddressMask := by decide
  calc x &&& currentAddressMask = x &&& startEndAddressMask &&& currentAddressMask := by rw [hlow]
    _ = x &&& startEndAddressMask := by rw [BitVec.and_assoc, hmask]
    _ = x := hlow

/-! ## Runs -/

/-- The end address is one of the two that the source singles out for ADPCM, and the address before the
header is reached. -/
def AtAdpcmEnd (s : Accelerator) : Prop :=
  s.sampleFormat.decode = .adpcm ∧
    (s.endAddress &&& 15#32 = 0#32 ∧ s.currentAddress + 1#32 = s.endAddress ∨
      s.endAddress &&& 15#32 = 1#32 ∧ s.currentAddress + 1#32 = s.endAddress - 1#32)

/-- An operation of a run, with the accelerator before it. -/
structure Event where
  before : Accelerator
  operation : Operation
  result : Accessed

def trace (memory : BitVec 32 → BitVec 8) (s : Accelerator) : List Operation → List Event
  | [] => []
  | op :: ops => ⟨s, op, s.apply memory op⟩ :: trace memory (s.apply memory op).next ops

namespace Event

/-- The address that an access takes its sample from and goes on from. Stopped reads and samples from
`input` without an increment take none. -/
def visited (e : Event) : Option (BitVec 32) :=
  match e.operation with
  | .readSample _ =>
    if e.before.readsStopped = true ∨ e.before.sampleFormat.decode = .mmioPcmNoInc then none
    else some e.before.currentAddress
  | .readRaw => some e.before.currentAddress
  | .setYn2 _ | .setSampleFormat _ => none

/-- The current address goes from the start or from behind it to the start. -/
def LoopsBack (e : Event) : Prop :=
  e.visited = some e.before.currentAddress ∧ e.before.startAddress ≤ e.before.currentAddress ∧
    e.result.next.currentAddress = e.before.startAddress

/-- A sample at one of the two end addresses that the source singles out. -/
def AtAdpcmEnd (e : Event) : Prop :=
  (∃ coefs, e.operation = .readSample coefs) ∧ e.before.AtAdpcmEnd

/-- A raw read without a size, at the last address of a group of four of which the start is the first one. -/
def TurnsInGroup (e : Event) : Prop :=
  e.operation = .readRaw ∧ e.before.sampleFormat.size = .sizeInvalid ∧
    e.before.currentAddress &&& 3#32 = 3#32 ∧ e.before.currentAddress - 3#32 = e.before.startAddress

/-- An access in a PCM format; a raw read has a size. -/
def Pcm (e : Event) : Prop :=
  e.before.sampleFormat.decode ≠ .adpcm ∧
    (e.operation = .readRaw → e.before.sampleFormat.size ≠ .sizeInvalid)

end Event

/-- The start address is not behind the end address, nor is the current address. -/
structure Disciplined (s : Accelerator) : Prop where
  start_le : s.startAddress ≤ s.endAddress
  end_masked : s.endAddress.toNat < 2 ^ 30
  current_le : s.currentAddress ≤ s.endAddress

variable {memory : BitVec 32 → BitVec 8} {s : Accelerator}

/-- An access that loops. -/
structure Looped (s : Accelerator) (result : Accessed) : Prop where
  current_eq : s.currentAddress = s.endAddress
  exception : result.exception = true
  next_eq : result.next.currentAddress = s.startAddress

theorem current_setCurrentAddress {s' : Accelerator} {address : BitVec 32} (h : address ≤ s.endAddress)
    (hs : Disciplined s) : (s'.setCurrentAddress address).currentAddress = address :=
  and_currentAddressMask (lt_of_le_of_lt (BitVec.le_def.mp h) hs.end_masked)

variable (memory) in
theorem readRaw_cases (hs : Disciplined s) :
    (s.sampleFormat.size = .sizeInvalid ∧ s.currentAddress &&& 3#32 = 3#32 ∧
        (s.readRaw memory).exception = false ∧ (s.readRaw memory).next.currentAddress = s.currentAddress - 3#32 ∧
        (s.readRaw memory).next.currentAddress ≤ s.currentAddress) ∨
      Looped s (s.readRaw memory) ∨
      s.currentAddress < s.endAddress ∧ (s.readRaw memory).exception = false ∧
        (s.readRaw memory).next.currentAddress = s.currentAddress + 1#32 := by
  have hstart := hs.start_le
  have hend := hs.end_masked
  have hcurrent := hs.current_le
  have hstep : s.rawStep.toNat = s.currentAddress.toNat + 1 ∨ s.sampleFormat.size = .sizeInvalid ∧
      s.currentAddress &&& 3#32 = 3#32 ∧ s.rawStep.toNat + 3 = s.currentAddress.toNat := by
    rw [BitVec.le_def] at hcurrent
    rw [rawStep]
    split_ifs with hsize
    · refine Or.inl ?_
      rw [BitVec.toNat_add, BitVec.toNat_ofNat]
      omega
    · have hlow : (s.currentAddress &&& 3#32).toNat = s.currentAddress.toNat % 4 := by
        rw [BitVec.toNat_and]
        exact Nat.and_two_pow_sub_one_eq_mod _ 2
      rw [toNat_group, BitVec.toNat_add, BitVec.toNat_ofNat]
      by_cases h3 : s.currentAddress.toNat % 4 = 3
      · refine Or.inr ⟨not_not.mp hsize, BitVec.eq_of_toNat_eq (hlow.trans h3), ?_⟩
        omega
      · refine Or.inl ?_
        omega
  rw [BitVec.le_def] at hstart hcurrent
  rw [readRaw]
  rcases hstep with hnext | ⟨hsize, h3, hnext⟩
  · by_cases hloop : s.currentAddress = s.endAddress
    · have heq : s.rawStep - 1#32 = s.endAddress := by bv_omega
      rw [if_pos heq]
      exact Or.inr (Or.inl ⟨hloop, rfl, current_setCurrentAddress hs.start_le hs⟩)
    · have hne : s.rawStep - 1#32 ≠ s.endAddress := by bv_omega
      rw [if_neg hne]
      have heq : s.rawStep = s.currentAddress + 1#32 := by bv_omega
      refine Or.inr (Or.inr ⟨by bv_omega, rfl, ?_⟩)
      rw [← heq]
      exact current_setCurrentAddress (by bv_omega) hs
  · have hne : s.rawStep - 1#32 ≠ s.endAddress := by bv_omega
    rw [if_neg hne]
    refine Or.inl ⟨hsize, h3, rfl, ?_⟩
    have hle : s.rawStep ≤ s.endAddress := by bv_omega
    rw [show ((s.setCurrentAddress s.rawStep).currentAddress) = s.rawStep from
      current_setCurrentAddress hle hs]
    exact ⟨by bv_omega, by bv_omega⟩

variable (memory) in
theorem readSample_looped (coefs : ℕ → BitVec 16) (hs : Disciplined s) (hrun : s.readsStopped = false)
    (h : (s.advance memory).address = s.endAddress + (s.advance memory).stepSize - 1#32) :
    (s.readSample memory coefs).exception = true ∧
      (s.readSample memory coefs).next.currentAddress = s.startAddress := by
  rw [readSample, if_neg (by simp [hrun])]
  dsimp only
  rw [if_pos h]
  exact ⟨rfl, current_setCurrentAddress hs.start_le hs⟩

variable (memory) in
theorem readSample_kept (coefs : ℕ → BitVec 16) (hs : Disciplined s) (hrun : s.readsStopped = false)
    (h : (s.advance memory).address ≠ s.endAddress + (s.advance memory).stepSize - 1#32)
    (hle : (s.advance memory).address ≤ s.endAddress) :
    (s.readSample memory coefs).exception = false ∧
      (s.readSample memory coefs).next.currentAddress = (s.advance memory).address := by
  rw [readSample, if_neg (by simp [hrun])]
  dsimp only
  rw [if_neg h]
  exact ⟨rfl, current_setCurrentAddress hle hs⟩

theorem readSample_atAdpcmEnd {coefs : ℕ → BitVec 16} (hs : Disciplined s) (hrun : s.readsStopped = false)
    (hend : s.AtAdpcmEnd) :
    (s.readSample memory coefs).next.currentAddress ≤ s.endAddress := by
  obtain ⟨hdecode, hend⟩ := hend
  have hstart := hs.start_le
  have hmasked := hs.end_masked
  have hcurrent := hs.current_le
  have hadvance : s.advance memory = s.adpcmAdvance memory := by rw [advance, hdecode]
  have hcases : s.adpcmAdvance memory = ⟨s.startAddress + 1#32, 2#32, s.predScale⟩ ∨
      s.adpcmAdvance memory = ⟨s.startAddress, 2#32, s.predScale⟩ := by
    rw [adpcmAdvance]
    by_cases hfirst : s.endAddress &&& 15#32 = 0#32 ∧ s.currentAddress + 1#32 = s.endAddress
    · rw [if_pos hfirst]
      exact Or.inl rfl
    · rw [if_neg hfirst, if_pos (hend.resolve_left hfirst)]
      exact Or.inr rfl
  by_cases hloop : (s.advance memory).address = s.endAddress + (s.advance memory).stepSize - 1#32
  · rw [(readSample_looped _ _ hs hrun hloop).2]
    exact hstart
  · have hle : (s.advance memory).address ≤ s.endAddress := by
      rw [hadvance] at hloop ⊢
      rcases hcases with h | h
      · rw [h] at hloop ⊢
        dsimp only at hloop ⊢
        bv_omega
      · rw [h]
        exact hstart
    rw [(readSample_kept _ _ hs hrun hloop hle).2]
    exact hle

variable (memory) in
theorem readSample_cases (coefs : ℕ → BitVec 16) (hs : Disciplined s) (hrun : s.readsStopped = false)
    (hend : ¬s.AtAdpcmEnd) :
    (s.sampleFormat.decode = .mmioPcmNoInc ∧ (s.readSample memory coefs).exception = false ∧
        (s.readSample memory coefs).next.currentAddress = s.currentAddress) ∨
      s.sampleFormat.decode ≠ .mmioPcmNoInc ∧ Looped s (s.readSample memory coefs) ∨
      s.sampleFormat.decode ≠ .mmioPcmNoInc ∧ (s.readSample memory coefs).exception = false ∧
        s.currentAddress < (s.readSample memory coefs).next.currentAddress ∧
        (s.readSample memory coefs).next.currentAddress ≤ s.endAddress ∧
        (s.sampleFormat.decode ≠ .adpcm →
          (s.readSample memory coefs).next.currentAddress = s.currentAddress + 1#32) := by
  have hmasked := hs.end_masked
  have hcurrent := hs.current_le
  have hone : ∀ pred, s.advance memory = ⟨s.currentAddress + 1#32, 2#32, pred⟩ →
      Looped s (s.readSample memory coefs) ∨ (s.readSample memory coefs).exception = false ∧
        s.currentAddress < (s.readSample memory coefs).next.currentAddress ∧
        (s.readSample memory coefs).next.currentAddress ≤ s.endAddress ∧
        (s.readSample memory coefs).next.currentAddress = s.currentAddress + 1#32 := by
    intro pred hadvance
    by_cases hloop : s.currentAddress = s.endAddress
    · obtain ⟨hexception, hnext⟩ := readSample_looped memory coefs hs hrun (by
        rw [hadvance]
        dsimp only
        bv_omega)
      exact Or.inl ⟨hloop, hexception, hnext⟩
    · obtain ⟨hexception, hnext⟩ := readSample_kept memory coefs hs hrun (by
        rw [hadvance]
        dsimp only
        bv_omega) (by
        rw [hadvance]
        dsimp only
        bv_omega)
      rw [hadvance] at hnext
      dsimp only at hnext
      rw [hnext]
      exact Or.inr ⟨hexception, by bv_omega, by bv_omega, rfl⟩
  cases hdecode : s.sampleFormat.decode with
  | mmioPcmNoInc =>
    have hadvance : s.advance memory = ⟨s.currentAddress, 2#32, s.predScale⟩ := by rw [advance, hdecode]
    obtain ⟨hexception, hnext⟩ := readSample_kept memory coefs hs hrun (by
      rw [hadvance]
      dsimp only
      bv_omega) (by
      rw [hadvance]
      exact hcurrent)
    rw [hadvance] at hnext
    exact Or.inl ⟨rfl, hexception, hnext⟩
  | pcm =>
    rcases hone s.predScale (by rw [advance, hdecode]) with hloop | ⟨h1, h2, h3, h4⟩
    · exact Or.inr (Or.inl ⟨by decide, hloop⟩)
    · exact Or.inr (Or.inr ⟨by decide, h1, h2, h3, fun _ => h4⟩)
  | mmioPcmInc =>
    rcases hone s.predScale (by rw [advance, hdecode]) with hloop | ⟨h1, h2, h3, h4⟩
    · exact Or.inr (Or.inl ⟨by decide, hloop⟩)
    · exact Or.inr (Or.inr ⟨by decide, h1, h2, h3, fun _ => h4⟩)
  | adpcm =>
    have hfirst : ¬(s.endAddress &&& 15#32 = 0#32 ∧ s.currentAddress + 1#32 = s.endAddress) :=
      fun h => hend ⟨hdecode, Or.inl h⟩
    have hsecond : ¬(s.endAddress &&& 15#32 = 1#32 ∧ s.currentAddress + 1#32 = s.endAddress - 1#32) :=
      fun h => hend ⟨hdecode, Or.inr h⟩
    have hadvance : s.advance memory = s.adpcmAdvance memory := by rw [advance, hdecode]
    rw [adpcmAdvance, if_neg hfirst, if_neg hsecond] at hadvance
    by_cases hheader : s.currentAddress + 1#32 &&& 15#32 = 0#32
    · rw [if_pos hheader] at hadvance
      rw [and_15_eq_zero_iff] at hheader
      by_cases hloop : s.currentAddress = s.endAddress
      · obtain ⟨hexception, hnext⟩ := readSample_looped memory coefs hs hrun (by
          rw [hadvance]
          dsimp only
          bv_omega)
        exact Or.inr (Or.inl ⟨by decide, hloop, hexception, hnext⟩)
      · -- the end address is behind the header, too
        have hle : s.currentAddress + 1#32 + 2#32 ≤ s.endAddress := by
          rw [and_15_eq_zero_iff] at hfirst
          rw [and_15_eq_one_iff] at hsecond
          bv_omega
        obtain ⟨hexception, hnext⟩ := readSample_kept memory coefs hs hrun (by
          rw [hadvance]
          dsimp only
          bv_omega) (by
          rw [hadvance]
          exact hle)
        rw [hadvance] at hnext
        dsimp only at hnext
        refine Or.inr (Or.inr ⟨by decide, hexception, ?_, ?_, fun h => absurd rfl h⟩)
        · rw [hnext]
          bv_omega
        · rw [hnext]
          exact hle
    · rw [if_neg hheader] at hadvance
      rcases hone s.predScale hadvance with hloop | ⟨h1, h2, h3, -⟩
      · exact Or.inr (Or.inl ⟨by decide, hloop⟩)
      · exact Or.inr (Or.inr ⟨by decide, h1, h2, h3, fun h => absurd rfl h⟩)

/-! ## Steps -/

theorem apply_start (op : Operation) : (s.apply memory op).next.startAddress = s.startAddress := by
  cases op with
  | readSample coefs =>
    simp only [apply, readSample]
    split_ifs <;> rfl
  | readRaw =>
    simp only [apply, readRaw]
    split_ifs <;> rfl
  | setYn2 yn2 => rfl
  | setSampleFormat format => rfl

theorem apply_end (op : Operation) : (s.apply memory op).next.endAddress = s.endAddress := by
  cases op with
  | readSample coefs =>
    simp only [apply, readSample]
    split_ifs <;> rfl
  | readRaw =>
    simp only [apply, readRaw]
    split_ifs <;> rfl
  | setYn2 yn2 => rfl
  | setSampleFormat format => rfl

theorem current_of_exception (hs : Disciplined s) {op : Operation}
    (h : (s.apply memory op).exception = true) :
    (s.apply memory op).next.currentAddress = s.startAddress := by
  cases op with
  | readSample coefs =>
    simp only [apply, readSample] at h ⊢
    split_ifs at h ⊢
    exact current_setCurrentAddress hs.start_le hs
  | readRaw =>
    simp only [apply, readRaw] at h ⊢
    split_ifs at h ⊢
    exact current_setCurrentAddress hs.start_le hs
  | setYn2 yn2 => exact absurd h Bool.false_ne_true
  | setSampleFormat format => exact absurd h Bool.false_ne_true

theorem readSample_stopped {coefs : ℕ → BitVec 16} (h : s.readsStopped = true) :
    s.readSample memory coefs = ⟨0, false, s⟩ := by
  rw [readSample, if_pos h]

/-- **The current address stays within the end address.** -/
theorem apply_current_le (hs : Disciplined s) (op : Operation) :
    (s.apply memory op).next.currentAddress ≤ s.endAddress := by
  have hcurrent := hs.current_le
  cases op with
  | readSample coefs =>
    change (s.readSample memory coefs).next.currentAddress ≤ s.endAddress
    by_cases hstopped : s.readsStopped = true
    · rw [readSample_stopped hstopped]
      exact hcurrent
    rw [Bool.not_eq_true] at hstopped
    by_cases hend : s.AtAdpcmEnd
    · exact readSample_atAdpcmEnd hs hstopped hend
    rcases readSample_cases memory coefs hs hstopped hend with
      ⟨-, -, hnext⟩ | ⟨-, hloop⟩ | ⟨-, -, -, hle, -⟩
    · rw [hnext]
      exact hcurrent
    · rw [hloop.next_eq]
      exact hs.start_le
    · exact hle
  | readRaw =>
    change (s.readRaw memory).next.currentAddress ≤ s.endAddress
    rcases readRaw_cases memory hs with ⟨-, -, -, -, hle⟩ | hloop | ⟨hlt, -, hnext⟩
    · exact BitVec.le_trans hle hcurrent
    · rw [hloop.next_eq]
      exact hs.start_le
    · rw [hnext]
      have hmasked := hs.end_masked
      bv_omega
  | setYn2 yn2 => exact hcurrent
  | setSampleFormat format => exact hcurrent

theorem Disciplined.apply (hs : Disciplined s) (op : Operation) : Disciplined (s.apply memory op).next where
  start_le := by
    rw [apply_start, apply_end]
    exact hs.start_le
  end_masked := by
    rw [apply_end]
    exact hs.end_masked
  current_le := by
    rw [apply_end]
    exact apply_current_le hs op

theorem Looped.loopsBack {op : Operation} (hs : Disciplined s) (h : Looped s (s.apply memory op))
    (hvisited : (⟨s, op, s.apply memory op⟩ : Event).visited = some s.currentAddress) :
    (s.apply memory op).exception = true ↔ (⟨s, op, s.apply memory op⟩ : Event).LoopsBack := by
  refine iff_of_true h.exception ⟨hvisited, ?_, h.next_eq⟩
  rw [h.current_eq]
  exact hs.start_le

theorem not_loopsBack {op : Operation} (hexception : (s.apply memory op).exception = false)
    (hnext : s.currentAddress < (s.apply memory op).next.currentAddress) :
    (s.apply memory op).exception = true ↔ (⟨s, op, s.apply memory op⟩ : Event).LoopsBack := by
  rw [hexception]
  refine iff_of_false Bool.false_ne_true fun h => ?_
  have hstart := h.2.1
  have hend := h.2.2
  dsimp only at hstart hend
  rw [hend] at hnext
  bv_omega

/-- **The exception is raised at the accesses that loop back.** -/
theorem exception_iff_loopsBack (hs : Disciplined s) (op : Operation)
    (hend : ¬(⟨s, op, s.apply memory op⟩ : Event).AtAdpcmEnd)
    (hgroup : ¬(⟨s, op, s.apply memory op⟩ : Event).TurnsInGroup) :
    (s.apply memory op).exception = true ↔ (⟨s, op, s.apply memory op⟩ : Event).LoopsBack := by
  cases op with
  | readSample coefs =>
    by_cases hstopped : s.readsStopped = true
    · refine iff_of_false ?_ fun h => ?_
      · change ¬(s.readSample memory coefs).exception = true
        rw [readSample_stopped hstopped]
        exact Bool.false_ne_true
      · have hvisited := h.1
        simp [Event.visited, hstopped] at hvisited
    rw [Bool.not_eq_true] at hstopped
    rcases readSample_cases memory coefs hs hstopped
      (fun h => hend ⟨⟨coefs, rfl⟩, h⟩) with
      ⟨hdecode, hexception, -⟩ | ⟨hdecode, hloop⟩ | ⟨-, hexception, hlt, -, -⟩
    · refine iff_of_false ?_ fun h => ?_
      · change ¬(s.readSample memory coefs).exception = true
        rw [hexception]
        exact Bool.false_ne_true
      · have hvisited := h.1
        simp [Event.visited, hdecode] at hvisited
    · refine Looped.loopsBack hs hloop ?_
      simp [Event.visited, hstopped, hdecode]
    · exact not_loopsBack hexception hlt
  | readRaw =>
    rcases readRaw_cases memory hs with ⟨hsize, h3, hexception, hnext, -⟩ | hloop | ⟨hlt, hexception, hnext⟩
    · refine iff_of_false ?_ fun h => hgroup ⟨rfl, hsize, h3, hnext.symm.trans h.2.2⟩
      change ¬(s.readRaw memory).exception = true
      rw [hexception]
      exact Bool.false_ne_true
    · exact Looped.loopsBack hs hloop rfl
    · refine not_loopsBack hexception ?_
      change s.currentAddress < (s.readRaw memory).next.currentAddress
      rw [hnext]
      have hmasked := hs.end_masked
      bv_omega
  | setYn2 yn2 => exact iff_of_false Bool.false_ne_true fun h => Option.some_ne_none _ h.1.symm
  | setSampleFormat format => exact iff_of_false Bool.false_ne_true fun h => Option.some_ne_none _ h.1.symm

/-! ## PCM formats -/

/-- An operation in a PCM format loops at the end address, goes on by one, or leaves the address as it is. -/
theorem pcm_cases (hs : Disciplined s) (op : Operation) (hpcm : (⟨s, op, s.apply memory op⟩ : Event).Pcm) :
    (⟨s, op, s.apply memory op⟩ : Event).visited = some s.currentAddress ∧
        Looped s (s.apply memory op) ∨
      (⟨s, op, s.apply memory op⟩ : Event).visited = some s.currentAddress ∧
        s.currentAddress < s.endAddress ∧ (s.apply memory op).exception = false ∧
        (s.apply memory op).next.currentAddress = s.currentAddress + 1#32 ∨
      (⟨s, op, s.apply memory op⟩ : Event).visited = none ∧ (s.apply memory op).exception = false ∧
        (s.apply memory op).next.currentAddress = s.currentAddress := by
  have hcurrent := hs.current_le
  have hmasked := hs.end_masked
  cases op with
  | readSample coefs =>
    by_cases hstopped : s.readsStopped = true
    · refine Or.inr (Or.inr ⟨?_, ?_, ?_⟩)
      · simp [Event.visited, hstopped]
      · exact congrArg Accessed.exception (readSample_stopped hstopped)
      · exact congrArg (fun r => r.next.currentAddress) (readSample_stopped hstopped)
    rw [Bool.not_eq_true] at hstopped
    rcases readSample_cases memory coefs hs hstopped (fun h => hpcm.1 h.1) with
      ⟨hdecode, hexception, hnext⟩ | ⟨hdecode, hloop⟩ | ⟨hdecode, hexception, -, hle, hnext⟩
    · refine Or.inr (Or.inr ⟨?_, hexception, hnext⟩)
      simp [Event.visited, hdecode]
    · refine Or.inl ⟨?_, hloop⟩
      simp [Event.visited, hstopped, hdecode]
    · have hnext := hnext hpcm.1
      refine Or.inr (Or.inl ⟨?_, ?_, hexception, hnext⟩)
      · simp [Event.visited, hstopped, hdecode]
      · rw [hnext] at hle
        bv_omega
  | readRaw =>
    rcases readRaw_cases memory hs with ⟨hsize, -⟩ | hloop | ⟨hlt, hexception, hnext⟩
    · exact absurd hsize (hpcm.2 rfl)
    · exact Or.inl ⟨rfl, hloop⟩
    · exact Or.inr (Or.inl ⟨rfl, hlt, hexception, hnext⟩)
  | setYn2 yn2 => exact Or.inr (Or.inr ⟨rfl, rfl, rfl⟩)
  | setSampleFormat format => exact Or.inr (Or.inr ⟨rfl, rfl, rfl⟩)

theorem exists_of_mem_trace {ops : List Operation} {l₁ l₂ : List Event} {e : Event} (hs : Disciplined s)
    (h : trace memory s ops = l₁ ++ e :: l₂) :
    Disciplined e.before ∧ e.before.startAddress = s.startAddress ∧ e.before.endAddress = s.endAddress ∧
      e.result = e.before.apply memory e.operation ∧ ∃ ops', l₂ = trace memory e.result.next ops' := by
  induction ops generalizing s l₁ with
  | nil => exact absurd h (by simp [trace])
  | cons op ops ih =>
    rw [trace] at h
    cases l₁ with
    | nil =>
      obtain ⟨rfl, rfl⟩ := List.cons.inj h
      exact ⟨hs, rfl, rfl, rfl, ops, rfl⟩
    | cons e' l₁ =>
      obtain ⟨hbefore, hstart, hend, hrest⟩ := ih (hs.apply op) (List.cons.inj h).2
      exact ⟨hbefore, hstart.trans (apply_start op), hend.trans (apply_end op), hrest⟩

/-- **The addresses up to the loop**, by induction on the accesses before it. -/
theorem visited_eq_range' {ops : List Operation} {mid l₂ : List Event} {last : Event} (hs : Disciplined s)
    (h : trace memory s ops = mid ++ last :: l₂) (hmid : ∀ e ∈ mid, e.result.exception = false)
    (hlast : last.result.exception = true) (hpcm : ∀ e ∈ mid ++ [last], e.Pcm) :
    ((mid ++ [last]).filterMap Event.visited).map BitVec.toNat =
      List.range' s.currentAddress.toNat (s.endAddress.toNat + 1 - s.currentAddress.toNat) := by
  have hcurrent := BitVec.le_def.mp hs.current_le
  have hmasked := hs.end_masked
  induction mid generalizing s ops with
  | nil =>
    cases ops with
    | nil => exact absurd h (by simp [trace])
    | cons op ops =>
      rw [trace, List.nil_append] at h
      obtain ⟨rfl, -⟩ := List.cons.inj h
      have hcases := pcm_cases hs op (hpcm _ (List.mem_append_right _ List.mem_cons_self))
      rcases hcases with ⟨hvisited, hloop⟩ | ⟨-, -, hexception, -⟩ | ⟨-, hexception, -⟩
      · rw [List.nil_append, List.filterMap_cons_some hvisited, List.filterMap_nil, hloop.current_eq,
          Nat.add_sub_cancel_left]
        rfl
      · exact absurd hlast (by rw [hexception]; exact Bool.false_ne_true)
      · exact absurd hlast (by rw [hexception]; exact Bool.false_ne_true)
  | cons e mid ih =>
    cases ops with
    | nil => exact absurd h (by simp [trace])
    | cons op ops =>
      rw [trace, List.cons_append] at h
      obtain ⟨rfl, hrest⟩ := List.cons.inj h
      have hnext := @Disciplined.apply memory s hs op
      have hend := @apply_end memory s op
      have hih := ih hnext hrest (fun e he => hmid e (List.mem_cons_of_mem _ he))
        (fun e he => hpcm e (List.mem_cons_of_mem _ he)) (BitVec.le_def.mp hnext.current_le) hnext.end_masked
      have hcases := pcm_cases hs op (hpcm _ List.mem_cons_self)
      have hquiet := hmid _ List.mem_cons_self
      rcases hcases with ⟨-, hloop⟩ | ⟨hvisited, hlt, -, haddress⟩ | ⟨hvisited, -, haddress⟩
      · exact absurd hloop.exception (by rw [hquiet]; exact Bool.false_ne_true)
      · rw [hend, haddress] at hih
        have hsucc : (s.currentAddress + 1#32).toNat = s.currentAddress.toNat + 1 := by
          rw [BitVec.toNat_add, BitVec.toNat_ofNat]
          omega
        have hlen : s.endAddress.toNat + 1 - s.currentAddress.toNat =
            s.endAddress.toNat + 1 - (s.currentAddress.toNat + 1) + 1 := by
          rw [BitVec.lt_def] at hlt
          omega
        rw [List.cons_append, List.filterMap_cons_some hvisited, List.map_cons, hih, hsucc, hlen,
          List.range'_succ]
      · rw [hend, haddress] at hih
        rw [List.cons_append, List.filterMap_cons_none hvisited, hih]

/-- **The address discipline of the accelerator**, along every run of accesses in any formats. -/
theorem address_discipline (memory : BitVec 32 → BitVec 8) (s : Accelerator) (hs : Disciplined s)
    (ops : List Operation) :
    (∀ e ∈ trace memory s ops, e.result.next.currentAddress ≤ s.endAddress) ∧
      (∀ e ∈ trace memory s ops, ¬e.AtAdpcmEnd → ¬e.TurnsInGroup →
        (e.result.exception = true ↔ e.LoopsBack)) ∧
      ∀ l₁ l₂ mid : List Event, ∀ first last : Event,
        trace memory s ops = l₁ ++ first :: (mid ++ last :: l₂) →
          first.result.exception = true →
          (∀ e ∈ mid, e.result.exception = false) → last.result.exception = true →
          (∀ e ∈ mid ++ [last], e.Pcm) →
          ((mid ++ [last]).filterMap Event.visited).map BitVec.toNat =
            List.range' s.startAddress.toNat (s.endAddress.toNat + 1 - s.startAddress.toNat) := by
  refine ⟨fun e he => ?_, fun e he hend hgroup => ?_, fun l₁ l₂ mid first last h hfirst hmid hlast hpcm => ?_⟩
  · obtain ⟨l₁, l₂, h⟩ := List.append_of_mem he
    obtain ⟨hbefore, -, hend, hresult, -⟩ := exists_of_mem_trace hs h
    rw [hresult, ← hend]
    exact apply_current_le hbefore e.operation
  · obtain ⟨l₁, l₂, h⟩ := List.append_of_mem he
    obtain ⟨hbefore, -, -, hresult, -⟩ := exists_of_mem_trace hs h
    obtain ⟨before, op, result⟩ := e
    dsimp only at hresult
    subst hresult
    exact exception_iff_loopsBack hbefore op hend hgroup
  · obtain ⟨hbefore, hstart, hend, hresult, ops', hrest⟩ := exists_of_mem_trace hs h
    rw [hresult] at hfirst hrest
    have hnext := @Disciplined.apply memory _ hbefore first.operation
    have hrange := visited_eq_range' hnext hrest.symm hmid hlast hpcm
    rw [current_of_exception hbefore hfirst, apply_end, hstart, hend] at hrange
    exact hrange

/-- The addresses 0 to 3 in sixteen bits, at the last one. -/
def fourAddresses : Accelerator :=
  { initial with endAddress := 3, currentAddress := 3, sampleFormat := ⟨0xA⟩ }

theorem disciplined_fourAddresses : Disciplined fourAddresses where
  start_le := by decide
  end_masked := by decide
  current_le := by decide

/-- Five raw reads loop at the first and at the last one, and read the four addresses in between. -/
theorem address_discipline_fourAddresses : ∃ first last : Event, ∃ mid : List Event,
    trace (fun _ => 0) fourAddresses (List.replicate 5 .readRaw) = first :: (mid ++ [last]) ∧
      first.LoopsBack ∧ (∀ e ∈ mid, ¬e.LoopsBack) ∧ last.LoopsBack ∧
      ((mid ++ [last]).filterMap Event.visited).map BitVec.toNat = [0, 1, 2, 3] := by
  obtain ⟨-, hloops, hrange⟩ := address_discipline (fun _ => 0) fourAddresses disciplined_fourAddresses
    (List.replicate 5 .readRaw)
  obtain ⟨first, e₁, e₂, e₃, last, htrace⟩ : ∃ first e₁ e₂ e₃ last,
      trace (fun _ => 0) fourAddresses (List.replicate 5 .readRaw) = [first, e₁, e₂, e₃, last] :=
    ⟨_, _, _, _, _, rfl⟩
  have hexception : (trace (fun _ => 0) fourAddresses (List.replicate 5 .readRaw)).map
      (fun e => e.result.exception) = [true, false, false, false, true] := by
    decide +kernel
  have hformat : ∀ format ∈ (trace (fun _ => 0) fourAddresses (List.replicate 5 .readRaw)).map
      (fun e => e.before.sampleFormat), format.decode = .pcm ∧ format.size = .size16Bit := by
    decide +kernel
  have hpcm : ∀ e ∈ [first, e₁, e₂, e₃, last], e.Pcm ∧ (e.result.exception = true ↔ e.LoopsBack) := by
    intro e he
    rw [← htrace] at he
    obtain ⟨hdecode, hsize⟩ := hformat _ (List.mem_map_of_mem he)
    refine ⟨⟨by rw [hdecode]; decide, fun _ => by rw [hsize]; decide⟩, hloops e he ?_ ?_⟩
    · intro hend
      have hadpcm := hdecode.symm.trans hend.2.1
      cases hadpcm
    · intro hgroup
      have hinvalid := hsize.symm.trans hgroup.2.1
      cases hinvalid
  rw [htrace] at hexception
  simp only [List.map_cons, List.map_nil, List.cons.injEq, and_true] at hexception
  obtain ⟨hfirst, h₁, h₂, h₃, hlast⟩ := hexception
  have hmid : ∀ e ∈ [e₁, e₂, e₃], e.result.exception = false := by
    simp only [List.mem_cons, List.not_mem_nil, or_false]
    rintro e (rfl | rfl | rfl) <;> assumption
  refine ⟨first, last, [e₁, e₂, e₃], htrace, (hpcm first List.mem_cons_self).2.mp hfirst, fun e he hloop => ?_,
    (hpcm last (by simp)).2.mp hlast, ?_⟩
  · have hraised := (hpcm e (List.mem_cons_of_mem _ (List.mem_append_left [last] he))).2.mpr hloop
    rw [hmid e he] at hraised
    cases hraised
  · exact hrange [] [] [e₁, e₂, e₃] first last htrace hfirst hmid hlast fun e he =>
      (hpcm e (List.mem_cons_of_mem _ he)).1

/-- Without a size a raw read goes from 3 to 0 and raises nothing. -/
theorem turns_without_exception :
    ¬∀ (memory : BitVec 32 → BitVec 8) (s : Accelerator) (ops : List Operation), Disciplined s →
      ∀ e ∈ trace memory s ops, ¬e.AtAdpcmEnd → (e.result.exception = true ↔ e.LoopsBack) := by
  intro h
  have hevent := h (fun _ => 0) fourAddresses [.setSampleFormat 3, .readRaw] disciplined_fourAddresses
    ⟨fourAddresses.setSampleFormat 3, .readRaw, (fourAddresses.setSampleFormat 3).readRaw fun _ => 0⟩
    (List.mem_cons_of_mem _ List.mem_cons_self) (fun hend => by
      obtain ⟨⟨_, hop⟩, -⟩ := hend
      cases hop)
  have hloops := hevent.mpr ⟨rfl, by decide, by decide⟩
  revert hloops
  decide

end DSP.Accelerator
