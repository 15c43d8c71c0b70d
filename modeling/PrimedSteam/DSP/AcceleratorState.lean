import PrimedSteam.DSP.Accelerator
import Mathlib.Logic.Basic

/-!
# Savestates of the accelerator

`DoState` leaves out the gain and the input. `Interchangeable` says when these do not matter.

* `readSample_regain`: accelerators that differ in them alone do the same, as long as they do not matter.
* **`restored_iff`**: a savestate restores what an accelerator does iff they do not matter.
-/

set_option autoImplicit false

namespace DSP

/-- What `DoState` writes. -/
structure AcceleratorSave where
  startAddress : BitVec 32
  endAddress : BitVec 32
  currentAddress : BitVec 32
  sampleFormat : SampleFormat
  yn1 : BitVec 16
  yn2 : BitVec 16
  predScale : BitVec 16
  readsStopped : Bool

/-- The values that a sample in memory can have. -/
def FormatSize.Readable : FormatSize → BitVec 16 → Prop
  | .size4Bit, raw => raw.toNat < 16
  | .size8Bit, raw => raw.toNat < 256
  | .size16Bit, _ => True
  | .sizeInvalid, raw => raw = 0

namespace Accelerator

def doStateWrite (s : Accelerator) : AcceleratorSave where
  startAddress := s.startAddress
  endAddress := s.endAddress
  currentAddress := s.currentAddress
  sampleFormat := s.sampleFormat
  yn1 := s.yn1
  yn2 := s.yn2
  predScale := s.predScale
  readsStopped := s.readsStopped

/-- Loading a state over what the accelerator holds. -/
def doStateRead (t : Accelerator) (save : AcceleratorSave) : Accelerator :=
  { t with
    startAddress := save.startAddress
    endAddress := save.endAddress
    currentAddress := save.currentAddress
    sampleFormat := save.sampleFormat
    yn1 := save.yn1
    yn2 := save.yn2
    predScale := save.predScale
    readsStopped := save.readsStopped }

/-- A further access; a sample comes with the coefficients. -/
inductive Access
  | readSample (coefs : ℕ → BitVec 16)
  | readRaw

def access (memory : BitVec 32 → BitVec 8) (s : Accelerator) : Access → Accessed
  | .readSample coefs => s.readSample memory coefs
  | .readRaw => s.readRaw memory

/-- The values that a sequence of accesses gives, with the exceptions. -/
def results (memory : BitVec 32 → BitVec 8) (s : Accelerator) : List Access → List (BitVec 16 × Bool)
  | [] => []
  | a :: as =>
    ((s.access memory a).value, (s.access memory a).exception) :: results memory (s.access memory a).next as

/-- `t` gives what `s` gives, whatever is read from which memory. -/
def SameResults (s t : Accelerator) : Prop :=
  ∀ memory as, results memory s as = results memory t as

/-- The accelerator with another gain and another input. -/
def regain (s : Accelerator) (gain input : BitVec 16) : Accelerator :=
  { s with gain := gain, input := input }

/-- Another gain has the same effect on a sample, in the low sixteen bits. -/
def SameGain (s t : Accelerator) (raw raw' : BitVec 16) : Prop :=
  (s.gained raw).setWidth 16 = (t.gained raw').setWidth 16

/-- The gain and the input of `t` do for the samples of `s`. -/
def Interchangeable (s t : Accelerator) : Prop :=
  s.readsStopped = true ∨
    match s.sampleFormat.decode with
    | .adpcm => True
    | .pcm => ∀ raw, s.sampleFormat.size.Readable raw → SameGain s (s.regain t.gain t.input) raw raw
    | .mmioPcmNoInc | .mmioPcmInc => SameGain s (s.regain t.gain t.input) s.input t.input

/-! ## Samples -/

variable {memory : BitVec 32 → BitVec 8} {s t : Accelerator}

theorem readable_getCurrentSample (s : Accelerator) :
    s.sampleFormat.size.Readable (s.getCurrentSample memory) := by
  unfold getCurrentSample
  cases s.sampleFormat.size with
  | size4Bit =>
    have hlt := (memory (s.currentAddress >>> 1)).isLt
    dsimp only [FormatSize.Readable]
    split_ifs
    · rw [BitVec.toNat_and]
      exact lt_of_le_of_lt Nat.and_le_right (by decide)
    · rw [BitVec.toNat_ushiftRight, BitVec.toNat_setWidth, Nat.shiftRight_eq_div_pow]
      omega
  | size8Bit =>
    have hlt := (memory s.currentAddress).isLt
    dsimp only [FormatSize.Readable]
    rw [BitVec.toNat_setWidth]
    omega
  | size16Bit => exact True.intro
  | sizeInvalid => rfl

theorem exists_getCurrentSample (s : Accelerator) {raw : BitVec 16} (h : s.sampleFormat.size.Readable raw) :
    ∃ memory, s.getCurrentSample memory = raw := by
  unfold getCurrentSample
  cases hsize : s.sampleFormat.size with
  | size4Bit =>
    rw [hsize] at h
    have hlt : raw.toNat < 16 := h
    -- both nibbles
    refine ⟨fun _ => BitVec.ofNat 8 (raw.toNat * 17), ?_⟩
    dsimp only
    refine BitVec.eq_of_toNat_eq ?_
    split_ifs
    · rw [BitVec.toNat_and, BitVec.toNat_setWidth, BitVec.toNat_ofNat]
      refine (Nat.and_two_pow_sub_one_eq_mod _ 4).trans ?_
      omega
    · have hboth : raw.toNat * 17 % 2 ^ 8 % 2 ^ 16 = raw.toNat * 17 := by
        rw [Nat.mod_eq_of_lt (b := 2 ^ 8) (by omega), Nat.mod_eq_of_lt (by omega)]
      rw [BitVec.toNat_ushiftRight, BitVec.toNat_setWidth, BitVec.toNat_ofNat, hboth,
        Nat.shiftRight_eq_div_pow]
      omega
  | size8Bit =>
    rw [hsize] at h
    have hlt : raw.toNat < 256 := h
    refine ⟨fun _ => raw.setWidth 8, BitVec.eq_of_toNat_eq ?_⟩
    dsimp only
    rw [BitVec.toNat_setWidth, BitVec.toNat_setWidth]
    omega
  | size16Bit =>
    -- the high byte is at the even address
    refine ⟨fun a => if a.toNat % 2 = 0 then (raw >>> 8).setWidth 8 else raw.setWidth 8, ?_⟩
    have heven : (s.currentAddress * 2#32).toNat % 2 = 0 := by
      rw [BitVec.toNat_mul, BitVec.toNat_ofNat]
      omega
    have hodd : ¬(s.currentAddress * 2#32 + 1#32).toNat % 2 = 0 := by
      rw [BitVec.toNat_add, BitVec.toNat_ofNat]
      omega
    dsimp only
    rw [if_pos heven, if_neg hodd]
    refine BitVec.eq_of_getLsbD_eq fun i hi => ?_
    rw [BitVec.getLsbD_or, BitVec.getLsbD_shiftLeft, BitVec.getLsbD_setWidth, BitVec.getLsbD_setWidth,
      BitVec.getLsbD_setWidth, BitVec.getLsbD_setWidth, BitVec.getLsbD_ushiftRight]
    by_cases h8 : i < 8
    · simp [h8, hi]
    · have hsum : 8 + (i - 8) = i := by omega
      have hlt : i - 8 < 8 := by omega
      have hlt' : i - 8 < 16 := by omega
      simp [h8, hi, hsum, hlt, hlt']
  | sizeInvalid =>
    rw [hsize] at h
    exact ⟨fun _ => 0, h.symm⟩

/-! ## Accesses -/

theorem readRaw_regain (gain input : BitVec 16) : (s.regain gain input).readRaw memory =
    ⟨(s.readRaw memory).value, (s.readRaw memory).exception, (s.readRaw memory).next.regain gain input⟩ := by
  have haddress : (s.regain gain input).rawStep = s.rawStep := rfl
  rw [readRaw, readRaw, haddress]
  by_cases h : s.rawStep - 1#32 = s.endAddress
  · rw [if_pos (show s.rawStep - 1#32 = (s.regain gain input).endAddress from h), if_pos h]
    rfl
  · rw [if_neg (show ¬s.rawStep - 1#32 = (s.regain gain input).endAddress from h), if_neg h]
    rfl

/-- What the history adds to a sample. -/
def history (s : Accelerator) (coefs : ℕ → BitVec 16) : BitVec 16 :=
  (((s.coef coefs 0 * s.yn1.signExtend 32).sshiftRight s.sampleFormat.gainShift +
    (s.coef coefs 1 * s.yn2.signExtend 32).sshiftRight s.sampleFormat.gainShift)).setWidth 16

theorem pcmValue_eq (coefs : ℕ → BitVec 16) (raw : BitVec 16) :
    s.pcmValue coefs raw = (s.gained raw).setWidth 16 + s.history coefs := by
  rw [pcmValue, BitVec.setWidth_add _ _ (by decide), history]

theorem pcmValue_regain_iff (coefs : ℕ → BitVec 16) {gain input raw raw' : BitVec 16} :
    (s.regain gain input).pcmValue coefs raw' = s.pcmValue coefs raw ↔
      SameGain s (s.regain gain input) raw raw' := by
  have hhistory : (s.regain gain input).history coefs = s.history coefs := rfl
  rw [pcmValue_eq, pcmValue_eq, hhistory, BitVec.add_left_inj, SameGain, eq_comm]

/-- **A sample is the same where gain and input do not matter.** -/
theorem sampleValue_regain (coefs : ℕ → BitVec 16) (h : Interchangeable s t) (hrun : s.readsStopped = false) :
    (s.regain t.gain t.input).sampleValue memory coefs = s.sampleValue memory coefs := by
  have h := h.resolve_left (by rw [hrun]; exact Bool.false_ne_true)
  have hformat : (s.regain t.gain t.input).sampleFormat = s.sampleFormat := rfl
  unfold sampleValue rawSample
  rw [hformat]
  cases hdecode : s.sampleFormat.decode with
  | adpcm => rfl
  | pcm =>
    rw [hdecode] at h
    exact (pcmValue_regain_iff coefs).mpr (h _ (readable_getCurrentSample s))
  | mmioPcmNoInc =>
    rw [hdecode] at h
    exact (pcmValue_regain_iff coefs).mpr h
  | mmioPcmInc =>
    rw [hdecode] at h
    exact (pcmValue_regain_iff coefs).mpr h

theorem readSample_regain (coefs : ℕ → BitVec 16) (h : Interchangeable s t) :
    (s.regain t.gain t.input).readSample memory coefs =
      ⟨(s.readSample memory coefs).value, (s.readSample memory coefs).exception,
        (s.readSample memory coefs).next.regain t.gain t.input⟩ := by
  have hstopped : (s.regain t.gain t.input).readsStopped = s.readsStopped := rfl
  have hadvance : (s.regain t.gain t.input).advance memory = s.advance memory := rfl
  have hend : (s.regain t.gain t.input).endAddress = s.endAddress := rfl
  by_cases hrun : s.readsStopped = true
  · rw [readSample, readSample, if_pos hrun, if_pos (hstopped.trans hrun)]
  · simp only [readSample, if_neg hrun, hstopped, hadvance, hend]
    rw [sampleValue_regain coefs h (Bool.eq_false_iff.mpr hrun)]
    split_ifs <;> rfl

theorem Interchangeable.next (h : Interchangeable s t) (a : Access) :
    Interchangeable (s.access memory a).next t := by
  have hkept : ∀ s' : Accelerator, s'.sampleFormat = s.sampleFormat → s'.gain = s.gain →
      s'.input = s.input → (s.readsStopped = true → s'.readsStopped = true) → Interchangeable s' t := by
    intro s' hformat hgain hinput hstopped
    refine h.imp hstopped fun h => ?_
    unfold SameGain gained regain at *
    rw [hformat, hgain, hinput]
    exact h
  cases a with
  | readSample coefs =>
    simp only [access, readSample]
    split_ifs with hrun
    · exact h
    · exact Or.inl rfl
    · exact hkept _ rfl rfl rfl id
  | readRaw =>
    simp only [access, readRaw]
    split_ifs <;> exact hkept _ rfl rfl rfl id

theorem results_regain (h : Interchangeable s t) (as : List Access) :
    results memory (s.regain t.gain t.input) as = results memory s as := by
  induction as generalizing s with
  | nil => rfl
  | cons a as ih =>
    have haccess : (s.regain t.gain t.input).access memory a =
        ⟨(s.access memory a).value, (s.access memory a).exception,
          (s.access memory a).next.regain t.gain t.input⟩ := by
      cases a with
      | readSample coefs => exact readSample_regain coefs h
      | readRaw => exact readRaw_regain t.gain t.input
    rw [results, results, haccess, ih (h.next a)]

theorem interchangeable_of_sameResults (h : SameResults s (s.regain t.gain t.input)) :
    Interchangeable s t := by
  by_cases hrun : s.readsStopped = true
  · exact Or.inl hrun
  refine Or.inr ?_
  have hvalue : ∀ memory, (s.regain t.gain t.input).sampleValue memory (fun _ => 0) =
      s.sampleValue memory fun _ => 0 := by
    intro memory
    have hhead := congrArg (List.map Prod.fst) (h memory [.readSample fun _ => 0])
    have heq := (List.cons.inj hhead).1
    have hregain : ¬(s.regain t.gain t.input).readsStopped = true := hrun
    simp only [access, readSample, if_neg hrun, if_neg hregain] at heq
    split_ifs at heq <;> exact heq.symm
  have hformat : (s.regain t.gain t.input).sampleFormat = s.sampleFormat := rfl
  unfold sampleValue rawSample at hvalue
  rw [hformat] at hvalue
  cases hdecode : s.sampleFormat.decode with
  | adpcm => exact True.intro
  | pcm =>
    intro raw hraw
    obtain ⟨memory, rfl⟩ := exists_getCurrentSample s hraw
    have heq := hvalue memory
    rw [hdecode] at heq
    exact (pcmValue_regain_iff _).mp heq
  | mmioPcmNoInc =>
    have heq := hvalue fun _ => 0
    rw [hdecode] at heq
    exact (pcmValue_regain_iff _).mp heq
  | mmioPcmInc =>
    have heq := hvalue fun _ => 0
    rw [hdecode] at heq
    exact (pcmValue_regain_iff _).mp heq

/-- **A savestate restores what an accelerator does**, over any state of another one, iff the other gain
and the other input do not matter. -/
theorem restored_iff (s t : Accelerator) :
    SameResults s (t.doStateRead s.doStateWrite) ↔ Interchangeable s t :=
  ⟨fun h => interchangeable_of_sameResults h, fun h _ as => (results_regain h as).symm⟩

/-! ## Reachable states -/

/-- The states that the operations of an accelerator lead to. -/
inductive Reachable : Accelerator → Prop
  | initial : Reachable initial
  | setStartAddress {s : Accelerator} (address : BitVec 32) : Reachable s → Reachable (s.setStartAddress address)
  | setEndAddress {s : Accelerator} (address : BitVec 32) : Reachable s → Reachable (s.setEndAddress address)
  | setCurrentAddress {s : Accelerator} (address : BitVec 32) :
      Reachable s → Reachable (s.setCurrentAddress address)
  | setSampleFormat {s : Accelerator} (format : BitVec 16) : Reachable s → Reachable (s.setSampleFormat format)
  | setGain {s : Accelerator} (gain : BitVec 16) : Reachable s → Reachable (s.setGain gain)
  | setYn1 {s : Accelerator} (yn1 : BitVec 16) : Reachable s → Reachable (s.setYn1 yn1)
  | setYn2 {s : Accelerator} (yn2 : BitVec 16) : Reachable s → Reachable (s.setYn2 yn2)
  | setPredScale {s : Accelerator} (predScale : BitVec 16) : Reachable s → Reachable (s.setPredScale predScale)
  | setInput {s : Accelerator} (input : BitVec 16) : Reachable s → Reachable (s.setInput input)
  | writeRaw {s : Accelerator} : Reachable s → Reachable s.writeRaw
  | doStateRead {s t : Accelerator} : Reachable s → Reachable t → Reachable (t.doStateRead s.doStateWrite)
  | access {s : Accelerator} (memory : BitVec 32 → BitVec 8) (a : Access) :
      Reachable s → Reachable (s.access memory a).next

/-- Samples of sixteen bits, with a gain of one. -/
def playing : Accelerator :=
  (initial.setSampleFormat 0xA).setGain 0x800

/-- The gain is lost. -/
theorem gain_not_restored :
    ¬∀ s t, Reachable s → Reachable t → SameResults s (t.doStateRead s.doStateWrite) := by
  intro h
  have hplaying : Reachable playing := .setGain _ (.setSampleFormat _ .initial)
  have hresults := h playing initial hplaying .initial (fun _ => 1) [.readSample fun _ => 0]
  have hhead := congrArg (List.map Prod.fst) hresults
  revert hhead
  decide

end Accelerator

end DSP
