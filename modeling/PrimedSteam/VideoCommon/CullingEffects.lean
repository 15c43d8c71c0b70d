import PrimedSteam.VideoCommon.CullingCoverage

/-!
# The scan undoes its effects

* `Effects`: what a scan changes outside of the finder, and what the finder keeps to undo it.
* `Safe`: the effects can be undone. Each step of a scan keeps this (`Ready.call`).
* `undone_of_reach`: wherever a start or `advanceScan` leaves the finder without a scan, the memory of
  the guest and the settings are as before.
-/

set_option autoImplicit false

namespace CullingCodeFinder

open Transition

/-! ## Words in memory -/

theorem offset_cases {k : Address} (h : k.toNat < 4) : k = 0 ∨ k = 1 ∨ k = 2 ∨ k = 3 := by
  bv_omega

theorem wordByte_read32 (m : Memory) (address : Address) {k : Address} (h : k.toNat < 4) :
    wordByte (m.read32 address) k = m (address + k) := by
  have hbyte : ∀ a b c d : Byte, wordByte (a ++ b ++ c ++ d) 0 = a ∧
      wordByte (a ++ b ++ c ++ d) 1 = b ∧ wordByte (a ++ b ++ c ++ d) 2 = c ∧
      wordByte (a ++ b ++ c ++ d) 3 = d := by
    intro a b c d
    refine ⟨?_, ?_, ?_, ?_⟩
    all_goals
      ext i hi
      simp only [wordByte, BitVec.getElem_extractLsb', BitVec.getLsbD_append]
      simp
      grind
  have hread := hbyte (m address) (m (address + 1)) (m (address + 2)) (m (address + 3))
  rcases offset_cases h with rfl | rfl | rfl | rfl
  · rw [show address + 0 = address from BitVec.add_zero address]
    exact hread.1
  · exact hread.2.1
  · exact hread.2.2.1
  · exact hread.2.2.2

/-- **Words that were read can be put back.** -/
theorem write32_read32 (m : Memory) (v w : BitVec 32) (address : Address) :
    ((((m.write32 v address).write32 w (address + 4)).write32 (m.read32 address) address).write32
      (m.read32 (address + 4)) (address + 4)) = m := by
  funext i
  have hoffset : ∀ base : Address, base + (i - base) = i := fun base => by bv_omega
  simp only [Memory.write32]
  split_ifs with hsecond hfirst
  · rw [wordByte_read32 m _ hsecond, hoffset]
  · rw [wordByte_read32 m _ hfirst, hoffset]
  · rfl

/-- Words that are put back are not changed by putting them back again. -/
theorem write32_write32 (m : Memory) (v w : BitVec 32) (address : Address) :
    ((((m.write32 v address).write32 w (address + 4)).write32 v address).write32 w (address + 4)) =
      (m.write32 v address).write32 w (address + 4) := by
  funext i
  simp only [Memory.write32]
  split_ifs <;> rfl

/-! ## The effects -/

structure Effects where
  memory : Memory
  savestate : Memory
  throttlerDisabled : Bool
  mutedCurrentRun : Option Bool
  mutedBelow : Bool
  instructionPatched : Bool
  savedEntryInstruction : BitVec 32
  savedNextInstruction : BitVec 32
  patchedAddress : Address
  runtimeOverridesActive : Bool
  turboOverrideActive : Bool
  audioMuteOverrideActive : Bool

namespace Effects

variable (e : Effects)

/-- What `restorePatchedInstructions` does to the memory. -/
def undo (m : Memory) : Memory :=
  if e.instructionPatched then
    (m.write32 e.savedEntryInstruction e.patchedAddress).write32 e.savedNextInstruction
      (e.patchedAddress + 4)
  else m

def restorePatched : Effects :=
  { e with
    memory := e.undo e.memory
    instructionPatched := false
    savedEntryInstruction := if e.instructionPatched then 0 else e.savedEntryInstruction
    savedNextInstruction := if e.instructionPatched then 0 else e.savedNextInstruction
    patchedAddress := if e.instructionPatched then 0 else e.patchedAddress }

def restoreOverrides : Effects :=
  { e with
    throttlerDisabled := if e.turboOverrideActive then false else e.throttlerDisabled
    mutedCurrentRun := if e.audioMuteOverrideActive then none else e.mutedCurrentRun
    turboOverrideActive := false
    audioMuteOverrideActive := false
    runtimeOverridesActive := false }

/-- What `applyRuntimeOverrides` does, where it turns on turbo and mutes the audio as said. -/
def override (turbo mute : Bool) : Effects :=
  { e with
    throttlerDisabled := turbo || e.throttlerDisabled
    mutedCurrentRun := if mute then some true else e.mutedCurrentRun
    turboOverrideActive := turbo || e.turboOverrideActive
    audioMuteOverrideActive := mute || e.audioMuteOverrideActive
    runtimeOverridesActive := true }

def patch (first : BitVec 32) (address : Address) : Effects :=
  { e with
    memory := (e.memory.write32 first address).write32 blrInstruction (address + 4)
    savedEntryInstruction := e.memory.read32 address
    savedNextInstruction := e.memory.read32 (address + 4)
    patchedAddress := address
    instructionPatched := true }

def load : Effects := { e with memory := e.savestate }

def capture : Effects := { e with savestate := e.memory }

/-- What a start does to the flags. -/
def reset : Effects :=
  { e with
    instructionPatched := false
    savedEntryInstruction := 0
    savedNextInstruction := 0
    patchedAddress := 0
    runtimeOverridesActive := false
    turboOverrideActive := false
    audioMuteOverrideActive := false }

end Effects

namespace System

variable (s : System) (services : Services)

def effects : Effects where
  memory := s.memory
  savestate := s.savestate
  throttlerDisabled := s.throttlerDisabled
  mutedCurrentRun := s.mutedCurrentRun
  mutedBelow := s.mutedBelow
  instructionPatched := s.finder.instructionPatched
  savedEntryInstruction := s.finder.savedEntryInstruction
  savedNextInstruction := s.finder.savedNextInstruction
  patchedAddress := s.finder.patchedAddress
  runtimeOverridesActive := s.finder.runtimeOverridesActive
  turboOverrideActive := s.finder.turboOverrideActive
  audioMuteOverrideActive := s.finder.audioMuteOverrideActive

@[simp] theorem effects_writeManifest : (s.writeManifest services).effects = s.effects := by
  unfold writeManifest
  split <;> rfl

@[simp] theorem effects_setPhase (phase : ScanPhase) : (s.setPhase phase).effects = s.effects := rfl

@[simp] theorem effects_endTest (result : Option ScanResult) :
    (s.endTest result).effects = s.effects := rfl

@[simp] theorem effects_clearSamples : s.clearSamples.effects = s.effects := rfl

@[simp] theorem effects_sampled : (s.sampled services).effects = s.effects := by
  simp only [sampled]
  split <;> rfl

@[simp] theorem effects_restorePatchedInstructions :
    s.restorePatchedInstructions.effects = s.effects.restorePatched := by
  unfold restorePatchedInstructions
  split
  · rename_i h
    simp [effects, Effects.restorePatched, Effects.undo, h]
  · rename_i h
    simp [effects, Effects.restorePatched, Effects.undo, h]

@[simp] theorem effects_restoreRuntimeOverrides :
    s.restoreRuntimeOverrides.effects = s.effects.restoreOverrides := rfl

@[simp] theorem effects_restore :
    s.restore.effects = s.effects.restorePatched.restoreOverrides := by
  rw [restore, effects_restoreRuntimeOverrides, effects_restorePatchedInstructions]

/-- The overrides are applied once, and turn on only what is off. -/
theorem effects_applyRuntimeOverrides :
    s.applyRuntimeOverrides.effects = s.effects ∨
      s.finder.runtimeOverridesActive = false ∧ ∃ turbo mute : Bool,
        (turbo = true → s.throttlerDisabled = false) ∧ (mute = true → s.muted = false) ∧
          s.applyRuntimeOverrides.effects = s.effects.override turbo mute := by
  unfold applyRuntimeOverrides
  split
  · exact .inl rfl
  · rename_i h
    refine .inr ⟨by simpa using h,
      s.finder.scanConfig.turboDuringScan && !s.throttlerDisabled,
      s.finder.scanConfig.muteAudioDuringScan && !s.muted, ?_, ?_, ?_⟩
    · simp
    · simp
    · unfold overrideMute overrideTurbo
      cases hturbo : s.finder.scanConfig.turboDuringScan <;>
        cases hthrottler : s.throttlerDisabled <;>
        cases haudio : s.finder.scanConfig.muteAudioDuringScan <;>
        cases hmuted : s.mutedCurrentRun.getD s.mutedBelow <;>
        simp [effects, Effects.override, muted, hthrottler, haudio, hmuted]

end System

/-! ## What can be undone -/

/-- The memory of the guest and the settings before a scan. -/
structure Original where
  memory : Memory
  throttlerDisabled : Bool
  muted : Bool

/-- The effects can be undone. -/
structure Safe (o : Original) (e : Effects) : Prop where
  savestate : e.savestate = o.memory
  memory : e.undo e.memory = o.memory
  throttler :
    (if e.turboOverrideActive then false else e.throttlerDisabled) = o.throttlerDisabled
  muted :
    (if e.audioMuteOverrideActive then e.mutedBelow else e.mutedCurrentRun.getD e.mutedBelow) =
      o.muted
  below : o.muted = false → e.mutedBelow = false
  turbo : e.turboOverrideActive = true → e.runtimeOverridesActive = true
  mute : e.audioMuteOverrideActive = true → e.runtimeOverridesActive = true

/-- The effects are undone. -/
structure Undone (o : Original) (s : System) : Prop where
  memory : s.memory = o.memory
  throttler : s.throttlerDisabled = o.throttlerDisabled
  muted : s.muted = o.muted

/-- What holds between the calls. -/
structure Ready (o : Original) (s : System) : Prop where
  safe : Safe o s.effects
  phase : s.finder.phase ≠ .applyPatch
  loaded : s.finder.phase = .waitingForLoad → s.finder.loadCompleted = true → s.memory = o.memory

namespace Safe

variable {o : Original} {e : Effects}

theorem restorePatched (h : Safe o e) : Safe o e.restorePatched where
  savestate := h.savestate
  memory := h.memory
  throttler := h.throttler
  muted := h.muted
  below := h.below
  turbo := h.turbo
  mute := h.mute

theorem restoreOverrides (h : Safe o e) : Safe o e.restoreOverrides where
  savestate := h.savestate
  memory := h.memory
  throttler := h.throttler
  muted := by
    have hmuted := h.muted
    simp only [Effects.restoreOverrides] at hmuted ⊢
    split_ifs at hmuted ⊢ <;> simp_all
  below := h.below
  turbo := by simp [Effects.restoreOverrides]
  mute := by simp [Effects.restoreOverrides]

theorem override (h : Safe o e) (hactive : e.runtimeOverridesActive = false) {turbo mute : Bool}
    (hturbo : turbo = true → e.throttlerDisabled = false)
    (hmute : mute = true → e.mutedCurrentRun.getD e.mutedBelow = false) :
    Safe o (e.override turbo mute) where
  savestate := h.savestate
  memory := h.memory
  throttler := by
    have hoff : e.turboOverrideActive = false := by
      by_contra hon
      simp [h.turbo (by simpa using hon)] at hactive
    have hthrottler := h.throttler
    cases turbo <;> simp_all [Effects.override]
  muted := by
    have hoff : e.audioMuteOverrideActive = false := by
      by_contra hon
      simp [h.mute (by simpa using hon)] at hactive
    have hmuted := h.muted
    have hbelow := h.below
    cases mute <;> simp_all [Effects.override]
  below := h.below
  turbo := fun _ => rfl
  mute := fun _ => rfl

theorem patch (h : Safe o e) (hmemory : e.memory = o.memory) (first : BitVec 32)
    (address : Address) : Safe o (e.patch first address) where
  savestate := h.savestate
  memory := (write32_read32 e.memory first blrInstruction address).trans hmemory
  throttler := h.throttler
  muted := h.muted
  below := h.below
  turbo := h.turbo
  mute := h.mute

theorem load (h : Safe o e) : Safe o e.load where
  savestate := h.savestate
  memory := by
    have hmemory := h.memory
    simp only [Effects.load, h.savestate, Effects.undo] at hmemory ⊢
    split_ifs at hmemory ⊢
    · rw [← hmemory, write32_write32]
    · rfl
  throttler := h.throttler
  muted := h.muted
  below := h.below
  turbo := h.turbo
  mute := h.mute

theorem reset (h : Safe o e) (hpatched : e.instructionPatched = false)
    (hactive : e.runtimeOverridesActive = false) : Safe o e.reset := by
  have hturbo : e.turboOverrideActive = false := by
    by_contra hon
    simp [h.turbo (by simpa using hon)] at hactive
  have haudio : e.audioMuteOverrideActive = false := by
    by_contra hon
    simp [h.mute (by simpa using hon)] at hactive
  have hmemory := h.memory
  have hthrottler := h.throttler
  have hmuted := h.muted
  simp only [Effects.undo, hpatched, hturbo, haudio] at hmemory hthrottler hmuted
  exact ⟨h.savestate, hmemory, hthrottler, hmuted, h.below, by simp [Effects.reset],
    by simp [Effects.reset]⟩

end Safe

/-! ## The phases -/

/-- A state that `advanceScan` or a start leaves. -/
structure Settled (o : Original) (s : System) : Prop extends Ready o s where
  undone : s.finder.state ≠ .scanning → Undone o s

variable {o : Original} {s : System} {services : Services} {candidate : Candidate}

theorem Safe.undone_restore (h : Safe o s.effects) : Undone o s.restore := by
  have hsafe := h.restorePatched.restoreOverrides
  rw [← System.effects_restore] at hsafe
  have hpatched : s.restore.finder.instructionPatched = false :=
    congrArg Effects.instructionPatched s.effects_restore
  have hthrottler := hsafe.throttler
  have hmuted := hsafe.muted
  have hmemory := hsafe.memory
  have hundo : s.restore.effects.undo s.restore.memory = s.restore.memory := by
    simp [Effects.undo, System.effects, hpatched]
  exact ⟨hundo.symm.trans hmemory, hthrottler, hmuted⟩

theorem Undone.congr {s' : System} (h : Undone o s) (heffects : s'.effects = s.effects) :
    Undone o s' := by
  have hmemory : s'.memory = s.memory := congrArg Effects.memory heffects
  have hthrottler : s'.throttlerDisabled = s.throttlerDisabled :=
    congrArg Effects.throttlerDisabled heffects
  have hcurrent : s'.mutedCurrentRun = s.mutedCurrentRun :=
    congrArg Effects.mutedCurrentRun heffects
  have hbelow : s'.mutedBelow = s.mutedBelow := congrArg Effects.mutedBelow heffects
  refine ⟨hmemory.trans h.memory, hthrottler.trans h.throttler, ?_⟩
  rw [System.muted, hcurrent, hbelow]
  exact h.muted

/-- A state in which everything is undone. -/
theorem Settled.of_restore {s' : System} (h : Safe o s.effects)
    (heffects : s'.effects = s.restore.effects) (hphase : s'.finder.phase ≠ .applyPatch) :
    Settled o s' := by
  have hundone : Undone o s' := h.undone_restore.congr heffects
  have hsafe : Safe o s'.effects := by
    rw [heffects, System.effects_restore]
    exact h.restorePatched.restoreOverrides
  exact ⟨⟨hsafe, hphase, fun _ _ => hundone.memory⟩, fun _ => hundone⟩

@[simp] theorem System.restore_phase (s : System) : s.restore.finder.phase = s.finder.phase := by
  simp only [restore, restoreRuntimeOverrides, restorePatchedInstructions]
  split <;> rfl

theorem finish_settled (h : Safe o s.effects) (hphase : s.finder.phase ≠ .applyPatch) :
    Settled o (s.finish services) := by
  refine Settled.of_restore h ?_ ?_
  · rw [System.finish, System.effects_writeManifest]
    rfl
  · rw [System.finish, System.writeManifest_finder]
    exact s.restore_phase ▸ hphase

theorem finishLast_settled (h : Safe o s.effects) : Settled o (s.finishLast services) := by
  refine Settled.of_restore h ?_ ?_
  · rw [System.finishLast, System.effects_writeManifest]
    rfl
  · rw [System.finishLast, System.writeManifest_finder]
    exact ScanPhase.noConfusion

theorem requestLoad_settled (h : Safe o s.effects) (hstate : s.finder.state = .scanning)
    (hphase : s.finder.phase ≠ .applyPatch) : Settled o (s.requestLoad services).1 := by
  unfold System.requestLoad
  split
  · exact finish_settled h hphase
  · rename_i candidate _
    have heffects : ∀ s' : System, s'.effects = s.effects → s'.finder.phase = .waitingForLoad →
        s'.finder.loadCompleted = false → s'.finder.state = .scanning → Settled o s' := by
      intro s' heffects hphase hload hstate
      refine ⟨⟨heffects ▸ h, by simp [hphase], fun _ hloaded => ?_⟩, fun hnot => absurd hstate hnot⟩
      simp [hload] at hloaded
    refine heffects _ ?_ rfl rfl ?_
    · exact System.effects_writeManifest _ _
    · simp [hstate]

theorem timeout_settled (h : Safe o s.effects) (hstate : s.finder.state = .scanning) :
    Settled o (s.timeout services candidate).1 := by
  unfold System.timeout
  refine requestLoad_settled ?_ ?_ ?_
  · simpa using h
  · simpa [System.setPhase, System.endTest, Finder.advanceToNextTemplate] using hstate
  · simp [System.setPhase]

theorem applyPatch_settled (h : Safe o s.effects) (hmemory : s.memory = o.memory)
    (hstate : s.finder.state = .scanning) : Settled o (s.applyPatch services candidate).1 := by
  unfold System.applyPatch
  split
  · exact timeout_settled h hstate
  · have hpatch := h.patch hmemory (templateOrder s.finder.templateIndex).firstInstruction
      candidate.address
    exact ⟨⟨hpatch, ScanPhase.noConfusion, fun hphase => ScanPhase.noConfusion hphase⟩,
      fun hnot => absurd hstate hnot⟩

theorem waitingForLoad_settled (h : Ready o s) (hstate : s.finder.state = .scanning)
    (hphase : s.finder.phase = .waitingForLoad) :
    Settled o (s.waitingForLoad services candidate).1 := by
  unfold System.waitingForLoad
  split
  · rename_i hload
    exact applyPatch_settled h.safe (h.loaded hphase hload) hstate
  · split
    · exact timeout_settled h.safe hstate
    · exact ⟨h, fun hnot => absurd hstate hnot⟩

theorem finalize_settled (h : Safe o s.effects) (hstate : s.finder.state = .scanning) :
    Settled o (s.finalize services candidate).1 := by
  have hsafe : Safe o ((s.endTest (s.measuredResult candidate)).clearSamples).effects := by
    simpa using h
  simp only [System.finalize]
  split
  · exact finishLast_settled hsafe
  · refine requestLoad_settled ?_ ?_ ?_
    · simpa using h
    · simpa [System.setPhase, System.endTest, System.clearSamples, Finder.advanceToNextTemplate]
        using hstate
    · simp [System.setPhase]

theorem waitingForSettle_settled (h : Ready o s) (hstate : s.finder.state = .scanning)
    (hphase : s.finder.phase = .waitingForSettle) :
    Settled o (s.waitingForSettle services candidate).1 := by
  have hsafe : Safe o (s.sampled services).effects := by simpa using h.safe
  have hkept : (s.sampled services).finder.state = .scanning ∧
      (s.sampled services).finder.phase = .waitingForSettle := by
    simp only [System.sampled]
    split
    · exact ⟨hstate, hphase⟩
    · exact ⟨hstate, hphase⟩
  simp only [System.waitingForSettle]
  split
  · exact finalize_settled (by simpa using hsafe) hkept.1
  · refine ⟨⟨hsafe, by simp [hkept.2], fun hload => ?_⟩, fun hnot => absurd hkept.1 hnot⟩
    simp [hkept.2] at hload

theorem advancePhase_settled {r : System × Bool} (h : Ready o s)
    (hstate : s.finder.state = .scanning) (hr : s.advancePhase services = some r) :
    Settled o r.1 := by
  unfold System.advancePhase at hr
  split at hr
  · cases hr
    exact requestLoad_settled h.safe hstate h.phase
  · cases hr
    exact requestLoad_settled h.safe hstate h.phase
  · rename_i hphase _
    cases hr
    exact waitingForLoad_settled h hstate hphase
  · rename_i hphase _
    exact absurd hphase h.phase
  · rename_i hphase _
    cases hr
    exact waitingForSettle_settled h hstate hphase
  · cases hr
    exact finalize_settled h.safe hstate
  · cases hr

/-! ## The calls -/

theorem Safe.applyRuntimeOverrides (h : Safe o s.effects) : Safe o s.applyRuntimeOverrides.effects := by
  rcases s.effects_applyRuntimeOverrides with heq | ⟨hactive, turbo, mute, hturbo, hmute, heq⟩
  · rw [heq]
    exact h
  · rw [heq]
    exact h.override hactive hturbo hmute

theorem System.applyRuntimeOverrides_kept (s : System) :
    s.applyRuntimeOverrides.finder.phase = s.finder.phase ∧
      s.applyRuntimeOverrides.finder.state = s.finder.state ∧
      s.applyRuntimeOverrides.finder.loadCompleted = s.finder.loadCompleted ∧
      s.applyRuntimeOverrides.memory = s.memory := by
  unfold applyRuntimeOverrides
  split
  · exact ⟨rfl, rfl, rfl, rfl⟩
  · unfold overrideMute overrideTurbo
    split_ifs <;> exact ⟨rfl, rfl, rfl, rfl⟩

theorem Ready.applyRuntimeOverrides (h : Ready o s) : Ready o s.applyRuntimeOverrides := by
  obtain ⟨hphase, _, hload, hmemory⟩ := s.applyRuntimeOverrides_kept
  exact ⟨h.safe.applyRuntimeOverrides, hphase ▸ h.phase, hphase ▸ hload ▸ hmemory ▸ h.loaded⟩

theorem advanceOther_settled (h : Ready o s) : Settled o (s.advanceOther services).1 := by
  have heffects : s.unpatch.restoreRuntimeOverrides.effects = s.restore.effects := by
    unfold System.unpatch
    split
    · rfl
    · rename_i hpatched
      simp [System.restore, System.restorePatchedInstructions, hpatched]
  have hphase : s.unpatch.restoreRuntimeOverrides.finder.phase ≠ .applyPatch := by
    unfold System.unpatch
    split
    · exact ScanPhase.noConfusion
    · exact h.phase
  simp only [System.advanceOther]
  split
  · exact Settled.of_restore h.safe heffects hphase
  · refine Settled.of_restore h.safe ?_ ?_
    · rw [System.effects_writeManifest, heffects]
    · rw [System.writeManifest_finder]
      exact hphase

theorem advanceScan_settled {r : System × Bool} (h : Ready o s)
    (hr : s.advanceScan services = some r) : Settled o r.1 := by
  unfold System.advanceScan at hr
  split at hr
  · cases hr
    exact advanceOther_settled h
  · rename_i hstate
    have hready := h.applyRuntimeOverrides
    have hscanning : s.applyRuntimeOverrides.finder.state = .scanning :=
      s.applyRuntimeOverrides_kept.2.1.trans (not_not.mp hstate)
    simp only at hr
    split at hr
    · cases hr
      exact finish_settled hready.safe hready.phase
    · exact advancePhase_settled hready hscanning hr

/-- The finder waits for a load and is told of one only if the slot has been loaded: nothing is told of a
load that failed. -/
def ToldOfLoads (s : System) : Call → Prop
  | .notify => s.finder.phase = .waitingForLoad → s.memory = s.savestate
  | _ => True

theorem Ready.call {c : Call} {s' : System} (h : Ready o s) (htold : ToldOfLoads s c)
    (hs : s.call c = some s') : Ready o s' := by
  cases c with
  | advance services =>
    obtain ⟨r, hr, rfl⟩ := Option.map_eq_some_iff.mp hs
    exact (advanceScan_settled h hr).toReady
  | pause =>
    cases hs
    unfold System.pauseScan
    split
    · exact ⟨h.safe, h.phase, h.loaded⟩
    · exact h
  | resume =>
    cases hs
    unfold System.resumeScan
    split
    · exact ⟨h.safe, h.phase, h.loaded⟩
    · exact h
  | stop =>
    cases hs
    exact ⟨h.safe, ScanPhase.noConfusion, fun hphase => ScanPhase.noConfusion hphase⟩
  | notify =>
    cases hs
    exact ⟨h.safe, h.phase, fun hphase _ => (htold hphase).trans h.safe.savestate⟩
  | load =>
    cases hs
    exact ⟨h.safe.load, h.phase, fun _ _ => h.safe.savestate⟩

/-! ## The starts -/

/-- No patch is in place, and nothing is overridden. -/
def System.Calm (s : System) : Prop :=
  s.finder.instructionPatched = false ∧ s.finder.runtimeOverridesActive = false

theorem Safe.memory_of_calm (h : Safe o s.effects) (hcalm : s.Calm) : s.memory = o.memory := by
  have hmemory := h.memory
  simpa [Effects.undo, System.effects, hcalm.1] using hmemory

theorem Safe.undone_of_calm (h : Safe o s.effects) (hcalm : s.Calm) : Undone o s := by
  have hreset := h.reset hcalm.1 hcalm.2
  have hthrottler := h.throttler
  have hmuted := h.muted
  have hturbo : s.effects.turboOverrideActive = false := by
    by_contra hon
    have hactive : s.finder.runtimeOverridesActive = true := h.turbo (by simpa using hon)
    simp [hcalm.2] at hactive
  have haudio : s.effects.audioMuteOverrideActive = false := by
    by_contra hon
    have hactive : s.finder.runtimeOverridesActive = true := h.mute (by simpa using hon)
    simp [hcalm.2] at hactive
  rw [hturbo] at hthrottler
  rw [haudio] at hmuted
  exact ⟨h.memory_of_calm hcalm, hthrottler, hmuted⟩

/-- A state in which nothing was done since the flags were reset. -/
theorem Settled.of_reset {s' : System} (h : Safe o s.effects) (hcalm : s.Calm)
    (heffects : s'.effects = s.effects.reset) (hphase : s'.finder.phase ≠ .applyPatch) :
    Settled o s' := by
  have hsafe : Safe o s'.effects := heffects ▸ h.reset hcalm.1 hcalm.2
  have hcalm' : s'.Calm :=
    ⟨congrArg Effects.instructionPatched heffects, congrArg Effects.runtimeOverridesActive heffects⟩
  have hundone := hsafe.undone_of_calm hcalm'
  exact ⟨⟨hsafe, hphase, fun _ _ => hundone.memory⟩, fun _ => hundone⟩

theorem fail_settled (h : Safe o s.effects) (hphase : s.finder.phase ≠ .applyPatch) :
    Settled o s.fail := by
  refine Settled.of_restore h rfl ?_
  exact s.restore_phase ▸ hphase

theorem writeFirstManifest_settled (h : Settled o s) (hstate : s.finder.state = .scanning) :
    Settled o (s.writeFirstManifest services).1 := by
  unfold System.writeFirstManifest
  split
  · refine ⟨⟨?_, ?_, ?_⟩, ?_⟩
    · rw [System.effects_writeManifest]
      exact h.safe
    · rw [System.writeManifest_finder]
      exact h.phase
    · rw [System.writeManifest_finder]
      intro hphase hload
      have hmemory : (s.writeManifest services).memory = s.memory :=
        congrArg Effects.memory (s.effects_writeManifest services)
      exact hmemory.trans (h.loaded hphase hload)
    · rw [System.writeManifest_finder]
      exact fun hnot => absurd hstate hnot
  · exact fail_settled h.safe h.phase

/-- The start of a scan applies the overrides. -/
theorem Settled.override (h : Settled o s) (hstate : s.finder.state = .scanning) :
    Settled o s.applyRuntimeOverrides :=
  ⟨h.toReady.applyRuntimeOverrides, fun hnot =>
    absurd (s.applyRuntimeOverrides_kept.2.1.trans hstate) hnot⟩

/-- The capture of what the slot already holds changes nothing. -/
theorem captureReferenceSavestate_of_eq (captured : Bool) (h : s.memory = s.savestate) :
    s.captureReferenceSavestate captured = s := by
  unfold System.captureReferenceSavestate
  split
  · cases s
    cases h
    rfl
  · rfl

theorem beginScan_settled {captured : Bool} (h : Settled o s) (hmemory : s.memory = o.memory)
    (hstate : s.finder.state = .scanning) : Settled o (s.beginScan services captured).1 := by
  have hready := h.override hstate
  obtain ⟨-, hstate', -, hmemory'⟩ := s.applyRuntimeOverrides_kept
  have hscanning := hstate'.trans hstate
  have hcapture := captureReferenceSavestate_of_eq captured
    ((hmemory'.trans hmemory).trans hready.safe.savestate.symm)
  simp only [System.beginScan, hcapture]
  split_ifs
  · exact writeFirstManifest_settled hready hscanning
  · exact fail_settled hready.safe hready.phase
  · exact writeFirstManifest_settled hready hscanning

theorem startFreshScan_settled {fromMap : Option (List Candidate)} {captured : Bool}
    (h : Safe o s.effects) (hcalm : s.Calm) (hphase : s.finder.phase = .none) :
    Settled o (s.startFreshScan services fromMap captured).1 := by
  have hundone := h.undone_of_calm hcalm
  have hsettled : ∀ s' : System, s'.effects = s.effects → s'.finder.phase ≠ .applyPatch →
      Settled o s' := fun s' heffects hphase =>
    ⟨⟨heffects ▸ h, hphase, fun _ _ => (hundone.congr heffects).memory⟩,
      fun _ => hundone.congr heffects⟩
  have hnot : s.finder.phase ≠ .applyPatch := by simp [hphase]
  unfold System.startFreshScan
  split
  · exact hsettled s rfl hnot
  · split
    · exact hsettled _ rfl hnot
    · exact hsettled _ rfl hnot
    · rename_i c cs
      exact beginScan_settled (hsettled _ rfl ScanPhase.noConfusion) hundone.memory rfl

theorem resume_settled {m : ManifestData} (h : Safe o s.effects) (hcalm : s.Calm) :
    Settled o (s.resume m) := by
  have hundone := h.undone_of_calm hcalm
  have hsettled : ∀ s' : System, s'.effects = s.effects → s'.finder.phase ≠ .applyPatch →
      Settled o s' := fun s' heffects hphase =>
    ⟨⟨heffects ▸ h, hphase, fun _ _ => (hundone.congr heffects).memory⟩,
      fun _ => hundone.congr heffects⟩
  simp only [System.resume]
  split
  · exact hsettled _ rfl ScanPhase.noConfusion
  · refine Settled.override (hsettled _ ?_ ?_) ?_
    · rfl
    · exact ScanPhase.noConfusion
    · rfl

theorem startScan_settled {config : ScanConfig} {saved : Option ManifestData}
    {fromMap : Option (List Candidate)} {captured : Bool} (h : Ready o s) (hcalm : s.Calm) :
    Settled o (s.startScan services config saved fromMap captured).1 := by
  have hprepared : (s.prepared config).effects = s.effects.reset := rfl
  have hsafe : Safe o (s.prepared config).effects := h.safe.reset hcalm.1 hcalm.2
  have hcalm' : (s.prepared config).Calm := ⟨rfl, rfl⟩
  unfold System.startScan
  split
  · exact ⟨h, fun _ => h.safe.undone_of_calm hcalm⟩
  · split
    · exact resume_settled hsafe hcalm'
    · exact startFreshScan_settled hsafe hcalm' rfl

theorem restoreSession_settled {saved : Option ManifestData} (h : Ready o s) (hcalm : s.Calm) :
    Settled o (s.restoreSession services saved).1 := by
  have hcalmly : Settled o s := ⟨h, fun _ => h.safe.undone_of_calm hcalm⟩
  unfold System.restoreSession
  split
  · exact hcalmly
  · split
    · exact hcalmly
    · rename_i m _ _ p _
      have hrestored : Settled o (s.restoredTo m p) :=
        Settled.of_reset h.safe hcalm rfl ScanPhase.noConfusion
      exact writeFirstManifest_settled (hrestored.override rfl)
        ((s.restoredTo m p).applyRuntimeOverrides_kept.2.1.trans rfl)

/-! ## Runs -/

inductive Operation where
  | startScan (services : Services) (config : ScanConfig) (saved : Option ManifestData)
      (fromMap : Option (List Candidate)) (captured : Bool)
  | restoreSession (services : Services) (saved : Option ManifestData)
  | call (c : Call)

/-- What an operation does; `none` is an access out of bounds. -/
def System.apply (s : System) : Operation → Option System
  | .startScan services config saved fromMap captured =>
    some (s.startScan services config saved fromMap captured).1
  | .restoreSession services saved => some (s.restoreSession services saved).1
  | .call c => s.call c

/-- The operations after which a finder that does not scan has undone its effects. -/
def Operation.Settles : Operation → Prop
  | .startScan .. => True
  | .restoreSession .. => True
  | .call (.advance _) => True
  | .call _ => False

/-- A scan is started where no scan has its effects in place, and only loads that succeed are notified. -/
def Allowed (s : System) : Operation → Prop
  | .startScan .. => s.Calm
  | .restoreSession .. => s.Calm
  | .call c => ToldOfLoads s c

theorem apply_settled {op : Operation} {s' : System} (h : Ready o s) (hallowed : Allowed s op)
    (hs : s.apply op = some s') : Ready o s' ∧ (op.Settles → Settled o s') := by
  cases op with
  | startScan services config saved fromMap captured =>
    cases hs
    have hsettled : Settled o (s.startScan services config saved fromMap captured).1 :=
      startScan_settled h hallowed
    exact ⟨hsettled.toReady, fun _ => hsettled⟩
  | restoreSession services saved =>
    cases hs
    have hsettled : Settled o (s.restoreSession services saved).1 :=
      restoreSession_settled h hallowed
    exact ⟨hsettled.toReady, fun _ => hsettled⟩
  | call c =>
    refine ⟨h.call hallowed hs, fun hsettles => ?_⟩
    cases c with
    | advance services =>
      obtain ⟨r, hr, rfl⟩ := Option.map_eq_some_iff.mp hs
      exact advanceScan_settled h hr
    | pause => exact hsettles.elim
    | resume => exact hsettles.elim
    | stop => exact hsettles.elim
    | notify => exact hsettles.elim
    | load => exact hsettles.elim

/-- A finder that has not scanned yet, and a slot that holds the game as it is. The audio is not
unmuted for this run only. -/
structure Fresh (s : System) : Prop where
  calm : s.Calm
  turbo : s.finder.turboOverrideActive = false
  mute : s.finder.audioMuteOverrideActive = false
  phase : s.finder.phase = .none
  savestate : s.savestate = s.memory
  below : s.muted = false → s.mutedBelow = false

theorem Fresh.ready (h : Fresh s) : Ready ⟨s.memory, s.throttlerDisabled, s.muted⟩ s where
  safe :=
    { savestate := h.savestate
      memory := by simp [Effects.undo, System.effects, h.calm.1]
      throttler := by simp [System.effects, h.turbo]
      muted := by simp [System.effects, h.mute, System.muted]
      below := h.below
      turbo := by simp [System.effects, h.turbo]
      mute := by simp [System.effects, h.mute] }
  phase := by simp [h.phase]
  loaded := fun _ _ => rfl

/-- The scan of `sampleStart`. -/
def sampleOperation : Operation :=
  .startScan sampleServices sampleConfig none (some [⟨[], 0x80003100⟩, ⟨[], 0x80003200⟩]) true

theorem sampleSystem_fresh : Fresh sampleSystem where
  calm := ⟨rfl, rfl⟩
  turbo := rfl
  mute := rfl
  phase := rfl
  savestate := rfl
  below := fun _ => rfl

/-- The scan runs until the first patch is in place. -/
def samplePatched : Option System :=
  run System.apply anyStep sampleSystem [sampleOperation, .call (.advance sampleServices),
    .call .load, .call .notify, .call (.advance sampleServices)]

theorem reach_call {s₀ s s' : System} (h : Reach System.apply Allowed s₀ s) (c : Call)
    (htold : ToldOfLoads s c) (hs : s.call c = some s') : Reach System.apply Allowed s₀ s' :=
  h.tail (.call c) htold hs

end CullingCodeFinder
