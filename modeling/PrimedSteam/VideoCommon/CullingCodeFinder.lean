import Mathlib.Algebra.Order.Group.Multiset
import Mathlib.Data.List.Sort
import Mathlib.Tactic.Abel

/-!
# The scan for codes that turn culling off

`CullingCodeFinder` patches one function after the other with each enabled template, measures what is
drawn, and keeps the patches that draw more. A savestate is loaded before each test.

* `advanceScan`: the state machine; each phase that is left by `continue` is called by the one before.
* `startScan`, `restoreSession`: the starts, with what the services of the host answer as arguments.
* `System`: the finder, the memory of the guest, the savestate and the settings that a scan overrides.

`tested` and `manifests` record what was done; no operation reads them.
-/

set_option autoImplicit false

namespace CullingCodeFinder

abbrev Byte := BitVec 8

abbrev Address := BitVec 32

abbrev Memory := Address → Byte

def templateCount : ℕ := 4

inductive PatchTemplateKind where
  | liR3True
  | liR3False
  | oriR0True
  | oriR0False
  deriving DecidableEq

/-- `TEMPLATE_ORDER` -/
def templateOrder : ℕ → PatchTemplateKind
  | 0 => .liR3True
  | 1 => .liR3False
  | 2 => .oriR0True
  | _ => .oriR0False

/-- `GetPatchTemplates` -/
def PatchTemplateKind.firstInstruction : PatchTemplateKind → BitVec 32
  | .liR3True => 0x38600001
  | .liR3False => 0x38600000
  | .oriR0True => 0x60000001
  | .oriR0False => 0x60000000

def blrInstruction : BitVec 32 := 0x4E800020

structure FrameStats where
  drawCalls : ℤ
  trianglesDrawn : ℤ
  prims : ℤ
  drawnObjects : ℤ

structure ScanConfig where
  savestateSlot : ℤ
  settleFrames : ℤ
  minDrawCallIncrease : ℤ
  minTriangleIncrease : ℤ
  minObjectIncrease : ℤ
  timeoutSeconds : ℤ
  candidateLimit : ℤ
  startAddress : Address
  endAddress : Address
  turboDuringScan : Bool
  muteAudioDuringScan : Bool
  autoCaptureReferenceState : Bool
  symbolFilter : List Char
  /-- Only the first `templateCount` ones count. -/
  enabledTemplates : ℕ → Bool

structure Candidate where
  symbolName : List Char
  address : Address

structure ScanResult where
  symbolName : List Char
  address : Address
  templateKind : PatchTemplateKind
  baseline : FrameStats
  measured : FrameStats
  drawCallDelta : ℤ
  triangleDelta : ℤ
  primDelta : ℤ
  objectDelta : ℤ
  causedTimeout : Bool

inductive ScanState where
  | idle
  | scanning
  | paused
  | stopped
  | finished
  | error
  deriving DecidableEq

inductive ScanPhase where
  | none
  | requestLoad
  | waitingForLoad
  | applyPatch
  | waitingForSettle
  | finalize
  deriving DecidableEq

structure ManifestData where
  gameId : List Char
  config : ScanConfig
  baseline : FrameStats
  baselineSet : Bool
  candidates : List Candidate
  results : List ScanResult
  nextCandidateIndex : ℕ
  nextTemplateIndex : ℕ
  hasLastTestedPosition : Bool
  lastTestedAddress : Address
  lastTestedTemplateIndex : ℕ
  state : ScanState

structure Finder where
  baseline : FrameStats
  baselineSet : Bool
  state : ScanState
  phase : ScanPhase
  scanConfig : ScanConfig
  gameId : List Char
  candidates : List Candidate
  results : List ScanResult
  candidateIndex : ℕ
  templateIndex : ℕ
  hasLastTestedPosition : Bool
  lastTestedAddress : Address
  lastTestedTemplateIndex : ℕ
  savedEntryInstruction : BitVec 32
  savedNextInstruction : BitVec 32
  patchedAddress : Address
  activeTemplate : PatchTemplateKind
  instructionPatched : Bool
  loadCompleted : Bool
  runtimeOverridesActive : Bool
  turboOverrideActive : Bool
  audioMuteOverrideActive : Bool
  settleFrameStart : ℤ
  lastSampledFrame : ℤ
  settleSamples : List FrameStats

/-- A candidate and a template, by their indexes. -/
abbrev Position := ℕ × ℕ

structure System where
  finder : Finder
  /-- The running game. -/
  gameId : List Char
  memory : Memory
  /-- The memory in the savestate of the slot. -/
  savestate : Memory
  /-- `GetIsThrottlerTempDisabled` -/
  throttlerDisabled : Bool
  /-- `MAIN_AUDIO_MUTED` in the `CurrentRun` layer, and its value in the layers below. -/
  mutedCurrentRun : Option Bool
  mutedBelow : Bool
  /-- The tests that ended since the start, and whether a result was recorded. -/
  tested : List (Position × Bool)
  /-- The manifests that were written since the start, the last one first. -/
  manifests : List ManifestData

/-- What the host answers during a call. -/
structure Services where
  /-- `m_frame_counter` -/
  frameCounter : ℤ
  /-- The seconds since `m_phase_started_at`. -/
  elapsed : ℤ
  latestStats : FrameStats
  /-- The instructions of the candidate can be read. -/
  readable : Bool
  /-- The manifest can be written. -/
  writable : Bool

/-! ## Positions -/

namespace ScanConfig

variable (config : ScanConfig)

/-- `FindNextEnabledTemplateIndex` -/
def findNextEnabledTemplateIndex (startIndex : ℕ) : ℕ :=
  ((List.range' startIndex (templateCount - startIndex)).find? config.enabledTemplates).getD
    templateCount

/-- `GetEnabledTemplateCount` -/
def enabledTemplateCount : ℕ := (List.range templateCount).countP config.enabledTemplates

/-- `AdvancePositionAfterCrash`: what is returned, and the position that is left. -/
def advancePositionAfterCrash (candidateCount : ℕ) (p : Position) : Bool × Position :=
  let nextTemplate := config.findNextEnabledTemplateIndex (p.2 + 1)
  if nextTemplate < templateCount then (p.1 < candidateCount, (p.1, nextTemplate))
  else if p.1 + 1 ≥ candidateCount then (false, (p.1 + 1, p.2))
  else
    (config.findNextEnabledTemplateIndex 0 < templateCount,
      (p.1 + 1, config.findNextEnabledTemplateIndex 0))

/-- The position that `AdvanceToNextTemplate` goes to. -/
def nextPosition (p : Position) : Position :=
  let nextTemplate := config.findNextEnabledTemplateIndex (p.2 + 1)
  if nextTemplate < templateCount then (p.1, nextTemplate)
  else (p.1 + 1, config.findNextEnabledTemplateIndex 0)

end ScanConfig

/-! ## The finder -/

namespace Finder

variable (f : Finder)

/-- The current test. -/
def position : Position := (f.candidateIndex, f.templateIndex)

/-- The manifest that `WriteManifest` saves. -/
def manifest : ManifestData where
  gameId := f.gameId
  config := f.scanConfig
  baseline := f.baseline
  baselineSet := f.baselineSet
  candidates := f.candidates
  results := f.results
  nextCandidateIndex := f.candidateIndex
  nextTemplateIndex := f.templateIndex
  hasLastTestedPosition := f.hasLastTestedPosition
  lastTestedAddress := f.lastTestedAddress
  lastTestedTemplateIndex := f.lastTestedTemplateIndex
  state := f.state

/-- `AdvanceToNextTemplate` -/
def advanceToNextTemplate : Finder :=
  { f with
    candidateIndex := (f.scanConfig.nextPosition f.position).1
    templateIndex := (f.scanConfig.nextPosition f.position).2 }

/-- `AverageSamples` -/
def averageSamples : FrameStats :=
  let count : ℤ := f.settleSamples.length
  if f.settleSamples = [] then ⟨0, 0, 0, 0⟩
  else
    { drawCalls := (f.settleSamples.map FrameStats.drawCalls).sum.tdiv count
      trianglesDrawn := (f.settleSamples.map FrameStats.trianglesDrawn).sum.tdiv count
      prims := (f.settleSamples.map FrameStats.prims).sum.tdiv count
      drawnObjects := (f.settleSamples.map FrameStats.drawnObjects).sum.tdiv count }

/-- `ShouldKeepResult` -/
def shouldKeepResult (measured : FrameStats) : Bool :=
  measured.drawCalls - f.baseline.drawCalls ≥ f.scanConfig.minDrawCallIncrease ∧
    measured.trianglesDrawn - f.baseline.trianglesDrawn ≥ f.scanConfig.minTriangleIncrease ∧
    measured.drawnObjects - f.baseline.drawnObjects ≥ f.scanConfig.minObjectIncrease

end Finder

/-- The comparison of `SortResults`. -/
def ScanResult.before (a b : ScanResult) : Bool :=
  if a.causedTimeout ≠ b.causedTimeout then !a.causedTimeout
  else if a.drawCallDelta ≠ b.drawCallDelta then a.drawCallDelta > b.drawCallDelta
  else if a.objectDelta ≠ b.objectDelta then a.objectDelta > b.objectDelta
  else if a.triangleDelta ≠ b.triangleDelta then a.triangleDelta > b.triangleDelta
  else a.address < b.address

/-- `AppendResult`; the sort is stable. -/
def appendResult (results : List ScanResult) (result : ScanResult) : List ScanResult :=
  (results ++ [result]).mergeSort fun a b => !b.before a

/-! ## The memory of the guest -/

/-- The byte of a word at an offset. -/
def wordByte (v : BitVec 32) (offset : Address) : Byte := v.extractLsb' (24 - 8 * offset.toNat) 8

/-- `HostWrite<u32>` -/
def Memory.write32 (m : Memory) (v : BitVec 32) (address : Address) : Memory := fun i =>
  if (i - address).toNat < 4 then wordByte v (i - address) else m i

/-- `HostTryRead<u32>` of a word that can be read. -/
def Memory.read32 (m : Memory) (address : Address) : BitVec 32 :=
  m address ++ m (address + 1) ++ m (address + 2) ++ m (address + 3)

namespace System

variable (s : System) (services : Services)

/-- `Config::Get(MAIN_AUDIO_MUTED)` -/
def muted : Bool := s.mutedCurrentRun.getD s.mutedBelow

/-- `m_phase` is set. -/
def setPhase (phase : ScanPhase) : System := { s with finder := { s.finder with phase := phase } }

/-- `WriteManifest` -/
def writeManifest : System :=
  if services.writable then { s with manifests := s.finder.manifest :: s.manifests } else s

/-- `RestorePatchedInstructions` -/
def restorePatchedInstructions : System :=
  if s.finder.instructionPatched then
    { s with
      memory := (s.memory.write32 s.finder.savedEntryInstruction s.finder.patchedAddress).write32
        s.finder.savedNextInstruction (s.finder.patchedAddress + 4)
      finder := { s.finder with
        instructionPatched := false
        savedEntryInstruction := 0
        savedNextInstruction := 0
        patchedAddress := 0 } }
  else s

/-- The throttler is overridden by `ApplyRuntimeOverrides`. -/
def overrideTurbo : System :=
  if s.finder.scanConfig.turboDuringScan ∧ s.throttlerDisabled = false then
    { s with
      throttlerDisabled := true
      finder := { s.finder with turboOverrideActive := true } }
  else s

/-- The audio is muted by `ApplyRuntimeOverrides`. -/
def overrideMute : System :=
  if s.finder.scanConfig.muteAudioDuringScan ∧ s.muted = false then
    { s with
      mutedCurrentRun := some true
      finder := { s.finder with audioMuteOverrideActive := true } }
  else s

/-- `ApplyRuntimeOverrides` -/
def applyRuntimeOverrides : System :=
  if s.finder.runtimeOverridesActive then s
  else
    let s := s.overrideTurbo.overrideMute
    { s with finder := { s.finder with runtimeOverridesActive := true } }

/-- `RestoreRuntimeOverrides` -/
def restoreRuntimeOverrides : System :=
  { s with
    throttlerDisabled := if s.finder.turboOverrideActive then false else s.throttlerDisabled
    mutedCurrentRun := if s.finder.audioMuteOverrideActive then none else s.mutedCurrentRun
    finder := { s.finder with
      turboOverrideActive := false
      audioMuteOverrideActive := false
      runtimeOverridesActive := false } }

/-- Both kinds of effects are undone, as they are wherever a scan ends. -/
def restore : System := s.restorePatchedInstructions.restoreRuntimeOverrides

/-- The scan is over. -/
def finish : System :=
  let s := s.restore
  ({ s with finder := { s.finder with state := .finished } }).writeManifest services

/-- A result of the current test. -/
def result (candidate : Candidate) (measured : FrameStats) (causedTimeout : Bool) : ScanResult where
  symbolName := candidate.symbolName
  address := candidate.address
  templateKind := templateOrder s.finder.templateIndex
  baseline := s.finder.baseline
  measured := measured
  drawCallDelta := if causedTimeout then 0 else measured.drawCalls - s.finder.baseline.drawCalls
  triangleDelta :=
    if causedTimeout then 0 else measured.trianglesDrawn - s.finder.baseline.trianglesDrawn
  primDelta := if causedTimeout then 0 else measured.prims - s.finder.baseline.prims
  objectDelta :=
    if causedTimeout then 0 else measured.drawnObjects - s.finder.baseline.drawnObjects
  causedTimeout := causedTimeout

/-- The current test ends with a result, or with none, and the next one is chosen. -/
def endTest (result : Option ScanResult) : System :=
  { s with
    finder := { s.finder with
      results := match result with
        | some result => appendResult s.finder.results result
        | none => s.finder.results }.advanceToNextTemplate
    tested := s.tested ++ [(s.finder.position, result.isSome)] }

/-- The phase `RequestLoad`. -/
def requestLoad : System × Bool :=
  match s.finder.candidates[s.finder.candidateIndex]? with
  | none => (s.finish services, false)
  | some candidate =>
    let s := { s with finder := { s.finder with
      hasLastTestedPosition := true
      lastTestedAddress := candidate.address
      lastTestedTemplateIndex := s.finder.templateIndex } }.writeManifest services
    ({ s with finder := { s.finder with
      loadCompleted := false
      settleSamples := []
      lastSampledFrame := services.frameCounter
      phase := .waitingForLoad } }, true)

/-- The test of `candidate` ends with a timeout, and the next one is begun. -/
def timeout (candidate : Candidate) : System × Bool :=
  let s := (s.endTest (s.result candidate ⟨0, 0, 0, 0⟩ true)).writeManifest services
  (s.setPhase .requestLoad).requestLoad services

/-- The phase `ApplyPatch`. -/
def applyPatch (candidate : Candidate) : System × Bool :=
  let kind := templateOrder s.finder.templateIndex
  if services.readable = false then s.timeout services candidate
  else
    ({ s with
      memory := (s.memory.write32 kind.firstInstruction candidate.address).write32 blrInstruction
        (candidate.address + 4)
      finder := { s.finder with
        savedEntryInstruction := s.memory.read32 candidate.address
        savedNextInstruction := s.memory.read32 (candidate.address + 4)
        patchedAddress := candidate.address
        activeTemplate := kind
        instructionPatched := true
        settleSamples := []
        settleFrameStart := services.frameCounter
        lastSampledFrame := services.frameCounter
        phase := .waitingForSettle } }, true)

/-- The phase `WaitingForLoad`. -/
def waitingForLoad (candidate : Candidate) : System × Bool :=
  if s.finder.loadCompleted then
    { s with finder := { s.finder with loadCompleted := false, phase := .applyPatch } }.applyPatch
      services candidate
  else if services.elapsed ≥ s.finder.scanConfig.timeoutSeconds then
    s.timeout services candidate
  else (s, true)

/-- The result of a test that was measured; `none` if it is not kept. -/
def measuredResult (candidate : Candidate) : Option ScanResult :=
  if (s.finder.settleSamples.length : ℤ) < s.finder.scanConfig.settleFrames then
    some (s.result candidate ⟨0, 0, 0, 0⟩ true)
  else if s.finder.shouldKeepResult s.finder.averageSamples then
    some (s.result candidate s.finder.averageSamples false)
  else none

/-- `m_settle_samples` is cleared. -/
def clearSamples : System := { s with finder := { s.finder with settleSamples := [] } }

/-- The last test has ended. -/
def finishLast : System :=
  let s := s.restore
  { s with finder := { s.finder with
      state := .finished
      phase := .none
      hasLastTestedPosition := false
      lastTestedAddress := 0
      lastTestedTemplateIndex := 0 } }.writeManifest services

/-- The phase `Finalize`. -/
def finalize (candidate : Candidate) : System × Bool :=
  let s := (s.endTest (s.measuredResult candidate)).clearSamples
  if s.finder.candidateIndex ≥ s.finder.candidates.length then (s.finishLast services, false)
  else ((s.setPhase .requestLoad).writeManifest services).requestLoad services

/-- The frames that came since the last sample. -/
def sampled : System :=
  let last := s.finder.lastSampledFrame
  let current := services.frameCounter
  if current > last then
    let frames := (List.range (current - last).toNat).map fun i : ℕ => last + 1 + (i : ℤ)
    let kept := frames.filter fun frame => frame > s.finder.settleFrameStart
    { s with finder := { s.finder with
      settleSamples := s.finder.settleSamples ++ kept.map fun _ => services.latestStats
      lastSampledFrame := current } }
  else s

/-- The phase `WaitingForSettle`. -/
def waitingForSettle (candidate : Candidate) : System × Bool :=
  let s := s.sampled services
  if (s.finder.settleSamples.length : ℤ) ≥ s.finder.scanConfig.settleFrames ∨
      services.elapsed ≥ s.finder.scanConfig.timeoutSeconds then
    (s.setPhase .finalize).finalize services candidate
  else (s, true)

/-- A patch is taken back where the finder does not scan, and its test has to begin again. -/
def unpatch : System :=
  if s.finder.instructionPatched then s.restorePatchedInstructions.setPhase .requestLoad else s

/-- `AdvanceScan` of a finder that does not scan. -/
def advanceOther : System × Bool :=
  let s := s.unpatch.restoreRuntimeOverrides
  (if s.finder.state = .idle then s else s.writeManifest services, false)

/-- The phases of `AdvanceScan`; all but the first need the current candidate, `none` is an access
out of bounds. -/
def advancePhase : Option (System × Bool) :=
  match s.finder.phase, s.finder.candidates[s.finder.candidateIndex]? with
  | .none, _ => some (s.requestLoad services)
  | .requestLoad, _ => some (s.requestLoad services)
  | .waitingForLoad, some candidate => some (s.waitingForLoad services candidate)
  | .applyPatch, some candidate => some (s.applyPatch services candidate)
  | .waitingForSettle, some candidate => some (s.waitingForSettle services candidate)
  | .finalize, some candidate => some (s.finalize services candidate)
  | _, none => none

/-- `AdvanceScan` -/
def advanceScan : Option (System × Bool) :=
  if s.finder.state ≠ .scanning then some (s.advanceOther services)
  else
    let s := s.applyRuntimeOverrides
    if s.finder.candidates = [] ∨ s.finder.scanConfig.enabledTemplateCount = 0 then
      some (s.finish services, false)
    else s.advancePhase services

/-- `PauseScan` -/
def pauseScan : System :=
  if s.finder.state = .scanning then { s with finder := { s.finder with state := .paused } } else s

/-- `ResumeScan` -/
def resumeScan : System :=
  if s.finder.state = .paused then { s with finder := { s.finder with state := .scanning } } else s

/-- `StopScan` -/
def stopScan : System := { s with finder := { s.finder with state := .stopped, phase := .none } }

/-- `NotifySavestateLoaded` -/
def notifySavestateLoaded : System := { s with finder := { s.finder with loadCompleted := true } }

/-- The host loads the savestate of the slot. A load that fails is no event. -/
def loadSavestate : System := { s with memory := s.savestate }

end System

/-- The calls during a scan, and the loads that the host makes for it. -/
inductive Call where
  | advance (services : Services)
  | pause
  | resume
  | stop
  | notify
  | load

/-- What a call does; `none` is an access out of bounds. -/
def System.call (s : System) : Call → Option System
  | .advance services => (s.advanceScan services).map Prod.fst
  | .pause => some s.pauseScan
  | .resume => some s.resumeScan
  | .stop => some s.stopScan
  | .notify => some s.notifySavestateLoaded
  | .load => some s.loadSavestate

/-! ## The starts of a scan -/

namespace ScanConfig

/-- The fields that `TryResumeFromManifest` compares. -/
def SameScan (a b : ScanConfig) : Prop :=
  a.savestateSlot = b.savestateSlot ∧ a.settleFrames = b.settleFrames ∧
    a.minDrawCallIncrease = b.minDrawCallIncrease ∧
    a.minTriangleIncrease = b.minTriangleIncrease ∧ a.minObjectIncrease = b.minObjectIncrease ∧
    a.timeoutSeconds = b.timeoutSeconds ∧ a.candidateLimit = b.candidateLimit ∧
    a.startAddress = b.startAddress ∧ a.endAddress = b.endAddress ∧
    a.turboDuringScan = b.turboDuringScan ∧ a.muteAudioDuringScan = b.muteAudioDuringScan ∧
    a.autoCaptureReferenceState = b.autoCaptureReferenceState ∧ a.symbolFilter = b.symbolFilter ∧
    ∀ i < templateCount, a.enabledTemplates i = b.enabledTemplates i

instance (a b : ScanConfig) : Decidable (a.SameScan b) := by
  unfold SameScan
  infer_instance

end ScanConfig

namespace ManifestData

variable (m : ManifestData)

/-- The test that comes next. -/
def position : Position := (m.nextCandidateIndex, m.nextTemplateIndex)

/-- `FindCandidateIndexByAddress` -/
def candidateIndexByAddress (address : Address) : ℕ :=
  (m.candidates.findIdx? fun c => c.address = address).getD m.candidates.length

/-- The checks of `TryResumeFromManifest`. -/
def Resumable (gameId : List Char) (config : ScanConfig) : Prop :=
  m.gameId = gameId ∧ m.config.SameScan config ∧
    ¬(m.state = .finished ∨ m.state = .idle ∨ m.state = .stopped) ∧ m.candidates ≠ []

instance (gameId : List Char) (config : ScanConfig) : Decidable (m.Resumable gameId config) := by
  unfold Resumable
  infer_instance

/-- The checks of `RestoreSession` before the position is looked at. -/
def Restorable (gameId : List Char) : Prop :=
  gameId ≠ [] ∧ m.gameId = gameId ∧ m.candidates ≠ [] ∧
    ¬(m.state = .finished ∨ m.state = .idle) ∧ m.baselineSet = true

instance (gameId : List Char) : Decidable (m.Restorable gameId) := by
  unfold Restorable
  infer_instance

/-- The test that `RestoreSession` skips. -/
def skipped : Option Position :=
  let next : Position :=
    (m.nextCandidateIndex, m.config.findNextEnabledTemplateIndex m.nextTemplateIndex)
  if next.1 ≥ m.candidates.length ∨ next.2 ≥ templateCount then
    let last : Position := if m.hasLastTestedPosition then
        (m.candidateIndexByAddress m.lastTestedAddress, m.lastTestedTemplateIndex)
      else next
    if last.1 ≥ m.candidates.length ∨ last.2 ≥ templateCount ∨
        m.config.enabledTemplates last.2 = false then none
    else some last
  else some next

/-- The position from which `RestoreSession` goes on. -/
def restoredPosition : Option Position :=
  m.skipped.bind fun p =>
    let (found, p) := m.config.advancePositionAfterCrash m.candidates.length p
    if found then some p else none

end ManifestData

namespace System

variable (s : System) (services : Services)

/-- The flags that a start sets to false. -/
def resetFlags : System :=
  { s with finder := { s.finder with
      settleSamples := []
      loadCompleted := false
      instructionPatched := false
      savedEntryInstruction := 0
      savedNextInstruction := 0
      patchedAddress := 0
      runtimeOverridesActive := false
      turboOverrideActive := false
      audioMuteOverrideActive := false } }

/-- `TryResumeFromManifest` with a manifest that passes the checks. -/
def resume (m : ManifestData) : System :=
  let finder := { s.finder with
    scanConfig := m.config
    gameId := m.gameId
    baseline := m.baseline
    baselineSet := m.baselineSet
    candidates := m.candidates
    results := m.results
    candidateIndex := m.nextCandidateIndex
    templateIndex := m.config.findNextEnabledTemplateIndex m.nextTemplateIndex
    hasLastTestedPosition := m.hasLastTestedPosition
    lastTestedAddress := m.lastTestedAddress
    lastTestedTemplateIndex := m.lastTestedTemplateIndex }
  if m.nextCandidateIndex ≥ m.candidates.length then
    { s with finder := { finder with
        candidateIndex := m.candidates.length
        state := .finished
        phase := .none } }
  else
    { s with finder := { finder with state := .scanning, phase := .requestLoad } }
      |>.applyRuntimeOverrides

/-- `CaptureReferenceSavestate` -/
def captureReferenceSavestate (captured : Bool) : System :=
  if captured then { s with savestate := s.memory } else s

/-- The first test of the candidates comes next, and nothing was tested yet. -/
def fresh (candidates : List Candidate) : System :=
  { s with
    tested := []
    manifests := []
    finder := { s.finder with
      candidates := candidates
      results := []
      candidateIndex := 0
      templateIndex := s.finder.scanConfig.findNextEnabledTemplateIndex 0
      hasLastTestedPosition := false
      lastTestedAddress := 0
      lastTestedTemplateIndex := 0
      phase := .requestLoad
      state := .scanning } }

/-- The end of a start that fails. -/
def fail : System :=
  let s := s.restore
  { s with finder := { s.finder with state := .error } }

/-- The manifest is written, or the scan ends with an error. -/
def writeFirstManifest : System × Bool :=
  if services.writable then (s.writeManifest services, true) else (s.fail, false)

/-- The end of `StartFreshScan`. -/
def beginScan (captured : Bool) : System × Bool :=
  let s := s.applyRuntimeOverrides
  if s.finder.scanConfig.autoCaptureReferenceState then
    let s := s.captureReferenceSavestate captured
    if captured then s.writeFirstManifest services else (s.fail, false)
  else s.writeFirstManifest services

/-- `StartFreshScan`; `fromMap` is what `BuildCandidatesFromMap` finds, `none` without a map. -/
def startFreshScan (fromMap : Option (List Candidate)) (captured : Bool) : System × Bool :=
  if s.finder.scanConfig.enabledTemplateCount = 0 then (s, false)
  else
    match fromMap with
    | none => ({ s with finder := { s.finder with state := .error } }, false)
    | some [] => ({ s with finder := { s.finder with state := .error, candidates := [] } }, false)
    | some (c :: cs) => (s.fresh (c :: cs)).beginScan services captured

/-- What `StartScan` sets first. -/
def prepared (config : ScanConfig) : System :=
  { s.resetFlags with finder := { s.resetFlags.finder with
      scanConfig := config
      gameId := s.gameId
      state := .idle
      phase := .none
      hasLastTestedPosition := false
      lastTestedAddress := 0
      lastTestedTemplateIndex := 0 } }

/-- `StartScan`; `saved` is the manifest in the output folder. -/
def startScan (config : ScanConfig) (saved : Option ManifestData)
    (fromMap : Option (List Candidate)) (captured : Bool) : System × Bool :=
  if s.finder.baselineSet = false then (s, false)
  else
    match saved.filter fun m => m.Resumable s.gameId config with
    | some m => ((s.prepared config).resume m, true)
    | none => (s.prepared config).startFreshScan services fromMap captured

/-- The scan of a manifest from the position `p` on; nothing was tested since. -/
def restoredTo (m : ManifestData) (p : Position) : System :=
  { s.resetFlags with
    tested := []
    manifests := []
    finder := { s.resetFlags.finder with
      scanConfig := m.config
      gameId := m.gameId
      baseline := m.baseline
      baselineSet := m.baselineSet
      candidates := m.candidates
      results := m.results
      candidateIndex := p.1
      templateIndex := p.2
      hasLastTestedPosition := m.hasLastTestedPosition
      lastTestedAddress := m.lastTestedAddress
      lastTestedTemplateIndex := m.lastTestedTemplateIndex
      state := .scanning
      phase := .requestLoad } }

/-- `RestoreSession` with the manifest of the folder. -/
def restoreSession (saved : Option ManifestData) : System × Bool :=
  match saved.filter fun m => m.Restorable s.gameId with
  | none => (s, false)
  | some m =>
    match m.restoredPosition with
    | none => (s, false)
    | some p => (s.restoredTo m p).applyRuntimeOverrides.writeFirstManifest services

end System

end CullingCodeFinder
