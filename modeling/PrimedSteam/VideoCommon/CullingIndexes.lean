import PrimedSteam.VideoCommon.CullingCoverage
import PrimedSteam.VideoCommon.CullingManifest

/-!
# The indexes of a restored scan

`AdvanceScan` and the starts from a manifest, with each access to the candidates and to the tables of
the templates checked: `none` is an access out of bounds.

* `checkedAdvanceScan`: the phases with their accesses, those of `UpdateStatusText` and of
  `WriteManifest` among them.
* `InRange`: the indexes of a scan are in range; the checked calls are then the calls
  (`InRange.call`).
* `RunsInRange`: no call of any run accesses anything out of bounds.
* **`restored_inRange_iff`**: which manifests are restored and resumed to such sessions.
-/

set_option autoImplicit false

namespace CullingCodeFinder

open CullingManifest (lookupTemplate loadManifest)

/-! ## Tables -/

/-- `TEMPLATE_ORDER[i]` -/
def templateOrder? (i : ℕ) : Option PatchTemplateKind :=
  if i < templateCount then some (templateOrder i) else none

/-- The template of a number that is read from a file. A number out of the table stands as the last
template; `Session.kinds` keeps it. -/
def kindOfNumber (kind : CullingManifest.PatchTemplateKind) : PatchTemplateKind :=
  (lookupTemplate kind).getD .oriR0False

def FrameStats.ofFile (stats : CullingManifest.FrameStats) : FrameStats :=
  ⟨stats.drawCalls.toInt, stats.trianglesDrawn.toInt, stats.prims.toInt, stats.drawnObjects.toInt⟩

def ScanConfig.ofFile (config : CullingManifest.ScanConfig) : ScanConfig where
  savestateSlot := config.savestateSlot.toInt
  settleFrames := config.settleFrames.toInt
  minDrawCallIncrease := config.minDrawCallIncrease.toInt
  minTriangleIncrease := config.minTriangleIncrease.toInt
  minObjectIncrease := config.minObjectIncrease.toInt
  timeoutSeconds := config.timeoutSeconds.toInt
  candidateLimit := config.candidateLimit.toInt
  startAddress := config.startAddress.toBitVec
  endAddress := config.endAddress.toBitVec
  turboDuringScan := config.turboDuringScan
  muteAudioDuringScan := config.muteAudioDuringScan
  autoCaptureReferenceState := config.autoCaptureReferenceState
  symbolFilter := config.symbolFilter
  enabledTemplates := fun i => if h : i < 4 then config.enabledTemplates ⟨i, h⟩ else false

def ScanResult.ofFile (r : CullingManifest.ScanResult) : ScanResult where
  symbolName := r.symbolName
  address := r.address.toBitVec
  templateKind := kindOfNumber r.templateKind
  baseline := .ofFile r.baseline
  measured := .ofFile r.measured
  drawCallDelta := r.drawCallDelta.toInt
  triangleDelta := r.triangleDelta.toInt
  primDelta := r.primDelta.toInt
  objectDelta := r.objectDelta.toInt
  causedTimeout := r.causedTimeout

/-- What a start uses of a manifest that was loaded. -/
def ManifestData.ofFile (m : CullingManifest.ManifestData) : ManifestData where
  gameId := m.gameId
  config := .ofFile m.config
  baseline := .ofFile m.baseline
  baselineSet := m.baselineSet
  candidates := m.candidates.map fun c => ⟨c.symbolName, c.address.toBitVec⟩
  results := m.results.map .ofFile
  nextCandidateIndex := m.nextCandidateIndex.toNat
  nextTemplateIndex := m.nextTemplateIndex.toNat
  hasLastTestedPosition := m.hasLastTestedPosition
  lastTestedAddress := m.lastTestedAddress.toBitVec
  lastTestedTemplateIndex := m.lastTestedTemplateIndex.toNat
  state := m.state

/-! ## Checked calls -/

/-- The access of `UpdateStatusText` to the template of the current test. -/
def System.updateStatusText (s : System) : Option Unit :=
  if s.finder.state = .scanning ∧ s.finder.candidateIndex < s.finder.candidates.length then
    (templateOrder? s.finder.templateIndex).map fun _ => ()
  else some ()

/-- The accesses of `SaveManifest` to the templates of the results that were read from a file; those
of the other results are in the table. -/
def saveResults (kinds : List CullingManifest.PatchTemplateKind) : Option Unit :=
  if kinds.all fun kind => (lookupTemplate kind).isSome then some () else none

namespace System

variable (kinds : List CullingManifest.PatchTemplateKind) (s : System) (services : Services)

/-- The phase `RequestLoad`; the candidate is looked up below the end of the list only. -/
def checkedRequestLoad : Option (System × Bool) :=
  (saveResults kinds).bind fun _ =>
    let r := s.requestLoad services
    r.1.updateStatusText.map fun _ => r

/-- A test ends with a timeout, and the next one is begun. -/
def checkedTimeout (candidate : Candidate) : Option (System × Bool) :=
  (templateOrder? s.finder.templateIndex).bind fun _ =>
    (saveResults kinds).bind fun _ =>
      let s := ((s.endTest (s.result candidate ⟨0, 0, 0, 0⟩ true)).writeManifest services).setPhase
        .requestLoad
      s.updateStatusText.bind fun _ => s.checkedRequestLoad kinds services

/-- The phase `ApplyPatch`. -/
def checkedApplyPatch (candidate : Candidate) : Option (System × Bool) :=
  (templateOrder? s.finder.templateIndex).bind fun _ =>
    if services.readable = false then s.checkedTimeout kinds services candidate
    else
      let r := s.applyPatch services candidate
      r.1.updateStatusText.map fun _ => r

/-- The phase `WaitingForLoad`. -/
def checkedWaitingForLoad (candidate : Candidate) : Option (System × Bool) :=
  if s.finder.loadCompleted then
    let s := { s with finder := { s.finder with loadCompleted := false, phase := .applyPatch } }
    s.updateStatusText.bind fun _ => s.checkedApplyPatch kinds services candidate
  else if services.elapsed ≥ s.finder.scanConfig.timeoutSeconds then
    s.checkedTimeout kinds services candidate
  else s.updateStatusText.map fun _ => (s, true)

/-- The phase `Finalize`. -/
def checkedFinalize (candidate : Candidate) : Option (System × Bool) :=
  (templateOrder? s.finder.templateIndex).bind fun _ =>
    let s := (s.endTest (s.measuredResult candidate)).clearSamples
    (saveResults kinds).bind fun _ =>
      if s.finder.candidateIndex ≥ s.finder.candidates.length then
        let s := s.finishLast services
        s.updateStatusText.map fun _ => (s, false)
      else
        let s := (s.setPhase .requestLoad).writeManifest services
        s.updateStatusText.bind fun _ => s.checkedRequestLoad kinds services

/-- The phase `WaitingForSettle`. -/
def checkedWaitingForSettle (candidate : Candidate) : Option (System × Bool) :=
  let s := s.sampled services
  if (s.finder.settleSamples.length : ℤ) ≥ s.finder.scanConfig.settleFrames ∨
      services.elapsed ≥ s.finder.scanConfig.timeoutSeconds then
    let s := s.setPhase .finalize
    s.updateStatusText.bind fun _ => s.checkedFinalize kinds services candidate
  else s.updateStatusText.map fun _ => (s, true)

/-- The phases of `AdvanceScan`. -/
def checkedAdvancePhase : Option (System × Bool) :=
  match s.finder.phase, s.finder.candidates[s.finder.candidateIndex]? with
  | .none, _ => s.checkedRequestLoad kinds services
  | .requestLoad, _ => s.checkedRequestLoad kinds services
  | .waitingForLoad, some candidate => s.checkedWaitingForLoad kinds services candidate
  | .applyPatch, some candidate => s.checkedApplyPatch kinds services candidate
  | .waitingForSettle, some candidate => s.checkedWaitingForSettle kinds services candidate
  | .finalize, some candidate => s.checkedFinalize kinds services candidate
  | _, none => none

/-- `AdvanceScan` of a finder that does not scan. -/
def checkedAdvanceOther : Option (System × Bool) :=
  let r := s.advanceOther services
  (if s.finder.state = .idle then some () else saveResults kinds).bind fun _ =>
    r.1.updateStatusText.map fun _ => r

/-- `AdvanceScan` -/
def checkedAdvanceScan : Option (System × Bool) :=
  if s.finder.state ≠ .scanning then s.checkedAdvanceOther kinds services
  else
    let s := s.applyRuntimeOverrides
    if s.finder.candidates = [] ∨ s.finder.scanConfig.enabledTemplateCount = 0 then
      (saveResults kinds).bind fun _ =>
        let s := s.finish services
        s.updateStatusText.map fun _ => (s, false)
    else s.checkedAdvancePhase kinds services

/-- A call with its accesses; only `AdvanceScan` and `StopScan` have any. -/
def checkedCall : Call → Option System
  | .advance services => (s.checkedAdvanceScan kinds services).map Prod.fst
  | .stop => s.stopScan.updateStatusText.map fun _ => s.stopScan
  | .pause => some s.pauseScan
  | .resume => some s.resumeScan
  | .notify => some s.notifySavestateLoaded
  | .load => some s.loadSavestate

end System

/-- A finder with the numbers of the templates of the results that it read from a file. -/
structure Session where
  system : System
  kinds : List CullingManifest.PatchTemplateKind

/-- The calls of a session, `ClearResults` among them. -/
inductive SessionCall where
  | call (c : Call)
  | clearResults (services : Services)

/-- What a call does; `none` is an access out of bounds. -/
def Session.step (t : Session) : SessionCall → Option Session
  | .call c => (t.system.checkedCall t.kinds c).map fun s => ⟨s, t.kinds⟩
  | .clearResults services =>
    let cleared := { t.system with finder := { t.system.finder with results := [] } }
    some ⟨cleared.writeManifest services, []⟩

/-! ## Checked starts -/

namespace System

variable (s : System) (services : Services) (m : CullingManifest.ManifestData)

/-- The numbers of the templates of the results. -/
def fileKinds : List CullingManifest.PatchTemplateKind := m.results.map (·.templateKind)

/-- `RestoreSession` with a manifest that was loaded. -/
def checkedRestoreSession : Option (Session × Bool) :=
  let refused : Session := ⟨s, []⟩
  if (ManifestData.ofFile m).Restorable s.gameId then
    match (ManifestData.ofFile m).skipped with
    | none => some (refused, false)
    | some p =>
      match (ManifestData.ofFile m).candidates[p.1]?, templateOrder? p.2 with
      | some _, some _ =>
        if (ManifestData.ofFile m).restoredPosition.isNone then some (refused, false)
        else
          (saveResults (fileKinds m)).bind fun _ =>
            let r := s.restoreSession services (some (.ofFile m))
            r.1.updateStatusText.map fun _ => (⟨r.1, fileKinds m⟩, r.2)
      | _, _ => none
  else some (refused, false)

/-- `StartScan` that resumes the scan of a manifest that was loaded. -/
def checkedResume (config : ScanConfig) : Option Session :=
  let s := (s.prepared config).resume (.ofFile m)
  s.updateStatusText.map fun _ => ⟨s, fileKinds m⟩

/-- `RestoreSession` from the text of a file. -/
def restoreFile (content : StringUtil.Text) : Option (Session × Bool) :=
  (loadManifest content).bind fun loaded =>
    match loaded with
    | .error _ => some (⟨s, []⟩, false)
    | .ok m => s.checkedRestoreSession services m

/-- The part of `StartScan` that resumes the scan of the text of a file, where there is one. -/
def resumeFile (config : ScanConfig) (content : StringUtil.Text) : Option (Option Session) :=
  (loadManifest content).bind fun loaded =>
    match loaded with
    | .error _ => some none
    | .ok m =>
      if s.finder.baselineSet = true ∧ (ManifestData.ofFile m).Resumable s.gameId config then
        (s.checkedResume m config).map some
      else some none

end System

/-! ## Indexes in range -/

/-- The template of the current candidate is in the table, as is that of the next one; a test that is
under way has its candidate. -/
structure InRange (s : System) : Prop where
  template : s.finder.candidateIndex < s.finder.candidates.length →
    s.finder.templateIndex < templateCount ∧
      s.finder.scanConfig.findNextEnabledTemplateIndex 0 < templateCount
  testing : s.finder.phase = .none ∨ s.finder.phase = .requestLoad ∨
    s.finder.candidateIndex < s.finder.candidates.length

/-- Every number of a template that was read from a file is one of the table. -/
def KnownKinds (kinds : List CullingManifest.PatchTemplateKind) : Prop :=
  ∀ kind ∈ kinds, (lookupTemplate kind).isSome

theorem saveResults_eq_some_iff {kinds : List CullingManifest.PatchTemplateKind} :
    (saveResults kinds).isSome ↔ KnownKinds kinds := by
  simp [saveResults, KnownKinds]

theorem saveResults_of_known {kinds : List CullingManifest.PatchTemplateKind} (h : KnownKinds kinds) :
    saveResults kinds = some () := if_pos (List.all_eq_true.mpr h)

namespace InRange

variable {s s' : System} {services : Services} {kinds : List CullingManifest.PatchTemplateKind}
  {candidate : Candidate}

theorem of_fields (h : InRange s) (hconfig : s'.finder.scanConfig = s.finder.scanConfig)
    (hcandidates : s'.finder.candidates = s.finder.candidates)
    (hposition : s'.finder.position = s.finder.position)
    (htesting : s'.finder.phase = .none ∨ s'.finder.phase = .requestLoad ∨
      s'.finder.candidateIndex < s'.finder.candidates.length) : InRange s' := by
  have hindex : s'.finder.candidateIndex = s.finder.candidateIndex := congrArg Prod.fst hposition
  have htemplate : s'.finder.templateIndex = s.finder.templateIndex := congrArg Prod.snd hposition
  refine ⟨?_, htesting⟩
  rw [hindex, htemplate, hcandidates, hconfig]
  exact h.template

theorem of_same (h : InRange s) (hsame : SameState s s') : InRange s' := by
  have hindex : s'.finder.candidateIndex = s.finder.candidateIndex :=
    congrArg Prod.fst hsame.position
  refine h.of_fields hsame.scanConfig hsame.candidates hsame.position ?_
  rw [hsame.phase, hindex, hsame.candidates]
  exact h.testing

theorem updateStatusText (h : InRange s) : s.updateStatusText = some () := by
  rw [System.updateStatusText]
  split
  · next hcurrent => rw [templateOrder?, if_pos (h.template hcurrent.2).1, Option.map_some]
  · rfl

theorem templateOrder (h : InRange s) (hlt : s.finder.candidateIndex < s.finder.candidates.length) :
    templateOrder? s.finder.templateIndex = some (CullingCodeFinder.templateOrder s.finder.templateIndex) :=
  if_pos (h.template hlt).1

theorem writeManifest (h : InRange s) (services : Services) : InRange (s.writeManifest services) := by
  refine h.of_fields ?_ ?_ ?_ ?_
  · rw [System.writeManifest_finder]
  · rw [System.writeManifest_finder]
  · rw [System.writeManifest_finder]
  · rw [System.writeManifest_finder]
    exact h.testing

/-- **The next test is in range**, in a phase in which it may be past the end. -/
theorem endTest (h : InRange s) (hlt : s.finder.candidateIndex < s.finder.candidates.length)
    (result : Option ScanResult) {phase : ScanPhase} (hphase : phase = .none ∨ phase = .requestLoad)
    (samples : List FrameStats) :
    InRange { s.endTest result with
      finder := { (s.endTest result).finder with phase := phase, settleSamples := samples } } := by
  refine ⟨fun _ => ?_, hphase.imp_right .inl⟩
  have hfirst := (h.template hlt).2
  change (s.finder.scanConfig.nextPosition s.finder.position).2 < templateCount ∧
    s.finder.scanConfig.findNextEnabledTemplateIndex 0 < templateCount
  refine ⟨?_, hfirst⟩
  rw [ScanConfig.nextPosition]
  split
  · next hnext => exact hnext
  · exact hfirst

theorem finish (h : InRange s) : InRange (s.finish services) := by
  have hrestore := h.of_same (SameState.restore s)
  refine InRange.writeManifest ?_ services
  exact hrestore.of_fields rfl rfl rfl hrestore.testing

theorem requestLoad (h : InRange s) : InRange (s.requestLoad services).1 := by
  unfold System.requestLoad
  cases hcandidate : s.finder.candidates[s.finder.candidateIndex]? with
  | none => exact h.finish
  | some candidate =>
    have hlt : s.finder.candidateIndex < s.finder.candidates.length :=
      (List.getElem?_eq_some_iff.mp hcandidate).1
    have hlast : InRange { s with finder := { s.finder with
        hasLastTestedPosition := true
        lastTestedAddress := candidate.address
        lastTestedTemplateIndex := s.finder.templateIndex } } :=
      h.of_fields rfl rfl rfl h.testing
    refine (hlast.writeManifest services).of_fields rfl rfl rfl (.inr (.inr ?_))
    simpa using hlt

theorem checkedRequestLoad (h : InRange s) (hkinds : KnownKinds kinds) :
    s.checkedRequestLoad kinds services = some (s.requestLoad services) := by
  rw [System.checkedRequestLoad, saveResults_of_known hkinds, Option.bind_some]
  exact congrArg (Option.map fun _ => s.requestLoad services) h.requestLoad.updateStatusText

theorem timeoutNext (h : InRange s) (hlt : s.finder.candidateIndex < s.finder.candidates.length) :
    InRange (((s.endTest (s.result candidate ⟨0, 0, 0, 0⟩ true)).writeManifest services).setPhase
      .requestLoad) := by
  rw [System.writeManifest_setPhase]
  exact (h.endTest hlt _ (.inr rfl) s.finder.settleSamples).writeManifest services

theorem timeout (h : InRange s) (hlt : s.finder.candidateIndex < s.finder.candidates.length) :
    InRange (s.timeout services candidate).1 :=
  (h.timeoutNext hlt).requestLoad

theorem checkedTimeout (h : InRange s) (hkinds : KnownKinds kinds)
    (hlt : s.finder.candidateIndex < s.finder.candidates.length) :
    s.checkedTimeout kinds services candidate = some (s.timeout services candidate) := by
  have hnext := @InRange.timeoutNext s services candidate h hlt
  rw [System.checkedTimeout, h.templateOrder hlt, Option.bind_some, saveResults_of_known hkinds,
    Option.bind_some]
  simp only [hnext.updateStatusText, Option.bind_some, hnext.checkedRequestLoad hkinds]
  rfl

theorem applyPatch (h : InRange s) (hlt : s.finder.candidateIndex < s.finder.candidates.length) :
    InRange (s.applyPatch services candidate).1 := by
  unfold System.applyPatch
  split
  · exact h.timeout hlt
  · exact h.of_fields rfl rfl rfl (.inr (.inr hlt))

theorem checkedApplyPatch (h : InRange s) (hkinds : KnownKinds kinds)
    (hlt : s.finder.candidateIndex < s.finder.candidates.length) :
    s.checkedApplyPatch kinds services candidate = some (s.applyPatch services candidate) := by
  have hpatched := @InRange.applyPatch s services candidate h hlt
  rw [System.checkedApplyPatch, h.templateOrder hlt, Option.bind_some]
  split
  · next hreadable => rw [h.checkedTimeout hkinds hlt, System.applyPatch, if_pos hreadable]
  · exact congrArg (Option.map fun _ => s.applyPatch services candidate) hpatched.updateStatusText

theorem waitingForLoad (h : InRange s) (hlt : s.finder.candidateIndex < s.finder.candidates.length) :
    InRange (s.waitingForLoad services candidate).1 := by
  unfold System.waitingForLoad
  split
  · exact InRange.applyPatch (h.of_fields rfl rfl rfl (.inr (.inr hlt))) hlt
  · split
    · exact h.timeout hlt
    · exact h

theorem checkedWaitingForLoad (h : InRange s) (hkinds : KnownKinds kinds)
    (hlt : s.finder.candidateIndex < s.finder.candidates.length) :
    s.checkedWaitingForLoad kinds services candidate = some (s.waitingForLoad services candidate) := by
  rw [System.checkedWaitingForLoad, System.waitingForLoad]
  split
  · have hloaded : InRange { s with finder := { s.finder with loadCompleted := false, phase := .applyPatch } } :=
      h.of_fields rfl rfl rfl (.inr (.inr hlt))
    simp only [hloaded.updateStatusText, Option.bind_some]
    exact hloaded.checkedApplyPatch hkinds hlt
  · split
    · exact h.checkedTimeout hkinds hlt
    · rw [h.updateStatusText, Option.map_some]

theorem finishLast (h : InRange (s.setPhase .none)) : InRange (s.finishLast services) := by
  have hrestore := (SameState.restore s).toSameScan
  refine InRange.writeManifest ?_ services
  exact h.of_fields hrestore.scanConfig hrestore.candidates hrestore.position (.inl rfl)

theorem finalize (h : InRange s) (hlt : s.finder.candidateIndex < s.finder.candidates.length) :
    InRange (s.finalize services candidate).1 := by
  simp only [System.finalize]
  split
  · exact InRange.finishLast (h.endTest hlt _ (.inl rfl) [])
  · exact ((h.endTest hlt _ (.inr rfl) []).writeManifest services).requestLoad

theorem checkedFinalize (h : InRange s) (hkinds : KnownKinds kinds)
    (hlt : s.finder.candidateIndex < s.finder.candidates.length) :
    s.checkedFinalize kinds services candidate = some (s.finalize services candidate) := by
  simp only [System.checkedFinalize, System.finalize, h.templateOrder hlt, Option.bind_some,
    saveResults_of_known hkinds]
  split
  · have hlast : InRange ((s.endTest (s.measuredResult candidate)).clearSamples.finishLast services) :=
      InRange.finishLast (h.endTest hlt _ (.inl rfl) [])
    rw [hlast.updateStatusText, Option.map_some]
  · have hnext : InRange (((s.endTest (s.measuredResult candidate)).clearSamples.setPhase
        .requestLoad).writeManifest services) :=
      (h.endTest hlt _ (.inr rfl) []).writeManifest services
    rw [hnext.updateStatusText, Option.bind_some]
    exact hnext.checkedRequestLoad hkinds

theorem settled (h : InRange s) (hlt : s.finder.candidateIndex < s.finder.candidates.length) :
    InRange (s.sampled services) ∧
      (s.sampled services).finder.candidateIndex < (s.sampled services).finder.candidates.length := by
  have hsame := SameState.sampled s services
  have hindex : (s.sampled services).finder.candidateIndex = s.finder.candidateIndex :=
    congrArg Prod.fst hsame.position
  refine ⟨h.of_same hsame, ?_⟩
  rw [hindex, hsame.candidates]
  exact hlt

theorem waitingForSettle (h : InRange s)
    (hlt : s.finder.candidateIndex < s.finder.candidates.length) :
    InRange (s.waitingForSettle services candidate).1 := by
  obtain ⟨hsampled, hlt'⟩ := @InRange.settled s services h hlt
  simp only [System.waitingForSettle]
  split
  · exact InRange.finalize (hsampled.of_fields rfl rfl rfl (.inr (.inr hlt'))) hlt'
  · exact hsampled

theorem checkedWaitingForSettle (h : InRange s) (hkinds : KnownKinds kinds)
    (hlt : s.finder.candidateIndex < s.finder.candidates.length) :
    s.checkedWaitingForSettle kinds services candidate =
      some (s.waitingForSettle services candidate) := by
  obtain ⟨hsampled, hlt'⟩ := @InRange.settled s services h hlt
  simp only [System.checkedWaitingForSettle, System.waitingForSettle]
  split
  · have hset : InRange ((s.sampled services).setPhase .finalize) :=
      hsampled.of_fields rfl rfl rfl (.inr (.inr hlt'))
    rw [hset.updateStatusText, Option.bind_some]
    exact hset.checkedFinalize hkinds hlt'
  · rw [hsampled.updateStatusText, Option.map_some]

/-- **A phase that is in range accesses nothing out of bounds**, and its result is in range. -/
theorem advancePhase (h : InRange s) (hkinds : KnownKinds kinds) :
    ∃ r, s.checkedAdvancePhase kinds services = some r ∧ s.advancePhase services = some r ∧
      InRange r.1 := by
  rw [System.checkedAdvancePhase, System.advancePhase]
  have hload : s.checkedRequestLoad kinds services = some (s.requestLoad services) :=
    h.checkedRequestLoad hkinds
  rcases h.testing with hphase | hphase | hlt
  · rw [hphase]
    exact ⟨_, hload, rfl, h.requestLoad⟩
  · rw [hphase]
    exact ⟨_, hload, rfl, h.requestLoad⟩
  · rw [List.getElem?_eq_getElem hlt]
    cases s.finder.phase with
    | none => exact ⟨_, hload, rfl, h.requestLoad⟩
    | requestLoad => exact ⟨_, hload, rfl, h.requestLoad⟩
    | waitingForLoad => exact ⟨_, h.checkedWaitingForLoad hkinds hlt, rfl, h.waitingForLoad hlt⟩
    | applyPatch => exact ⟨_, h.checkedApplyPatch hkinds hlt, rfl, h.applyPatch hlt⟩
    | waitingForSettle => exact ⟨_, h.checkedWaitingForSettle hkinds hlt, rfl, h.waitingForSettle hlt⟩
    | finalize => exact ⟨_, h.checkedFinalize hkinds hlt, rfl, h.finalize hlt⟩

theorem advanceOther (h : InRange s) : InRange (s.advanceOther services).1 := by
  have hunpatch : InRange s.unpatch := by
    unfold System.unpatch
    split
    · exact (h.of_same (SameState.restorePatchedInstructions s)).of_fields rfl rfl rfl (.inr (.inl rfl))
    · exact h
  have hoverrides := hunpatch.of_same (SameState.restoreRuntimeOverrides _)
  simp only [System.advanceOther]
  split
  · exact hoverrides
  · exact hoverrides.writeManifest services

theorem checkedAdvanceOther (h : InRange s) (hkinds : KnownKinds kinds) :
    s.checkedAdvanceOther kinds services = some (s.advanceOther services) := by
  rw [System.checkedAdvanceOther, saveResults_of_known hkinds, ite_self, Option.bind_some,
    h.advanceOther.updateStatusText, Option.map_some]

theorem advanceScan (h : InRange s) (hkinds : KnownKinds kinds) (services : Services) :
    ∃ r, s.checkedAdvanceScan kinds services = some r ∧ s.advanceScan services = some r ∧
      InRange r.1 := by
  rw [System.checkedAdvanceScan, System.advanceScan]
  split
  · exact ⟨_, h.checkedAdvanceOther hkinds, rfl, h.advanceOther⟩
  · have happly := h.of_same (SameState.applyRuntimeOverrides s)
    simp only
    split
    · have hfinish := @InRange.finish _ services happly
      refine ⟨_, ?_, rfl, hfinish⟩
      rw [saveResults_of_known hkinds, Option.bind_some, hfinish.updateStatusText, Option.map_some]
    · exact happly.advancePhase hkinds

/-- **A call that is in range accesses nothing out of bounds**: it does what the call does, and is in
range after it. -/
theorem call (h : InRange s) (hkinds : KnownKinds kinds) (c : Call) :
    ∃ s', s.checkedCall kinds c = some s' ∧ s.call c = some s' ∧ InRange s' := by
  cases c with
  | advance services =>
    obtain ⟨r, hchecked, hcall, hr⟩ := h.advanceScan hkinds services
    exact ⟨r.1, by rw [System.checkedCall, hchecked, Option.map_some],
      by rw [System.call, hcall, Option.map_some], hr⟩
  | pause =>
    refine ⟨_, rfl, rfl, ?_⟩
    unfold System.pauseScan
    split
    · exact h.of_fields rfl rfl rfl h.testing
    · exact h
  | resume =>
    refine ⟨_, rfl, rfl, ?_⟩
    unfold System.resumeScan
    split
    · exact h.of_fields rfl rfl rfl h.testing
    · exact h
  | stop =>
    have hstop : InRange s.stopScan := h.of_fields rfl rfl rfl (.inl rfl)
    exact ⟨_, by rw [System.checkedCall, hstop.updateStatusText, Option.map_some], rfl, hstop⟩
  | notify => exact ⟨_, rfl, rfl, h.of_same ⟨⟨rfl, rfl, rfl, rfl, rfl, rfl⟩, rfl, rfl⟩⟩
  | load => exact ⟨_, rfl, rfl, h.of_same ⟨⟨rfl, rfl, rfl, rfl, rfl, rfl⟩, rfl, rfl⟩⟩

end InRange

/-! ## Runs -/

open Transition

/-- No call of any run accesses anything out of bounds. -/
def RunsInRange (t : Session) : Prop :=
  ∀ t', Reach Session.step anyStep t t' → ∀ c, (t'.step c).isSome

theorem Session.step_inRange {t : Session} (h : InRange t.system) (hkinds : KnownKinds t.kinds)
    (c : SessionCall) : ∃ t', t.step c = some t' ∧ InRange t'.system ∧ KnownKinds t'.kinds := by
  cases c with
  | call c =>
    obtain ⟨s', hchecked, -, hs'⟩ := h.call hkinds c
    exact ⟨⟨s', t.kinds⟩, by rw [Session.step, hchecked, Option.map_some], hs', hkinds⟩
  | clearResults services =>
    have hcleared : InRange { t.system with finder := { t.system.finder with results := [] } } :=
      h.of_fields rfl rfl rfl h.testing
    exact ⟨_, rfl, hcleared.writeManifest services, List.forall_mem_nil _⟩

theorem runsInRange {t : Session} (h : InRange t.system) (hkinds : KnownKinds t.kinds) :
    RunsInRange t := by
  intro t' hrun c
  have ht' : InRange t'.system ∧ KnownKinds t'.kinds := by
    refine hrun.invariant (P := fun u => InRange u.system ∧ KnownKinds u.kinds) ⟨h, hkinds⟩
      fun u c u' hu _ hstep => ?_
    obtain ⟨u'', hstep', hu''⟩ := u.step_inRange hu.1 hu.2 c
    rw [hstep', Option.some_inj] at hstep
    exact hstep ▸ hu''
  obtain ⟨u, hstep, -⟩ := t'.step_inRange ht'.1 ht'.2 c
  rw [hstep]
  rfl

/-- The first call of a session that begins a test or is over writes its results. -/
theorem known_of_runsInRange {t : Session} (h : RunsInRange t) (services : Services)
    (hidle : t.system.finder.state ≠ .idle)
    (hphase : t.system.finder.state = .scanning → t.system.finder.phase = .requestLoad) :
    KnownKinds t.kinds := by
  have hcall := h t .refl (.call (.advance services))
  rw [Session.step, System.checkedCall, Option.isSome_map, Option.isSome_map,
    System.checkedAdvanceScan] at hcall
  rw [← saveResults_eq_some_iff]
  split at hcall
  · rw [System.checkedAdvanceOther, if_neg hidle] at hcall
    exact Option.isSome_of_isSome_bind hcall
  · next hscanning =>
    have hsame := SameState.applyRuntimeOverrides t.system
    simp only at hcall
    split at hcall
    · exact Option.isSome_of_isSome_bind hcall
    · rw [System.checkedAdvancePhase, hsame.phase, hphase (not_not.mp hscanning)] at hcall
      exact Option.isSome_of_isSome_bind hcall

/-! ## Starts -/

section Starts

variable {m : ManifestData} {config : ScanConfig} {s : System} {services : Services}

theorem findNext_zero_lt {t : ℕ} (h : config.findNextEnabledTemplateIndex t < templateCount) :
    config.findNextEnabledTemplateIndex 0 < templateCount :=
  (@ScanConfig.valid_first config 1 (ScanConfig.enabledTemplateCount_ne h) 0 Nat.one_pos).1

theorem skipped_inRange {p : Position} (h : m.skipped = some p) :
    p.1 < m.candidates.length ∧ p.2 < templateCount := by
  simp only [ManifestData.skipped] at h
  by_cases hnext : m.nextCandidateIndex ≥ m.candidates.length ∨
      m.config.findNextEnabledTemplateIndex m.nextTemplateIndex ≥ templateCount
  · rw [if_pos hnext, Option.ite_none_left_eq_some, Option.some_inj] at h
    obtain ⟨hlast, rfl⟩ := h
    simp only [not_or, not_le, ge_iff_le] at hlast
    exact ⟨hlast.1, hlast.2.1⟩
  · rw [if_neg hnext, Option.some_inj] at h
    subst h
    simpa only [not_or, not_le, ge_iff_le] using hnext

/-- A position that is found after a crash is in range. -/
theorem advancePositionAfterCrash_inRange {n : ℕ} {p : Position}
    (h : (config.advancePositionAfterCrash n p).1 = true) :
    (config.advancePositionAfterCrash n p).2.1 < n ∧
      (config.advancePositionAfterCrash n p).2.2 < templateCount ∧
      config.findNextEnabledTemplateIndex 0 < templateCount := by
  rw [ScanConfig.advancePositionAfterCrash] at h ⊢
  by_cases hnext : config.findNextEnabledTemplateIndex (p.2 + 1) < templateCount
  · simp only [if_pos hnext] at h ⊢
    exact ⟨of_decide_eq_true h, hnext, findNext_zero_lt hnext⟩
  · by_cases hend : p.1 + 1 ≥ n
    · simp only [if_neg hnext, if_pos hend] at h
      cases h
    · simp only [if_neg hnext, if_neg hend] at h ⊢
      have hfirst := of_decide_eq_true h
      exact ⟨not_le.mp hend, hfirst, hfirst⟩

theorem restoredPosition_inRange {p : Position} (h : m.restoredPosition = some p) :
    p.1 < m.candidates.length ∧ p.2 < templateCount ∧
      m.config.findNextEnabledTemplateIndex 0 < templateCount := by
  obtain ⟨p₀, -, hp⟩ := Option.bind_eq_some_iff.mp h
  obtain ⟨hfound, hp⟩ := Option.ite_none_right_eq_some.mp hp
  cases hp
  exact advancePositionAfterCrash_inRange hfound

theorem InRange.writeFirstManifest (h : InRange s) : InRange (s.writeFirstManifest services).1 := by
  unfold System.writeFirstManifest
  split
  · exact h.writeManifest services
  · have hrestore := h.of_same (SameState.restore s)
    exact hrestore.of_fields rfl rfl rfl hrestore.testing

theorem restoreSession_inRange (hm : m.Restorable s.gameId) (hp : m.restoredPosition.isSome) :
    InRange (s.restoreSession services (some m)).1 := by
  obtain ⟨p, hp⟩ := Option.isSome_iff_exists.mp hp
  obtain ⟨-, htemplate, hfirst⟩ := restoredPosition_inRange hp
  have hrestored : InRange (s.restoredTo m p) := ⟨fun _ => ⟨htemplate, hfirst⟩, .inr (.inl rfl)⟩
  have hfilter : (some m).filter (fun m => m.Restorable s.gameId) = some m := by
    simp [Option.filter, hm]
  simp only [System.restoreSession, hfilter, hp]
  exact (hrestored.of_same (SameState.applyRuntimeOverrides _)).writeFirstManifest

/-- A candidate comes next, and an enabled template from the saved one on. -/
def HasNextTemplate (m : ManifestData) : Prop :=
  m.nextCandidateIndex < m.candidates.length →
    m.config.findNextEnabledTemplateIndex m.nextTemplateIndex < templateCount

theorem resume_state : (s.resume m).finder.state ≠ .idle ∧
    ((s.resume m).finder.state = .scanning → (s.resume m).finder.phase = .requestLoad) := by
  simp only [System.resume]
  split
  · exact ⟨by simp, by simp⟩
  · constructor
    · rw [(SameState.applyRuntimeOverrides _).state]
      simp
    · intro _
      rw [(SameState.applyRuntimeOverrides _).phase]

theorem resume_inRange (h : HasNextTemplate m) : InRange (s.resume m) := by
  simp only [System.resume]
  split
  · exact ⟨fun hlt => absurd hlt (lt_irrefl _), .inl rfl⟩
  · next hlt =>
    have hnext := h (not_le.mp hlt)
    refine InRange.of_same ?_ (SameState.applyRuntimeOverrides _)
    exact ⟨fun _ => ⟨hnext, findNext_zero_lt hnext⟩, .inr (.inl rfl)⟩

/-- What is resumed shows the template that comes next. -/
theorem hasNextTemplate_of_updateStatusText (h : (s.resume m).updateStatusText.isSome) :
    HasNextTemplate m := by
  intro hlt
  have hscan : (s.resume m).finder.state = .scanning ∧
      (s.resume m).finder.candidateIndex = m.nextCandidateIndex ∧
      (s.resume m).finder.templateIndex = m.config.findNextEnabledTemplateIndex m.nextTemplateIndex ∧
      (s.resume m).finder.candidates = m.candidates := by
    simp only [System.resume, if_neg (not_le.mpr hlt)]
    have hsame := fun t : System => SameState.applyRuntimeOverrides t
    exact ⟨(hsame _).state, congrArg Prod.fst (hsame _).position, congrArg Prod.snd (hsame _).position,
      (hsame _).candidates⟩
  obtain ⟨hstate, hcandidate, htemplate, hcandidates⟩ := hscan
  rw [System.updateStatusText, hstate, hcandidate, htemplate, hcandidates, if_pos ⟨rfl, hlt⟩,
    Option.isSome_map, templateOrder?] at h
  split at h
  · assumption
  · cases h

end Starts

/-- **The sessions that stay in range.** A session that is restored from a file is in range, in every
run of calls, exactly if the templates of its results are known; one that is resumed is if, besides,
an enabled template comes next. -/
theorem restored_inRange_iff {content : StringUtil.Text} {m : CullingManifest.ManifestData}
    (hload : loadManifest content = some (.ok m)) (s : System) (services : Services)
    (config : ScanConfig) :
    ((ManifestData.ofFile m).Restorable s.gameId → (ManifestData.ofFile m).restoredPosition.isSome →
      ((∃ r, s.restoreFile services content = some r ∧ RunsInRange r.1) ↔
        KnownKinds (System.fileKinds m))) ∧
    (s.finder.baselineSet = true → (ManifestData.ofFile m).Resumable s.gameId config →
      ((∃ t, s.resumeFile config content = some (some t) ∧ RunsInRange t) ↔
        KnownKinds (System.fileKinds m) ∧ HasNextTemplate (.ofFile m))) := by
  constructor
  · intro hrestorable hposition
    have hin := @restoreSession_inRange _ s services hrestorable hposition
    obtain ⟨p, hskipped⟩ : ∃ p, (ManifestData.ofFile m).skipped = some p := by
      obtain ⟨q, hq⟩ := Option.isSome_iff_exists.mp hposition
      obtain ⟨p, hp, -⟩ := Option.bind_eq_some_iff.mp hq
      exact ⟨p, hp⟩
    obtain ⟨hcandidate, htemplate⟩ := skipped_inRange hskipped
    have hrestore : s.restoreFile services content =
        (saveResults (System.fileKinds m)).bind fun _ =>
          some (⟨(s.restoreSession services (some (.ofFile m))).1, System.fileKinds m⟩,
            (s.restoreSession services (some (.ofFile m))).2) := by
      rw [System.restoreFile, hload, Option.bind_some]
      simp only [System.checkedRestoreSession, if_pos hrestorable, hskipped,
        List.getElem?_eq_getElem hcandidate, templateOrder?, if_pos htemplate,
        Option.isNone_eq_false_iff.mpr hposition, Bool.false_eq_true, if_false, hin.updateStatusText,
        Option.map_some]
    rw [hrestore]
    constructor
    · rintro ⟨r, hr, -⟩
      rw [← saveResults_eq_some_iff]
      exact Option.isSome_of_isSome_bind (Option.isSome_iff_exists.mpr ⟨r, hr⟩)
    · intro hkinds
      rw [saveResults_of_known hkinds]
      exact ⟨_, rfl, runsInRange hin hkinds⟩
  · intro hbaseline hresumable
    have hresume : s.resumeFile config content = (s.checkedResume m config).map some := by
      rw [System.resumeFile, hload, Option.bind_some]
      exact if_pos ⟨hbaseline, hresumable⟩
    rw [hresume, System.checkedResume]
    constructor
    · rintro ⟨t, ht, hruns⟩
      simp only [Option.map_map, Option.map_eq_some_iff] at ht
      obtain ⟨u, hu, ht⟩ := ht
      cases ht
      exact ⟨known_of_runsInRange hruns services resume_state.1 resume_state.2,
        hasNextTemplate_of_updateStatusText (Option.isSome_iff_exists.mpr ⟨u, hu⟩)⟩
    · rintro ⟨hkinds, hnext⟩
      have hin := @resume_inRange _ (s.prepared config) hnext
      exact ⟨_, by rw [hin.updateStatusText]; rfl, runsInRange hin hkinds⟩

/-- A manifest with one candidate and one result. -/
def restoredManifest (nextTemplateIndex : UInt64) (templateKind : Int32) : CullingManifest.ManifestData :=
  { CullingManifest.ManifestData.initial with
    gameId := ['G']
    baselineSet := true
    candidates := [⟨['a'], 0x80003100⟩]
    results := [{ CullingManifest.ScanResult.initial with
      templateKind := templateKind
      arCodeText := ['a', '\n', 'b'] }]
    nextTemplateIndex := nextTemplateIndex
    state := .paused }

/-- Its file, with the numbers as they are written. -/
def restoredFile (nextTemplateIndex templateKind : Char) : StringUtil.Text :=
  TextLines.unlines '\n'
    ["[Session]".toList, "GameId = G".toList, "State = Paused".toList, "BaselineSet = 1".toList,
      "CandidateCount = 1".toList, "ResultCount = 1".toList,
      "NextTemplateIndex = ".toList ++ [nextTemplateIndex],
      "[Baseline]".toList,
      "[Candidate_0]".toList, "Name = a".toList, "Address = 0x80003100".toList,
      "[Result_0]".toList, "ARLine1 = a".toList, "ARLine2 = b".toList,
      "Template = ".toList ++ [templateKind]]

/-- The first template comes next, and the result has the last one. -/
theorem restored_inRange_sample :
    (∃ r, sampleSystem.restoreFile sampleServices (restoredFile '0' '3') = some r ∧ RunsInRange r.1) ∧
      ∃ t, sampleSystem.resumeFile (.ofFile .initial) (restoredFile '0' '3') = some (some t) ∧
        RunsInRange t := by
  have hload : loadManifest (restoredFile '0' '3') = some (.ok (restoredManifest 0 3)) := by
    decide +kernel
  have hkinds : KnownKinds (System.fileKinds (restoredManifest 0 3)) :=
    List.forall_mem_singleton.mpr (by decide)
  obtain ⟨hrestore, hresume⟩ :=
    restored_inRange_iff hload sampleSystem sampleServices (.ofFile .initial)
  exact ⟨(hrestore (by decide) (by decide)).mpr hkinds,
    (hresume rfl (by decide)).mpr ⟨hkinds, fun _ => by decide⟩⟩

/-- The template one past the end is accepted, and looked up at once. -/
theorem resumed_out_of_bounds :
    loadManifest (restoredFile '4' '0') = some (.ok (restoredManifest 4 0)) ∧
      (ManifestData.ofFile (restoredManifest 4 0)).Resumable sampleSystem.gameId (.ofFile .initial) ∧
      (sampleSystem.resumeFile (.ofFile .initial) (restoredFile '4' '0')).isNone = true := by
  have hload : loadManifest (restoredFile '4' '0') = some (.ok (restoredManifest 4 0)) := by
    decide +kernel
  have hresumable : (ManifestData.ofFile (restoredManifest 4 0)).Resumable sampleSystem.gameId
      (.ofFile .initial) := by decide
  refine ⟨hload, hresumable, ?_⟩
  rw [System.resumeFile, hload, Option.bind_some]
  rfl

end CullingCodeFinder
