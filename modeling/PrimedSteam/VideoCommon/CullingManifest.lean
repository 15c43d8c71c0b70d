import PrimedSteam.Common.StringNumbers
import PrimedSteam.Common.IniFile
import PrimedSteam.VideoCommon.CullingCodeFinder

/-!
# The manifest of a scan

`SaveManifest` and `LoadManifest` of `CullingCodeFinder`, with all that a manifest holds.

* `saveManifest`, `loadManifest`: `none` is an access out of the bounds of the templates.
* `Savable`: the strings of a manifest are values that a configuration file gives back.
* `loadManifest_saveManifest`: what is loaded is what was saved, with the AR codes built again.
-/

set_option autoImplicit false

namespace CullingManifest

open StringUtil IniFile
open CullingCodeFinder (ScanState blrInstruction)

/-! ## Manifests -/

structure FrameStats where
  drawCalls : Int32
  trianglesDrawn : Int32
  prims : Int32
  drawnObjects : Int32
deriving DecidableEq

def FrameStats.zero : FrameStats := ⟨0, 0, 0, 0⟩

/-- The enumeration in a file may be any number. -/
abbrev PatchTemplateKind := Int32

structure ScanConfig where
  savestateSlot : Int32
  settleFrames : Int32
  minDrawCallIncrease : Int32
  minTriangleIncrease : Int32
  minObjectIncrease : Int32
  timeoutSeconds : Int32
  candidateLimit : Int32
  startAddress : UInt32
  endAddress : UInt32
  turboDuringScan : Bool
  muteAudioDuringScan : Bool
  autoCaptureReferenceState : Bool
  symbolFilter : Text
  outputFolder : Text
  enabledTemplates : Fin 4 → Bool
deriving DecidableEq

/-- The defaults of a `ScanConfig`. -/
def ScanConfig.initial : ScanConfig where
  savestateSlot := 1
  settleFrames := 5
  minDrawCallIncrease := 1
  minTriangleIncrease := 0
  minObjectIncrease := 0
  timeoutSeconds := 3
  candidateLimit := 0
  startAddress := 0
  endAddress := 0
  turboDuringScan := true
  muteAudioDuringScan := true
  autoCaptureReferenceState := true
  symbolFilter := []
  outputFolder := []
  enabledTemplates := fun _ => true

structure Candidate where
  symbolName : Text
  address : UInt32
deriving DecidableEq

structure ScanResult where
  symbolName : Text
  address : UInt32
  templateKind : PatchTemplateKind
  baseline : FrameStats
  measured : FrameStats
  drawCallDelta : Int32
  triangleDelta : Int32
  primDelta : Int32
  objectDelta : Int32
  causedTimeout : Bool
  screenshotPath : Text
  arCodeText : Text
deriving DecidableEq

/-- The defaults of a `ScanResult`. -/
def ScanResult.initial : ScanResult where
  symbolName := []
  address := 0
  templateKind := 0
  baseline := .zero
  measured := .zero
  drawCallDelta := 0
  triangleDelta := 0
  primDelta := 0
  objectDelta := 0
  causedTimeout := false
  screenshotPath := []
  arCodeText := []

structure ManifestData where
  gameId : Text
  mapPath : Text
  config : ScanConfig
  baseline : FrameStats
  baselineSet : Bool
  candidates : List Candidate
  results : List ScanResult
  nextCandidateIndex : UInt64
  nextTemplateIndex : UInt64
  hasLastTestedPosition : Bool
  lastTestedAddress : UInt32
  lastTestedTemplateIndex : UInt64
  state : ScanState
deriving DecidableEq

/-- The defaults of a `ManifestData`. -/
def ManifestData.initial : ManifestData where
  gameId := []
  mapPath := []
  config := .initial
  baseline := .zero
  baselineSet := false
  candidates := []
  results := []
  nextCandidateIndex := 0
  nextTemplateIndex := 0
  hasLastTestedPosition := false
  lastTestedAddress := 0
  lastTestedTemplateIndex := 0
  state := .idle

/-! ## Templates -/

/-- `LookupTemplate` in the four templates of `GetPatchTemplates`. -/
def lookupTemplate (kind : PatchTemplateKind) : Option CullingCodeFinder.PatchTemplateKind :=
  if 0 ≤ kind.toInt then [.liR3True, .liR3False, .oriR0True, .oriR0False][kind.toInt.toNat]? else none

/-- `{:08X} {:08X}` -/
def arLine (address value : ℕ) : Text :=
  (formatNumber 16 8 address).map Char.toUpper ++ ' ' :: (formatNumber 16 8 value).map Char.toUpper

/-- `BuildARCodeLines` -/
def buildARCodeLines (address : UInt32) (kind : PatchTemplateKind) : Option (Text × Text) :=
  (lookupTemplate kind).map fun template =>
    let arAddress : UInt32 := 0x04000000 ||| (address &&& 0x01FFFFFF)
    (arLine arAddress.toNat template.firstInstruction.toNat,
      arLine (arAddress + 4).toNat blrInstruction.toNat)

def joinLines (lines : Text × Text) : Text := lines.1 ++ '\n' :: lines.2

/-- `BuildARCodeText` -/
def buildARCodeText (address : UInt32) (kind : PatchTemplateKind) : Option Text :=
  (buildARCodeLines address kind).map joinLines

/-- `MakeTemplateMask` -/
def makeTemplateMask (enabledTemplates : Fin 4 → Bool) : Text :=
  (List.finRange 4).map fun i => if enabledTemplates i then '1' else '0'

/-- `ParseTemplateMask` -/
def parseTemplateMask (mask : Text) : Fin 4 → Bool :=
  if h : mask.length = 4 then fun i => mask.get (i.cast h.symm) ≠ '0' else fun _ => true

/-- `StateToString` -/
def stateToString : ScanState → Text
  | .idle => "Idle".toList
  | .scanning => "Scanning".toList
  | .paused => "Paused".toList
  | .stopped => "Stopped".toList
  | .finished => "Finished".toList
  | .error => "Error".toList

/-- `StringToState` -/
def stringToState (state : Text) : ScanState :=
  if state = "Scanning".toList then .scanning
  else if state = "Paused".toList then .paused
  else if state = "Stopped".toList then .stopped
  else if state = "Finished".toList then .finished
  else if state = "Error".toList then .error
  else .idle

/-! ## Saving -/

/-- `MakeSectionName` -/
def makeSectionName (start : String) (index : ℕ) : Text := start.toList ++ formatNumber 10 1 index

def sessionEntries (m : ManifestData) : List (Text × Text) :=
  [("GameId".toList, m.gameId),
    ("MapPath".toList, m.mapPath),
    ("State".toList, stateToString m.state),
    ("SavestateSlot".toList, intToString m.config.savestateSlot),
    ("SettleFrames".toList, intToString m.config.settleFrames),
    ("MinDrawCallIncrease".toList, intToString m.config.minDrawCallIncrease),
    ("MinTriangleIncrease".toList, intToString m.config.minTriangleIncrease),
    ("MinObjectIncrease".toList, intToString m.config.minObjectIncrease),
    ("TimeoutSeconds".toList, intToString m.config.timeoutSeconds),
    ("CandidateLimit".toList, intToString m.config.candidateLimit),
    ("StartAddress".toList, u32ToString m.config.startAddress),
    ("EndAddress".toList, u32ToString m.config.endAddress),
    ("TurboDuringScan".toList, boolToString m.config.turboDuringScan),
    ("MuteAudioDuringScan".toList, boolToString m.config.muteAudioDuringScan),
    ("AutoCaptureReferenceState".toList, boolToString m.config.autoCaptureReferenceState),
    ("SymbolFilter".toList, m.config.symbolFilter),
    ("OutputFolder".toList, m.config.outputFolder),
    ("TemplateMask".toList, makeTemplateMask m.config.enabledTemplates),
    ("BaselineSet".toList, boolToString m.baselineSet),
    ("NextCandidateIndex".toList, u64ToString m.nextCandidateIndex),
    ("NextTemplateIndex".toList, u64ToString m.nextTemplateIndex),
    ("HasLastTestedPosition".toList, boolToString m.hasLastTestedPosition),
    ("LastTestedAddress".toList, u32ToString m.lastTestedAddress),
    ("LastTestedTemplateIndex".toList, u64ToString m.lastTestedTemplateIndex),
    ("CandidateCount".toList, u64ToString (UInt64.ofNat m.candidates.length)),
    ("ResultCount".toList, u64ToString (UInt64.ofNat m.results.length))]

def baselineEntries (baseline : FrameStats) : List (Text × Text) :=
  [("DrawCalls".toList, intToString baseline.drawCalls),
    ("Triangles".toList, intToString baseline.trianglesDrawn),
    ("Prims".toList, intToString baseline.prims),
    ("Objects".toList, intToString baseline.drawnObjects)]

def candidateEntries (c : Candidate) : List (Text × Text) :=
  [("Name".toList, c.symbolName), ("Address".toList, u32ToString c.address)]

def resultEntries (r : ScanResult) (lines : Text × Text) : List (Text × Text) :=
  [("Name".toList, r.symbolName),
    ("Address".toList, u32ToString r.address),
    ("Template".toList, intToString r.templateKind),
    ("BaselineDrawCalls".toList, intToString r.baseline.drawCalls),
    ("BaselineTriangles".toList, intToString r.baseline.trianglesDrawn),
    ("BaselinePrims".toList, intToString r.baseline.prims),
    ("BaselineObjects".toList, intToString r.baseline.drawnObjects),
    ("MeasuredDrawCalls".toList, intToString r.measured.drawCalls),
    ("MeasuredTriangles".toList, intToString r.measured.trianglesDrawn),
    ("MeasuredPrims".toList, intToString r.measured.prims),
    ("MeasuredObjects".toList, intToString r.measured.drawnObjects),
    ("DrawCallDelta".toList, intToString r.drawCallDelta),
    ("TriangleDelta".toList, intToString r.triangleDelta),
    ("PrimDelta".toList, intToString r.primDelta),
    ("ObjectDelta".toList, intToString r.objectDelta),
    ("Timeout".toList, boolToString r.causedTimeout),
    ("ScreenshotPath".toList, r.screenshotPath),
    ("ARLine1".toList, lines.1),
    ("ARLine2".toList, lines.2)]

/-- The section of a name is made, and its entries are set one after the other. -/
def addSection (sections : List Section) (added : Text × List (Text × Text)) : List Section :=
  let created := getOrCreateSection sections added.1
  created.1.modify created.2 fun s => added.2.foldl (fun s e => s.set e.1 e.2) s

def manifestSections (m : ManifestData) (results : List (List (Text × Text))) :
    List (Text × List (Text × Text)) :=
  ("Session".toList, sessionEntries m) :: ("Baseline".toList, baselineEntries m.baseline) ::
    ((m.candidates.mapIdx fun i c => (makeSectionName "Candidate_" i, candidateEntries c)) ++
      results.mapIdx fun i entries => (makeSectionName "Result_" i, entries))

/-- The text that `SaveManifest` writes. -/
def saveManifest (m : ManifestData) : Option Text :=
  (m.results.mapM fun r =>
    (buildARCodeLines r.address r.templateKind).map (resultEntries r)).map fun results =>
      save ((manifestSections m results).foldl addSection [])

/-! ## Loading -/

/-- `GetSection` -/
def getSection (sections : List Section) (section_name : Text) : Option Section :=
  sections.find? fun s => caseInsensitiveEquals s.name section_name

/-- `Get` of a string, empty by default. -/
def getString (s : Section) (key : String) : Text := (s.get key.toList).getD []

/-- `Get` of a value that is read by `TryParse`. -/
def getValue {α : Type} (tryParse : Text → Option α) (s : Section) (key : String) (default_value : α) : α :=
  ((s.get key.toList).bind tryParse).getD default_value

def loadConfig (session : Section) : ScanConfig where
  savestateSlot := getValue tryParseInt session "SavestateSlot" 1
  settleFrames := getValue tryParseInt session "SettleFrames" 5
  minDrawCallIncrease := getValue tryParseInt session "MinDrawCallIncrease" 1
  minTriangleIncrease := getValue tryParseInt session "MinTriangleIncrease" 0
  minObjectIncrease := getValue tryParseInt session "MinObjectIncrease" 0
  timeoutSeconds := getValue tryParseInt session "TimeoutSeconds" 3
  candidateLimit := getValue tryParseInt session "CandidateLimit" 0
  startAddress := getValue tryParseU32 session "StartAddress" 0
  endAddress := getValue tryParseU32 session "EndAddress" 0
  turboDuringScan := getValue tryParseBool session "TurboDuringScan" true
  muteAudioDuringScan := getValue tryParseBool session "MuteAudioDuringScan" true
  autoCaptureReferenceState := getValue tryParseBool session "AutoCaptureReferenceState" true
  symbolFilter := getString session "SymbolFilter"
  outputFolder := getString session "OutputFolder"
  enabledTemplates := parseTemplateMask (getString session "TemplateMask")

def loadBaseline (baseline : Section) : FrameStats where
  drawCalls := getValue tryParseInt baseline "DrawCalls" 0
  trianglesDrawn := getValue tryParseInt baseline "Triangles" 0
  prims := getValue tryParseInt baseline "Prims" 0
  drawnObjects := getValue tryParseInt baseline "Objects" 0

/-- A candidate without a name or an address is left out. -/
def loadCandidate (s : Section) : Option Candidate :=
  let candidate : Candidate := ⟨getString s "Name", getValue tryParseU32 s "Address" 0⟩
  if candidate.symbolName ≠ [] ∧ candidate.address ≠ 0 then some candidate else none

def loadResult (s : Section) : Option ScanResult :=
  let address := getValue tryParseU32 s "Address" 0
  let templateKind := getValue tryParseInt s "Template" 0
  let arLine1 := getString s "ARLine1"
  let arLine2 := getString s "ARLine2"
  (if arLine1 = [] ∨ arLine2 = [] then buildARCodeText address templateKind
    else some (joinLines (arLine1, arLine2))).map fun arCodeText =>
      { symbolName := getString s "Name"
        address := address
        templateKind := templateKind
        baseline :=
          { drawCalls := getValue tryParseInt s "BaselineDrawCalls" 0
            trianglesDrawn := getValue tryParseInt s "BaselineTriangles" 0
            prims := getValue tryParseInt s "BaselinePrims" 0
            drawnObjects := getValue tryParseInt s "BaselineObjects" 0 }
        measured :=
          { drawCalls := getValue tryParseInt s "MeasuredDrawCalls" 0
            trianglesDrawn := getValue tryParseInt s "MeasuredTriangles" 0
            prims := getValue tryParseInt s "MeasuredPrims" 0
            drawnObjects := getValue tryParseInt s "MeasuredObjects" 0 }
        drawCallDelta := getValue tryParseInt s "DrawCallDelta" 0
        triangleDelta := getValue tryParseInt s "TriangleDelta" 0
        primDelta := getValue tryParseInt s "PrimDelta" 0
        objectDelta := getValue tryParseInt s "ObjectDelta" 0
        causedTimeout := getValue tryParseBool s "Timeout" false
        screenshotPath := getString s "ScreenshotPath"
        arCodeText := arCodeText }

/-- The sections of a list that is flattened into numbered names; a number without one is skipped. -/
def numberedSections (ini : List Section) (start : String) (count : UInt64) : List Section :=
  (List.range count.toNat).filterMap fun i => getSection ini (makeSectionName start i)

/-- `LoadManifest` from the text of a file. -/
def loadManifest (content : Text) : Option (Except Text ManifestData) :=
  let ini := load content
  match getSection ini "Session".toList, getSection ini "Baseline".toList with
  | some session, some baseline =>
    let candidateCount := getValue tryParseU64 session "CandidateCount" 0
    let resultCount := getValue tryParseU64 session "ResultCount" 0
    ((numberedSections ini "Result_" resultCount).mapM loadResult).map fun results => .ok
      { gameId := getString session "GameId"
        mapPath := getString session "MapPath"
        state := stringToState ((session.get "State".toList).getD "Idle".toList)
        config := loadConfig session
        baselineSet := getValue tryParseBool session "BaselineSet" false
        nextCandidateIndex := getValue tryParseU64 session "NextCandidateIndex" 0
        nextTemplateIndex := getValue tryParseU64 session "NextTemplateIndex" 0
        hasLastTestedPosition := getValue tryParseBool session "HasLastTestedPosition" false
        lastTestedAddress := getValue tryParseU32 session "LastTestedAddress" 0
        lastTestedTemplateIndex := getValue tryParseU64 session "LastTestedTemplateIndex" 0
        baseline := loadBaseline baseline
        candidates := (numberedSections ini "Candidate_" candidateCount).filterMap loadCandidate
        results := results }
  | _, _ => some (.error "Manifest is missing required sections.".toList)

/-! ## Values that survive -/

/-- A value that a file gives back: no line ends in it, and it is left as it is when blanks and then
quotes around it are removed. -/
def Survives (v : Text) : Prop := '\n' ∉ v ∧ stripQuotes (stripWhitespace v) = v

instance (v : Text) : Decidable (Survives v) := inferInstanceAs (Decidable (_ ∧ _))

/-- A value without blanks or quotes at its ends survives. -/
theorem survives_of_ends {v : Text} (hline : '\n' ∉ v)
    (hhead : ∀ c, v.head? = some c → isWhitespace c = false)
    (hlast : ∀ c, v.getLast? = some c → isWhitespace c = false) (hquote : v.head? ≠ some '"') :
    Survives v := by
  refine ⟨hline, ?_⟩
  rw [stripWhitespace_eq_self hhead hlast, stripQuotes, if_neg]
  exact fun h => hquote h.1

/-- Neither a blank nor a quote. -/
def Plain (c : Char) : Prop := isWhitespace c = false ∧ c ≠ '"' ∧ c ≠ '\n'

instance (c : Char) : Decidable (Plain c) := inferInstanceAs (Decidable (_ ∧ _))

theorem survives_of_plain {v : Text} (h : ∀ c ∈ v, Plain c) : Survives v :=
  survives_of_ends (fun hc => (h _ hc).2.2 rfl) (fun c hc => (h c (List.mem_of_mem_head? hc)).1)
    (fun c hc => (h c (List.mem_of_mem_getLast? hc)).1)
    (fun hc => (h _ (List.mem_of_mem_head? hc)).2.1 rfl)

theorem plain_digitChar {d : ℕ} (hd : d < 16) :
    Plain (Nat.digitChar d) ∧ Plain (Nat.digitChar d).toUpper ∧ toLower (Nat.digitChar d).toLower =
      (Nat.digitChar d) ∧ (Nat.digitChar d) ≠ ']' := by
  have hall : ∀ d < 16, Plain (Nat.digitChar d) ∧ Plain (Nat.digitChar d).toUpper ∧
      toLower (Nat.digitChar d).toLower = (Nat.digitChar d) ∧ (Nat.digitChar d) ≠ ']' := by decide
  exact hall d hd

theorem plain_of_mem_formatNumber {base width v : ℕ} (hb : 1 < base) (hb' : base ≤ 16) {c : Char}
    (hc : c ∈ formatNumber base width v) : Plain c := by
  obtain ⟨d, hd, rfl⟩ := mem_formatNumber width v hb hc
  exact (plain_digitChar (hd.trans_le hb')).1

theorem survives_intToString (value : Int32) : Survives (intToString value) := by
  refine survives_of_plain ?_
  have hdigits : ∀ c ∈ formatNumber 10 1 value.toInt.natAbs, Plain c := fun c hc =>
    plain_of_mem_formatNumber (by norm_num) (by norm_num) hc
  rw [intToString]
  split
  · exact List.forall_mem_cons.mpr ⟨by decide, hdigits⟩
  · exact hdigits

theorem survives_hex (width v : ℕ) : Survives ('0' :: 'x' :: formatNumber 16 width v) :=
  survives_of_plain (List.forall_mem_cons.mpr ⟨by decide, List.forall_mem_cons.mpr ⟨by decide,
    fun _ hc => plain_of_mem_formatNumber (by norm_num) le_rfl hc⟩⟩)

theorem survives_u32ToString (value : UInt32) : Survives (u32ToString value) := survives_hex 8 _

theorem survives_u64ToString (value : UInt64) : Survives (u64ToString value) := survives_hex 16 _

theorem survives_boolToString (value : Bool) : Survives (boolToString value) := by
  cases value <;> decide

theorem survives_stateToString (state : ScanState) : Survives (stateToString state) := by
  cases state <;> decide

theorem survives_makeTemplateMask (enabledTemplates : Fin 4 → Bool) :
    Survives (makeTemplateMask enabledTemplates) := by
  refine survives_of_plain fun c hc => ?_
  obtain ⟨i, -, rfl⟩ := List.mem_map.mp hc
  split
  · decide
  · decide

/-- The line of an AR code is not empty and survives. -/
theorem survives_arLine (address value : ℕ) : arLine address value ≠ [] ∧ Survives (arLine address value) := by
  have hupper : ∀ v, ∀ c ∈ (formatNumber 16 8 v).map Char.toUpper, Plain c := by
    intro v c hc
    obtain ⟨digit, hdigit, rfl⟩ := List.mem_map.mp hc
    obtain ⟨d, hd, rfl⟩ := @mem_formatNumber 16 8 v (by norm_num) digit hdigit
    exact (plain_digitChar hd).2.1
  have hne : ∀ v, (formatNumber 16 8 v).map Char.toUpper ≠ [] := fun v =>
    mt List.map_eq_nil_iff.mp (formatNumber_ne_nil 8 v (by norm_num))
  have hhead : ∀ c, (arLine address value).head? = some c → Plain c := by
    intro c hc
    rw [arLine, List.head?_append_of_ne_nil _ (hne address)] at hc
    exact hupper address c (List.mem_of_mem_head? hc)
  have hlast : ∀ c, (arLine address value).getLast? = some c → Plain c := by
    intro c hc
    rw [arLine, List.getLast?_append_of_ne_nil _ (List.cons_ne_nil _ _),
      List.getLast?_cons_of_ne_nil (hne value)] at hc
    exact hupper value c (List.mem_of_mem_getLast? hc)
  refine ⟨by simp [arLine], survives_of_ends ?_ (fun c hc => (hhead c hc).1)
    (fun c hc => (hlast c hc).1) (fun hc => (hhead _ hc).2.1 rfl)⟩
  rw [arLine, List.mem_append, List.mem_cons, not_or, not_or]
  exact ⟨fun hc => (hupper address _ hc).2.2 rfl, by decide, fun hc => (hupper value _ hc).2.2 rfl⟩

theorem parseTemplateMask_makeTemplateMask (enabledTemplates : Fin 4 → Bool) :
    parseTemplateMask (makeTemplateMask enabledTemplates) = enabledTemplates := by
  have hlen : (makeTemplateMask enabledTemplates).length = 4 := by simp [makeTemplateMask]
  funext i
  rw [parseTemplateMask, dif_pos hlen]
  simp only [makeTemplateMask, List.get_eq_getElem, List.getElem_map, List.getElem_finRange]
  change decide ((if enabledTemplates i then '1' else '0') ≠ '0') = enabledTemplates i
  cases enabledTemplates i
  · rfl
  · rfl

theorem stringToState_stateToString (state : ScanState) : stringToState (stateToString state) = state := by
  cases state <;> decide

/-! ## Entries -/

/-- A key that a file gives back. -/
def GoodKey (key : Text) : Prop :=
  key ≠ [] ∧ '=' ∉ key ∧ '\n' ∉ key ∧ stripWhitespace key = key ∧
    (key.head?.all fun c => c ∉ ['[', '#', '$', '+', '*']) = true

instance (key : Text) : Decidable (GoodKey key) := by
  unfold GoodKey
  infer_instance

/-- Entries with different keys and values that survive. -/
structure GoodEntries (entries : List (Text × Text)) : Prop where
  key : ∀ key ∈ entries.map Prod.fst, GoodKey key
  keys : (entries.map Prod.fst).Pairwise fun a b => caseInsensitiveEquals a b = false
  value : ∀ value ∈ entries.map Prod.snd, Survives value

theorem GoodEntries.pairwise {entries : List (Text × Text)} (h : GoodEntries entries) :
    entries.Pairwise fun a b => caseInsensitiveEquals a.1 b.1 = false :=
  List.pairwise_map.mp h.keys

theorem set_of_new {s : Section} {key value : Text}
    (hnew : ∀ e ∈ s.values, caseInsensitiveEquals e.1 key = false) :
    s.set key value = { s with values := s.values ++ [(key, value)] } := by
  rw [Section.set, if_neg]
  rw [List.any_eq_true]
  rintro ⟨e, he, heq⟩
  rw [hnew e he] at heq
  cases heq

/-- Entries with different keys are set one after the other. -/
theorem foldl_set {entries : List (Text × Text)} (s : Section)
    (h : (s.values ++ entries).Pairwise fun a b => caseInsensitiveEquals a.1 b.1 = false) :
    entries.foldl (fun s e => s.set e.1 e.2) s = { s with values := s.values ++ entries } := by
  induction entries generalizing s with
  | nil => simp
  | cons e entries ih =>
    have hnew : ∀ old ∈ s.values, caseInsensitiveEquals old.1 e.1 = false := fun old hold =>
      (List.pairwise_append.mp h).2.2 old hold e List.mem_cons_self
    rw [List.foldl_cons, set_of_new hnew, ih _ (by simpa using h)]
    simp

/-- The section of a name with its entries. -/
def toSection (added : Text × List (Text × Text)) : Section := ⟨added.1, added.2, []⟩

/-- Sections with different names are added one after the other. -/
theorem foldl_addSection {added : List (Text × List (Text × Text))} {sections : List Section}
    (hentries : ∀ a ∈ added, GoodEntries a.2)
    (hnames : (sections ++ added.map toSection).Pairwise fun s t =>
      caseInsensitiveEquals s.name t.name = false) :
    added.foldl addSection sections = sections ++ added.map toSection := by
  induction added generalizing sections with
  | nil => simp
  | cons a added ih =>
    rw [List.forall_mem_cons] at hentries
    have hnew : ∀ s ∈ sections, caseInsensitiveEquals s.name a.1 = false := fun s hs =>
      (List.pairwise_append.mp hnames).2.2 s hs (toSection a) List.mem_cons_self
    have hnone : ¬sections.findIdx (fun s => caseInsensitiveEquals s.name a.1) < sections.length := by
      rw [List.findIdx_lt_length, not_exists]
      rintro s ⟨hs, heq⟩
      rw [hnew s hs] at heq
      cases heq
    have hadd : addSection sections a = sections ++ [toSection a] := by
      rw [addSection, getOrCreateSection]
      simp only [if_neg hnone, modify_append_length]
      rw [foldl_set _ (by simpa using hentries.1.pairwise)]
      rfl
    rw [List.foldl_cons, hadd, ih hentries.2 (by simpa using hnames)]
    simp

/-- A name that a file gives back. -/
def GoodName (name : Text) : Prop := ']' ∉ name ∧ '\n' ∉ name

instance (name : Text) : Decidable (GoodName name) := inferInstanceAs (Decidable (_ ∧ _))

theorem toSection_loaded {added : Text × List (Text × Text)} (hname : GoodName added.1)
    (h : GoodEntries added.2) : (toSection added).Loaded where
  name_bracket := hname.1
  name_line := hname.2
  key_equals := fun e he => (h.key e.1 (List.mem_map_of_mem he)).2.1
  key_line := fun e he => (h.key e.1 (List.mem_map_of_mem he)).2.2.1
  key_stripped := fun e he => (h.key e.1 (List.mem_map_of_mem he)).2.2.2.1
  value_line := fun e he => (h.value e.2 (List.mem_map_of_mem he)).1
  entry := fun e he hnil => absurd hnil (h.key e.1 (List.mem_map_of_mem he)).1
  keys := h.pairwise
  lines_ne := List.forall_mem_nil _
  lines_line := List.forall_mem_nil _
  lines_head := List.forall_mem_nil _
  lines_raw := List.forall_mem_nil _

theorem toSection_plain {added : Text × List (Text × Text)} (h : GoodEntries added.2) :
    (toSection added).Plain where
  unmixed := .inr rfl
  key_head := fun e he c hc =>
    of_decide_eq_true ((Option.all_eq_true _ _).mp (h.key e.1 (List.mem_map_of_mem he)).2.2.2.2 c hc)
  value_stripped := fun e he => (h.value e.2 (List.mem_map_of_mem he)).2
  lines_end := List.forall_mem_nil _

/-- Good sections that are added and saved are loaded. -/
theorem load_addSections {added : List (Text × List (Text × Text))}
    (hname : ∀ a ∈ added, GoodName a.1) (hentries : ∀ a ∈ added, GoodEntries a.2 ∧ a.2 ≠ [])
    (hnames : added.Pairwise fun a b => caseInsensitiveEquals a.1 b.1 = false) :
    load (save (added.foldl addSection [])) = added.map toSection := by
  have hpairs : (added.map toSection).Pairwise fun s t => caseInsensitiveEquals s.name t.name = false :=
    List.pairwise_map.mpr hnames
  rw [foldl_addSection (fun a ha => (hentries a ha).1) (by simpa using hpairs), List.nil_append,
    load_save]
  · refine List.filter_eq_self.mpr fun s hs => ?_
    obtain ⟨a, ha, rfl⟩ := List.mem_map.mp hs
    simp [Section.nonEmpty, toSection, (hentries a ha).2]
  · refine ⟨fun s hs => ?_, hpairs⟩
    obtain ⟨a, ha, rfl⟩ := List.mem_map.mp hs
    exact toSection_loaded (hname a ha) (hentries a ha).1
  · intro s hs
    obtain ⟨a, ha, rfl⟩ := List.mem_map.mp hs
    exact toSection_plain (hentries a ha).1

/-- What is searched for without case is found where no two are equal without case. -/
theorem find?_caseInsensitive {α : Type*} {name : α → Text} {l : List α}
    (h : l.Pairwise fun a b => caseInsensitiveEquals (name a) (name b) = false) {a : α} (ha : a ∈ l) :
    l.find? (fun b => caseInsensitiveEquals (name b) (name a)) = some a := by
  induction l with
  | nil => exact absurd ha List.not_mem_nil
  | cons b l ih =>
    rw [List.pairwise_cons] at h
    rcases List.mem_cons.mp ha with rfl | ha
    · exact List.find?_cons_of_pos (caseInsensitiveEquals_refl (name a))
    · rw [List.find?_cons_of_neg (by simp [h.1 a ha]), ih h.2 ha]

theorem get_toSection {added : Text × List (Text × Text)} (h : GoodEntries added.2) {e : Text × Text}
    (he : e ∈ added.2) : (toSection added).get e.1 = some e.2 := by
  have hfind := @find?_caseInsensitive _ Prod.fst _ h.pairwise e he
  exact congrArg (Option.map Prod.snd) hfind

theorem getSection_toSection {added : List (Text × List (Text × Text))}
    (hnames : added.Pairwise fun a b => caseInsensitiveEquals a.1 b.1 = false)
    {a : Text × List (Text × Text)} (ha : a ∈ added) :
    getSection (added.map toSection) a.1 = some (toSection a) := by
  have hpairs : (added.map toSection).Pairwise fun s t => caseInsensitiveEquals s.name t.name = false :=
    List.pairwise_map.mpr hnames
  exact find?_caseInsensitive hpairs (List.mem_map_of_mem ha)

/-! ## The sections of a manifest -/

/-- The strings of a manifest survive, its candidates have names and addresses, and its lists are
vectors. -/
structure Savable (m : ManifestData) : Prop where
  gameId : Survives m.gameId
  mapPath : Survives m.mapPath
  symbolFilter : Survives m.config.symbolFilter
  outputFolder : Survives m.config.outputFolder
  candidate : ∀ c ∈ m.candidates, Survives c.symbolName ∧ c.symbolName ≠ [] ∧ c.address ≠ 0
  result : ∀ r ∈ m.results, Survives r.symbolName ∧ Survives r.screenshotPath
  candidatesSize : m.candidates.length < 2 ^ 64
  resultsSize : m.results.length < 2 ^ 64

theorem goodEntries_session {m : ManifestData} (h : Savable m) : GoodEntries (sessionEntries m) where
  key := by
    simp only [sessionEntries, List.map_cons, List.map_nil]
    decide +kernel
  keys := by
    simp only [sessionEntries, List.map_cons, List.map_nil]
    decide +kernel
  value := by
    simp only [sessionEntries, List.map_cons, List.map_nil, List.forall_mem_cons,
      survives_stateToString, survives_intToString, survives_u32ToString, survives_boolToString,
      survives_makeTemplateMask, survives_u64ToString, h.gameId, h.mapPath, h.symbolFilter,
      h.outputFolder, List.not_mem_nil, false_implies, implies_true, and_self]

theorem goodEntries_baseline (baseline : FrameStats) : GoodEntries (baselineEntries baseline) where
  key := by
    simp only [baselineEntries, List.map_cons, List.map_nil]
    decide +kernel
  keys := by
    simp only [baselineEntries, List.map_cons, List.map_nil]
    decide +kernel
  value := by
    simp only [baselineEntries, List.map_cons, List.map_nil, List.forall_mem_cons,
      survives_intToString, List.not_mem_nil, false_implies, implies_true, and_self]

theorem goodEntries_candidate {c : Candidate} (h : Survives c.symbolName) :
    GoodEntries (candidateEntries c) where
  key := by
    simp only [candidateEntries, List.map_cons, List.map_nil]
    decide +kernel
  keys := by
    simp only [candidateEntries, List.map_cons, List.map_nil]
    decide +kernel
  value := by
    simp only [candidateEntries, List.map_cons, List.map_nil, List.forall_mem_cons,
      survives_u32ToString, h, List.not_mem_nil, false_implies, implies_true, and_self]

theorem goodEntries_result {r : ScanResult} (hname : Survives r.symbolName)
    (hpath : Survives r.screenshotPath) {lines : Text × Text} (hfst : Survives lines.1)
    (hsnd : Survives lines.2) : GoodEntries (resultEntries r lines) where
  key := by
    simp only [resultEntries, List.map_cons, List.map_nil]
    decide +kernel
  keys := by
    simp only [resultEntries, List.map_cons, List.map_nil]
    decide +kernel
  value := by
    simp only [resultEntries, List.map_cons, List.map_nil, List.forall_mem_cons,
      survives_intToString, survives_u32ToString, survives_boolToString, hname, hpath, hfst, hsnd,
      List.not_mem_nil, false_implies, implies_true, and_self]

theorem map_toLower_formatNumber (v : ℕ) :
    (formatNumber 10 1 v).map toLower = formatNumber 10 1 v := by
  refine (List.map_congr_left fun c hc => ?_).trans (List.map_id _)
  obtain ⟨d, hd, rfl⟩ := @mem_formatNumber 10 1 v (by norm_num) c hc
  have hall : ∀ d < 10, toLower (Nat.digitChar d) = Nat.digitChar d := by decide
  exact hall d hd

theorem formatNumber_injective {i j : ℕ} (h : formatNumber 10 1 i = formatNumber 10 1 j) : i = j := by
  have hi := readDigits_formatNumber 1 i (by norm_num : 1 < 10) (by norm_num) (by norm_num)
  have hj := readDigits_formatNumber 1 j (by norm_num : 1 < 10) (by norm_num) (by norm_num)
  rw [h] at hi
  exact Option.some_inj.mp (hi.symm.trans hj)

theorem caseInsensitiveEquals_makeSectionName {start : String} {i j : ℕ} (hij : i ≠ j) :
    caseInsensitiveEquals (makeSectionName start i) (makeSectionName start j) = false := by
  rw [← Bool.not_eq_true, caseInsensitiveEquals_iff, makeSectionName, makeSectionName, List.map_append,
    List.map_append, List.append_right_inj, map_toLower_formatNumber, map_toLower_formatNumber]
  exact mt formatNumber_injective hij

theorem caseInsensitiveEquals_of_head {a b : Text} {c d : Char} (ha : a.head? = some c)
    (hb : b.head? = some d) (hcd : toLower c ≠ toLower d) : caseInsensitiveEquals a b = false := by
  rw [← Bool.not_eq_true, caseInsensitiveEquals_iff]
  intro heq
  have hhead := congrArg List.head? heq
  rw [List.head?_map, List.head?_map, ha, hb] at hhead
  exact hcd (Option.some_inj.mp hhead)

theorem goodName_makeSectionName {start : String} (h : GoodName start.toList) (i : ℕ) :
    GoodName (makeSectionName start i) := by
  have hdigits : ∀ c ∈ formatNumber 10 1 i, c ≠ ']' ∧ c ≠ '\n' := by
    intro c hc
    obtain ⟨d, hd, rfl⟩ := @mem_formatNumber 10 1 i (by norm_num) c hc
    have hall : ∀ d < 10, Nat.digitChar d ≠ ']' ∧ Nat.digitChar d ≠ '\n' := by decide
    exact hall d hd
  constructor
  · rw [makeSectionName, List.mem_append, not_or]
    exact ⟨h.1, fun hc => (hdigits _ hc).1 rfl⟩
  · rw [makeSectionName, List.mem_append, not_or]
    exact ⟨h.2, fun hc => (hdigits _ hc).2 rfl⟩

theorem candidate_head (i : ℕ) : (makeSectionName "Candidate_" i).head? = some 'C' := rfl

theorem result_head (i : ℕ) : (makeSectionName "Result_" i).head? = some 'R' := rfl

theorem pairwise_mapIdx {α : Type*} (start : String) (l : List α) (entries : α → List (Text × Text)) :
    (l.mapIdx fun i a => (makeSectionName start i, entries a)).Pairwise fun a b =>
      caseInsensitiveEquals a.1 b.1 = false := by
  rw [List.pairwise_iff_getElem]
  intro i j hi hj hij
  rw [List.getElem_mapIdx, List.getElem_mapIdx]
  exact caseInsensitiveEquals_makeSectionName hij.ne

section Sections

variable {m : ManifestData} {results : List (List (Text × Text))}

/-- A section of a manifest is one of the two fixed ones or a numbered one. -/
theorem mem_manifestSections {a : Text × List (Text × Text)} (h : a ∈ manifestSections m results) :
    a = ("Session".toList, sessionEntries m) ∨ a = ("Baseline".toList, baselineEntries m.baseline) ∨
      (∃ i, ∃ c ∈ m.candidates, a = (makeSectionName "Candidate_" i, candidateEntries c)) ∨
      ∃ i, ∃ entries ∈ results, a = (makeSectionName "Result_" i, entries) := by
  rw [manifestSections, List.mem_cons, List.mem_cons, List.mem_append, List.mem_mapIdx,
    List.mem_mapIdx] at h
  rcases h with h | h | ⟨i, hi, rfl⟩ | ⟨i, hi, rfl⟩
  · exact .inl h
  · exact .inr (.inl h)
  · exact .inr (.inr (.inl ⟨i, m.candidates[i], List.getElem_mem hi, rfl⟩))
  · exact .inr (.inr (.inr ⟨i, results[i], List.getElem_mem hi, rfl⟩))

theorem manifestSections_names :
    (manifestSections m results).Pairwise fun a b => caseInsensitiveEquals a.1 b.1 = false := by
  have hnumbered : ∀ a ∈ (m.candidates.mapIdx fun i c =>
      (makeSectionName "Candidate_" i, candidateEntries c)) ++
        results.mapIdx (fun i entries => (makeSectionName "Result_" i, entries)),
      a.1.head? = some 'C' ∨ a.1.head? = some 'R' := by
    intro a ha
    rw [List.mem_append, List.mem_mapIdx, List.mem_mapIdx] at ha
    rcases ha with ⟨i, hi, rfl⟩ | ⟨i, hi, rfl⟩
    · exact .inl rfl
    · exact .inr rfl
  rw [manifestSections, List.pairwise_cons, List.pairwise_cons, List.pairwise_append]
  have hfixed : caseInsensitiveEquals "Session".toList "Baseline".toList = false := by decide
  refine ⟨List.forall_mem_cons.mpr ⟨hfixed, fun a ha => ?_⟩, fun a ha => ?_,
    pairwise_mapIdx _ _ _, pairwise_mapIdx _ _ _, fun a ha b hb => ?_⟩
  · rcases hnumbered a ha with hhead | hhead
    · exact @caseInsensitiveEquals_of_head _ _ 'S' _ rfl hhead (by decide)
    · exact @caseInsensitiveEquals_of_head _ _ 'S' _ rfl hhead (by decide)
  · rcases hnumbered a ha with hhead | hhead
    · exact @caseInsensitiveEquals_of_head _ _ 'B' _ rfl hhead (by decide)
    · exact @caseInsensitiveEquals_of_head _ _ 'B' _ rfl hhead (by decide)
  · rw [List.mem_mapIdx] at ha hb
    obtain ⟨i, hi, rfl⟩ := ha
    obtain ⟨j, hj, rfl⟩ := hb
    exact caseInsensitiveEquals_of_head (candidate_head i) (result_head j) (by decide)

/-- The sections of a manifest are loaded as they were saved. -/
theorem load_manifestSections (h : Savable m)
    (hresults : ∀ entries ∈ results, GoodEntries entries ∧ entries ≠ []) :
    load (save ((manifestSections m results).foldl addSection [])) =
      (manifestSections m results).map toSection := by
  have hsession : GoodName "Session".toList := by decide
  have hbaseline : GoodName "Baseline".toList := by decide
  refine load_addSections (fun a ha => ?_) (fun a ha => ?_) manifestSections_names
  · rcases mem_manifestSections ha with rfl | rfl | ⟨i, c, -, rfl⟩ | ⟨i, entries, -, rfl⟩
    · exact hsession
    · exact hbaseline
    · exact goodName_makeSectionName (by decide) i
    · exact goodName_makeSectionName (by decide) i
  · rcases mem_manifestSections ha with rfl | rfl | ⟨i, c, hc, rfl⟩ | ⟨i, entries, hentries, rfl⟩
    · exact ⟨goodEntries_session h, List.cons_ne_nil _ _⟩
    · exact ⟨goodEntries_baseline _, List.cons_ne_nil _ _⟩
    · exact ⟨goodEntries_candidate (h.candidate c hc).1, List.cons_ne_nil _ _⟩
    · exact hresults entries hentries

end Sections

/-! ## What is loaded -/

section Get

variable {a : Text × List (Text × Text)} (h : GoodEntries a.2) {key : String}

include h

theorem getString_toSection {v : Text} (he : (key.toList, v) ∈ a.2) :
    getString (toSection a) key = v := by
  rw [getString, get_toSection h he]
  rfl

theorem getValue_toSection {α : Type} {tryParse : Text → Option α} {v : Text} {value d : α}
    (hparse : tryParse v = some value) (he : (key.toList, v) ∈ a.2) :
    getValue tryParse (toSection a) key d = value := by
  rw [getValue, get_toSection h he, Option.bind_some, hparse, Option.getD_some]

theorem getInt_toSection {value d : Int32} (he : (key.toList, intToString value) ∈ a.2) :
    getValue tryParseInt (toSection a) key d = value :=
  getValue_toSection h (tryParseInt_intToString value) he

theorem getU32_toSection {value d : UInt32} (he : (key.toList, u32ToString value) ∈ a.2) :
    getValue tryParseU32 (toSection a) key d = value :=
  getValue_toSection h (tryParseU32_u32ToString value) he

theorem getU64_toSection {value d : UInt64} (he : (key.toList, u64ToString value) ∈ a.2) :
    getValue tryParseU64 (toSection a) key d = value :=
  getValue_toSection h (tryParseU64_u64ToString value) he

theorem getBool_toSection {value d : Bool} (he : (key.toList, boolToString value) ∈ a.2) :
    getValue tryParseBool (toSection a) key d = value :=
  getValue_toSection h (tryParseBool_boolToString value) he

end Get

theorem loadBaseline_toSection {name : Text} (baseline : FrameStats) :
    loadBaseline (toSection (name, baselineEntries baseline)) = baseline := by
  have h := goodEntries_baseline baseline
  obtain ⟨drawCalls, trianglesDrawn, prims, drawnObjects⟩ := baseline
  rw [loadBaseline, FrameStats.mk.injEq]
  and_intros
  all_goals
    exact @getInt_toSection (name, baselineEntries _) h _ _ _
      (by simp only [baselineEntries, List.mem_cons, true_or, or_true])

theorem loadConfig_toSection {name : Text} {m : ManifestData} (h : Savable m) :
    loadConfig (toSection (name, sessionEntries m)) = m.config := by
  have hentries := goodEntries_session h
  have hmask : parseTemplateMask (getString (toSection (name, sessionEntries m)) "TemplateMask") =
      m.config.enabledTemplates := by
    rw [@getString_toSection (name, sessionEntries m) hentries "TemplateMask"
      (makeTemplateMask m.config.enabledTemplates)
      (by simp only [sessionEntries, List.mem_cons, true_or, or_true]), parseTemplateMask_makeTemplateMask]
  rw [loadConfig, hmask]
  obtain ⟨gameId, mapPath, config⟩ := m
  rw [ScanConfig.mk.injEq]
  and_intros
  all_goals first
    | exact @getInt_toSection (name, sessionEntries _) hentries _ _ _
        (by simp only [sessionEntries, List.mem_cons, true_or, or_true])
    | exact @getU32_toSection (name, sessionEntries _) hentries _ _ _
        (by simp only [sessionEntries, List.mem_cons, true_or, or_true])
    | exact @getBool_toSection (name, sessionEntries _) hentries _ _ _
        (by simp only [sessionEntries, List.mem_cons, true_or, or_true])
    | exact @getString_toSection (name, sessionEntries _) hentries _ _
        (by simp only [sessionEntries, List.mem_cons, true_or, or_true])
    | rfl

theorem loadCandidate_toSection {name : Text} {c : Candidate} (hname : Survives c.symbolName)
    (hne : c.symbolName ≠ []) (haddress : c.address ≠ 0) :
    loadCandidate (toSection (name, candidateEntries c)) = some c := by
  have h := goodEntries_candidate hname
  have hsymbol : getString (toSection (name, candidateEntries c)) "Name" = c.symbolName :=
    getString_toSection h (by simp only [candidateEntries, List.mem_cons, true_or])
  have hvalue : getValue tryParseU32 (toSection (name, candidateEntries c)) "Address" 0 = c.address :=
    getU32_toSection h (by simp only [candidateEntries, List.mem_cons, true_or, or_true])
  rw [loadCandidate, hsymbol, hvalue]
  exact if_pos ⟨hne, haddress⟩

theorem loadResult_toSection {name : Text} {r : ScanResult} {lines : Text × Text}
    (h : GoodEntries (resultEntries r lines)) (hfst : lines.1 ≠ []) (hsnd : lines.2 ≠ []) :
    loadResult (toSection (name, resultEntries r lines)) =
      some { r with arCodeText := joinLines lines } := by
  have hline1 : getString (toSection (name, resultEntries r lines)) "ARLine1" = lines.1 :=
    getString_toSection h (by simp only [resultEntries, List.mem_cons, true_or, or_true])
  have hline2 : getString (toSection (name, resultEntries r lines)) "ARLine2" = lines.2 :=
    getString_toSection h (by simp only [resultEntries, List.mem_cons, true_or, or_true])
  rw [loadResult]
  simp only [hline1, hline2, hfst, hsnd, or_self, if_false, Option.map_some, Option.some_inj]
  obtain ⟨symbolName, address, templateKind, ⟨b₁, b₂, b₃, b₄⟩, ⟨m₁, m₂, m₃, m₄⟩⟩ := r
  rw [ScanResult.mk.injEq, FrameStats.mk.injEq, FrameStats.mk.injEq]
  and_intros
  all_goals first
    | exact @getInt_toSection (name, resultEntries _ _) h _ _ _
        (by simp only [resultEntries, List.mem_cons, true_or, or_true])
    | exact @getU32_toSection (name, resultEntries _ _) h _ _ _
        (by simp only [resultEntries, List.mem_cons, true_or, or_true])
    | exact @getBool_toSection (name, resultEntries _ _) h _ _ _
        (by simp only [resultEntries, List.mem_cons, true_or, or_true])
    | exact @getString_toSection (name, resultEntries _ _) h _ _
        (by simp only [resultEntries, List.mem_cons, true_or, or_true])
    | rfl

/-! ## Lists in numbered sections -/

section Numbered

variable {α β : Type*} {read : β → Option α} {l : List α} {sections : List β}
  (hmap : sections.map read = l.map some)

include hmap

theorem filterMap_of_map : sections.filterMap read = l := by
  have hfilter : (sections.map read).filterMap id = (l.map some).filterMap id := by rw [hmap]
  simpa using hfilter

theorem mapM_of_map : sections.mapM read = some l := by
  induction sections generalizing l with
  | nil =>
    rw [List.map_eq_nil_iff.mp hmap.symm]
    rfl
  | cons s sections ih =>
    cases l with
    | nil => cases hmap
    | cons a l =>
      rw [List.map_cons, List.map_cons, List.cons.injEq] at hmap
      rw [List.mapM_cons, hmap.1, ih hmap.2]
      rfl

end Numbered

/-- A list whose sections are all there is found in them. -/
theorem numberedSections_mapIdx {α : Type*} {added : List (Text × List (Text × Text))}
    (hnames : added.Pairwise fun a b => caseInsensitiveEquals a.1 b.1 = false) {start : String}
    {l : List α} (entries : α → List (Text × Text)) (hsize : l.length < 2 ^ 64)
    (hmem : ∀ i (hi : i < l.length), (makeSectionName start i, entries l[i]) ∈ added) :
    numberedSections (added.map toSection) start (UInt64.ofNat l.length) =
      l.mapIdx fun i a => toSection (makeSectionName start i, entries a) := by
  refine filterMap_of_map (List.ext_getElem ?_ fun i hi hi' => ?_)
  · simpa using hsize
  · rw [List.length_map, List.length_mapIdx] at hi'
    rw [List.getElem_map, List.getElem_map, List.getElem_range, List.getElem_mapIdx]
    exact getSection_toSection hnames (hmem i hi')

/-- What is read from numbered sections one by one is the list. -/
theorem map_mapIdx_toSection {α β : Type*} {start : String} {l : List α} (value : α → β)
    (entries : α → List (Text × Text)) {read : Section → Option β}
    (hread : ∀ a ∈ l, ∀ i, read (toSection (makeSectionName start i, entries a)) = some (value a)) :
    (l.mapIdx fun i a => toSection (makeSectionName start i, entries a)).map read =
      (l.map value).map some := by
  refine List.ext_getElem (by simp) fun i hi hi' => ?_
  rw [List.getElem_map, List.getElem_map, List.getElem_map, List.getElem_mapIdx]
  exact hread _ (List.getElem_mem _) i

/-! ## The round trip -/

/-- The lines of the AR code of a result, of which the template is known. -/
def arLines (r : ScanResult) : Text × Text := (buildARCodeLines r.address r.templateKind).getD ([], [])

theorem buildARCodeLines_eq {r : ScanResult} (h : (lookupTemplate r.templateKind).isSome = true) :
    buildARCodeLines r.address r.templateKind = some (arLines r) := by
  obtain ⟨template, htemplate⟩ := Option.isSome_iff_exists.mp h
  rw [arLines, buildARCodeLines, htemplate]
  rfl

theorem arLines_spec {r : ScanResult} (h : (lookupTemplate r.templateKind).isSome = true) :
    ((arLines r).1 ≠ [] ∧ Survives (arLines r).1) ∧ (arLines r).2 ≠ [] ∧ Survives (arLines r).2 := by
  obtain ⟨template, htemplate⟩ := Option.isSome_iff_exists.mp h
  rw [arLines, buildARCodeLines, htemplate]
  exact ⟨survives_arLine _ _, survives_arLine _ _⟩

/-- The manifest with the AR codes that belong to the addresses and the templates. -/
def ManifestData.rebuilt (m : ManifestData) : ManifestData :=
  { m with results := m.results.map fun r => { r with arCodeText := joinLines (arLines r) } }

/-- What is loaded is what was saved, with the AR codes built again. -/
theorem load_save_rebuilt {m : ManifestData} (h : Savable m)
    (hkinds : ∀ r ∈ m.results, (lookupTemplate r.templateKind).isSome = true) :
    (saveManifest m).bind loadManifest = some (.ok m.rebuilt) := by
  set entries := m.results.map fun r => resultEntries r (arLines r) with hentries
  have hgood : ∀ r ∈ m.results, GoodEntries (resultEntries r (arLines r)) := fun r hr =>
    goodEntries_result (h.result r hr).1 (h.result r hr).2 (arLines_spec (hkinds r hr)).1.2
      (arLines_spec (hkinds r hr)).2.2
  have hsave : saveManifest m = some (save ((manifestSections m entries).foldl addSection [])) := by
    have hmap : (m.results.map fun r =>
        (buildARCodeLines r.address r.templateKind).map (resultEntries r)) = entries.map some := by
      rw [hentries, List.map_map]
      refine List.map_congr_left fun r hr => ?_
      rw [buildARCodeLines_eq (hkinds r hr)]
      rfl
    rw [saveManifest, mapM_of_map hmap, Option.map_some]
  have hload := @load_manifestSections m entries h (by
    intro e he
    obtain ⟨r, hr, rfl⟩ := List.mem_map.mp he
    exact ⟨hgood r hr, List.cons_ne_nil _ _⟩)
  have hnames := @manifestSections_names m entries
  have hsession : getSection ((manifestSections m entries).map toSection) "Session".toList =
      some (toSection ("Session".toList, sessionEntries m)) :=
    getSection_toSection hnames List.mem_cons_self
  have hbaseline : getSection ((manifestSections m entries).map toSection) "Baseline".toList =
      some (toSection ("Baseline".toList, baselineEntries m.baseline)) :=
    getSection_toSection hnames (List.mem_cons_of_mem _ List.mem_cons_self)
  have hcandidates : (numberedSections ((manifestSections m entries).map toSection) "Candidate_"
      (UInt64.ofNat m.candidates.length)).filterMap loadCandidate = m.candidates := by
    rw [numberedSections_mapIdx hnames candidateEntries h.candidatesSize fun i hi => ?_]
    · refine filterMap_of_map ((map_mapIdx_toSection id candidateEntries fun c hc i => ?_).trans ?_)
      · exact loadCandidate_toSection (h.candidate c hc).1 (h.candidate c hc).2.1 (h.candidate c hc).2.2
      · rw [List.map_id]
    · refine List.mem_cons_of_mem _ (List.mem_cons_of_mem _ (List.mem_append_left _ ?_))
      exact List.mem_mapIdx.mpr ⟨i, hi, rfl⟩
  have hresults : (numberedSections ((manifestSections m entries).map toSection) "Result_"
      (UInt64.ofNat m.results.length)).mapM loadResult = some m.rebuilt.results := by
    rw [numberedSections_mapIdx hnames (fun r => resultEntries r (arLines r)) h.resultsSize
      fun i hi => ?_]
    · refine mapM_of_map (map_mapIdx_toSection _ _ fun r hr i => ?_)
      exact loadResult_toSection (hgood r hr) (arLines_spec (hkinds r hr)).1.1
        (arLines_spec (hkinds r hr)).2.1
    · refine List.mem_cons_of_mem _ (List.mem_cons_of_mem _ (List.mem_append_right _ ?_))
      exact List.mem_mapIdx.mpr ⟨i, by simpa [hentries] using hi, by simp [hentries]⟩
  have hgoodSession := goodEntries_session h
  have hcandidateCount : getValue tryParseU64 (toSection ("Session".toList, sessionEntries m))
      "CandidateCount" 0 = UInt64.ofNat m.candidates.length :=
    getU64_toSection hgoodSession (by simp only [sessionEntries, List.mem_cons, true_or, or_true])
  have hresultCount : getValue tryParseU64 (toSection ("Session".toList, sessionEntries m))
      "ResultCount" 0 = UInt64.ofNat m.results.length :=
    getU64_toSection hgoodSession (by simp only [sessionEntries, List.mem_cons, true_or, or_true])
  have hstate : (toSection ("Session".toList, sessionEntries m)).get "State".toList =
      some (stateToString m.state) :=
    @get_toSection _ hgoodSession ("State".toList, stateToString m.state)
      (by simp only [sessionEntries, List.mem_cons, true_or, or_true])
  rw [hsave, Option.bind_some, loadManifest, hload]
  simp only [hsession, hbaseline, hcandidateCount, hresultCount, hcandidates, hresults, hstate,
    loadConfig_toSection h, loadBaseline_toSection, Option.getD_some, stringToState_stateToString,
    Option.map_some]
  rw [Option.some_inj, Except.ok.injEq, ManifestData.rebuilt, ManifestData.mk.injEq]
  and_intros
  all_goals first
    | exact @getU64_toSection ("Session".toList, sessionEntries _) hgoodSession _ _ _
        (by simp only [sessionEntries, List.mem_cons, true_or, or_true])
    | exact @getU32_toSection ("Session".toList, sessionEntries _) hgoodSession _ _ _
        (by simp only [sessionEntries, List.mem_cons, true_or, or_true])
    | exact @getBool_toSection ("Session".toList, sessionEntries _) hgoodSession _ _ _
        (by simp only [sessionEntries, List.mem_cons, true_or, or_true])
    | exact @getString_toSection ("Session".toList, sessionEntries _) hgoodSession _ _
        (by simp only [sessionEntries, List.mem_cons, true_or, or_true])
    | rfl

theorem loadManifest_saveManifest {m : ManifestData} (h : Savable m)
    (hcodes : ∀ r ∈ m.results, buildARCodeText r.address r.templateKind = some r.arCodeText) :
    (saveManifest m).bind loadManifest = some (.ok m) := by
  have hkinds : ∀ r ∈ m.results, (lookupTemplate r.templateKind).isSome = true := by
    intro r hr
    have hcode := hcodes r hr
    rw [buildARCodeText, buildARCodeLines, Option.map_map] at hcode
    exact Option.isSome_iff_exists.mpr ((Option.map_eq_some_iff.mp hcode).imp fun _ h => h.1)
  have hrebuilt : m.rebuilt = m := by
    have hresults : (m.results.map fun r => { r with arCodeText := joinLines (arLines r) }) =
        m.results := by
      refine (List.map_congr_left fun r hr => ?_).trans (List.map_id _)
      have hcode := hcodes r hr
      rw [buildARCodeText, buildARCodeLines_eq (hkinds r hr), Option.map_some, Option.some_inj] at hcode
      rw [hcode]
      rfl
    rw [ManifestData.rebuilt, hresults]
  rw [load_save_rebuilt h hkinds, hrebuilt]

/-- A paused scan with a result. -/
def sampleManifest : ManifestData :=
  { ManifestData.initial with
    gameId := "GM8E01".toList
    candidates := [⟨"CheckCull".toList, 0x80001000⟩, ⟨"RenderCull".toList, 0x80345C68⟩]
    results := [{ ScanResult.initial with
      symbolName := "RenderCull".toList
      address := 0x80345C68
      drawCallDelta := -5
      arCodeText := "04345C68 38600001\n04345C6C 4E800020".toList }]
    nextCandidateIndex := 1
    nextTemplateIndex := 2
    state := .paused }

theorem loadManifest_saveManifest_sample :
    (saveManifest sampleManifest).bind loadManifest = some (.ok sampleManifest) := by
  refine loadManifest_saveManifest ⟨by decide, by decide, by decide, by decide, ?_, ?_, ?_, ?_⟩ ?_
  · exact List.forall_mem_cons.mpr ⟨by decide, List.forall_mem_singleton.mpr (by decide)⟩
  · exact List.forall_mem_singleton.mpr (by decide)
  · decide
  · decide
  · exact List.forall_mem_singleton.mpr (by decide +kernel)

/-- A file whose AR code was edited. -/
def editedFile : Text :=
  TextLines.unlines '\n'
    ["[Session]".toList, "State = Paused".toList, "CandidateCount = 1".toList, "ResultCount = 1".toList,
      "[Baseline]".toList,
      "[Candidate_0]".toList, "Name = a".toList, "Address = 0x80001000".toList,
      "[Result_0]".toList, "Name = a".toList, "Address = 0x80001000".toList, "ARLine1 = X".toList,
      "ARLine2 = Y".toList]

def editedManifest : ManifestData :=
  { ManifestData.initial with
    candidates := [⟨['a'], 0x80001000⟩]
    results := [{ ScanResult.initial with
      symbolName := ['a']
      address := 0x80001000
      arCodeText := ['X', '\n', 'Y'] }]
    state := .paused }

/-- The AR code of a result is not saved. -/
theorem edited_not_saved : loadManifest editedFile = some (.ok editedManifest) ∧
    Savable editedManifest ∧
    (saveManifest editedManifest).bind loadManifest ≠ some (.ok editedManifest) := by
  have hsavable : Savable editedManifest := by
    refine ⟨by decide, by decide, by decide, by decide, ?_, ?_, ?_, ?_⟩
    · exact List.forall_mem_singleton.mpr (by decide)
    · exact List.forall_mem_singleton.mpr (by decide)
    · decide
    · decide
  refine ⟨by decide +kernel, hsavable, ?_⟩
  rw [load_save_rebuilt hsavable (List.forall_mem_singleton.mpr (by decide)), ne_eq, Option.some_inj,
    Except.ok.injEq]
  decide +kernel

end CullingManifest
