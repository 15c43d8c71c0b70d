import PrimedSteam.Lib.Transition
import PrimedSteam.VideoCommon.CullingCodeFinder
import Mathlib.Order.Basic

/-!
# The scan covers its search space

* `pairs`: the candidates with the enabled templates, in lexicographic order (`pairs_sorted`).
* `pairsFrom`: those that are left from a position on; a step of the position takes the first one away
  (`pairsFrom_cons`).
* `Covers`: what holds in every state of a run; `Covers.run`.
-/

set_option autoImplicit false

namespace CullingCodeFinder

/-! ## The search space -/

namespace ScanConfig

variable (config : ScanConfig)

/-- The enabled templates from `t` on. -/
def enabledFrom (t : ℕ) : List ℕ :=
  (List.range' t (templateCount - t)).filter config.enabledTemplates

/-- The tests of one candidate. -/
def row (c t : ℕ) : List Position := (config.enabledFrom t).map fun t => (c, t)

/-- The tests of `n` candidates. -/
def pairs (n : ℕ) : List Position := (List.range n).flatMap fun c => config.row c 0

/-- The tests from a position on. -/
def pairsFrom (n : ℕ) (p : Position) : List Position :=
  if p.1 < n then
    config.row p.1 p.2 ++ (List.range' (p.1 + 1) (n - (p.1 + 1))).flatMap fun c => config.row c 0
  else []

variable {config} {n t : ℕ} {p q : Position}

theorem mem_enabledFrom :
    q.2 ∈ config.enabledFrom t ↔ (t ≤ q.2 ∧ q.2 < templateCount) ∧ config.enabledTemplates q.2 := by
  rw [enabledFrom, List.mem_filter, List.mem_range'_1]
  refine and_congr_left' ⟨fun h => ⟨h.1, by omega⟩, fun h => ⟨h.1, by omega⟩⟩

theorem mem_row {c : ℕ} : q ∈ config.row c t ↔ q.1 = c ∧ q.2 ∈ config.enabledFrom t := by
  rw [row, List.mem_map]
  constructor
  · rintro ⟨t', ht', rfl⟩
    exact ⟨rfl, ht'⟩
  · rintro ⟨rfl, ht'⟩
    exact ⟨q.2, ht', rfl⟩

theorem mem_pairs :
    p ∈ config.pairs n ↔ p.1 < n ∧ p.2 < templateCount ∧ config.enabledTemplates p.2 = true := by
  simp only [pairs, List.mem_flatMap, List.mem_range, mem_row, mem_enabledFrom]
  constructor
  · rintro ⟨c, hc, rfl, ht, henabled⟩
    exact ⟨hc, ht.2, henabled⟩
  · rintro ⟨hc, ht, henabled⟩
    exact ⟨p.1, hc, rfl, ⟨Nat.zero_le _, ht⟩, henabled⟩

/-- The lexicographic order. -/
def Before (p q : Position) : Prop := p.1 < q.1 ∨ p.1 = q.1 ∧ p.2 < q.2

theorem row_sorted (c t : ℕ) : (config.row c t).Pairwise Before := by
  have hsorted : (config.enabledFrom t).Pairwise (· < ·) :=
    List.Pairwise.filter _ List.pairwise_lt_range'
  exact List.Pairwise.map _ (fun a b hab => .inr ⟨rfl, hab⟩) hsorted

theorem rows_sorted (l : List ℕ) (hl : l.Pairwise (· < ·)) :
    (l.flatMap fun c => config.row c 0).Pairwise Before := by
  induction l with
  | nil => exact List.Pairwise.nil
  | cons c l ih =>
    obtain ⟨hc, hl⟩ := List.pairwise_cons.mp hl
    rw [List.flatMap_cons, List.pairwise_append]
    refine ⟨row_sorted c 0, ih hl, fun p hp q hq => ?_⟩
    obtain ⟨c', hc', hq⟩ := List.mem_flatMap.mp hq
    refine .inl ?_
    rw [(mem_row.mp hp).1, (mem_row.mp hq).1]
    exact hc c' hc'

/-- **The search space is in lexicographic order**, and has each pair once. -/
theorem pairs_sorted (n : ℕ) : (config.pairs n).Pairwise Before :=
  rows_sorted _ List.pairwise_lt_range

/-! ## Steps of the position -/

theorem range'_templates (ht : t < templateCount) :
    List.range' t (templateCount - t) = t :: List.range' (t + 1) (templateCount - (t + 1)) := by
  have hlen : templateCount - t = templateCount - (t + 1) + 1 := by omega
  rw [hlen, List.range'_succ]

theorem enabledFrom_of_le (ht : templateCount ≤ t) :
    config.enabledFrom t = [] ∧ config.findNextEnabledTemplateIndex t = templateCount := by
  have hlen : templateCount - t = 0 := Nat.sub_eq_zero_of_le ht
  simp [enabledFrom, findNextEnabledTemplateIndex, hlen]

theorem enabledFrom_of_enabled (ht : t < templateCount) (h : config.enabledTemplates t = true) :
    config.enabledFrom t = t :: config.enabledFrom (t + 1) ∧
      config.findNextEnabledTemplateIndex t = t := by
  simp [enabledFrom, findNextEnabledTemplateIndex, range'_templates ht, h]

theorem enabledFrom_of_not (ht : t < templateCount) (h : config.enabledTemplates t = false) :
    config.enabledFrom t = config.enabledFrom (t + 1) ∧
      config.findNextEnabledTemplateIndex t = config.findNextEnabledTemplateIndex (t + 1) := by
  simp [enabledFrom, findNextEnabledTemplateIndex, range'_templates ht, h]

variable (config) in
/-- The next enabled template is the first of those that are left, if there are any. -/
theorem findNext_spec (t : ℕ) :
    config.enabledFrom t = [] ∧ config.findNextEnabledTemplateIndex t = templateCount ∨
      ∃ t' < templateCount, t ≤ t' ∧ config.enabledTemplates t' = true ∧
        config.findNextEnabledTemplateIndex t = t' ∧
        config.enabledFrom t = t' :: config.enabledFrom (t' + 1) := by
  induction hk : templateCount - t generalizing t with
  | zero => exact .inl (enabledFrom_of_le (by omega))
  | succ k ih =>
    have ht : t < templateCount := by omega
    cases henabled : config.enabledTemplates t with
    | true =>
      obtain ⟨hfrom, hnext⟩ := enabledFrom_of_enabled ht henabled
      exact .inr ⟨t, ht, le_rfl, henabled, hnext, hfrom⟩
    | false =>
      obtain ⟨hfrom, hnext⟩ := enabledFrom_of_not ht henabled
      rw [hfrom, hnext]
      rcases ih (t + 1) (by omega) with hnone | ⟨t', ht', hle, hrest⟩
      · exact .inl hnone
      · exact .inr ⟨t', ht', by omega, hrest⟩

/-- A position of the search space, or the one after its end. -/
def Valid (config : ScanConfig) (n : ℕ) (p : Position) : Prop :=
  p.1 < n → p.2 < templateCount ∧ config.enabledTemplates p.2 = true

theorem pairsFrom_of_le (h : n ≤ p.1) : config.pairsFrom n p = [] := if_neg (not_lt.mpr h)

/-- From the first enabled template on, all tests of the candidates are left. -/
theorem pairsFrom_first (c : ℕ) :
    config.pairsFrom n (c, config.findNextEnabledTemplateIndex 0) =
      (List.range' c (n - c)).flatMap fun c => config.row c 0 := by
  by_cases hc : c < n
  · have hlen : n - c = n - (c + 1) + 1 := by omega
    have hrow : config.row c (config.findNextEnabledTemplateIndex 0) = config.row c 0 := by
      rcases findNext_spec config 0 with ⟨hnone, hnext⟩ | ⟨t, ht, -, henabled, hnext, hfrom⟩
      · rw [row, row, hnone, hnext, (enabledFrom_of_le le_rfl).1]
      · rw [row, row, hnext, hfrom, (enabledFrom_of_enabled ht henabled).1]
    rw [pairsFrom, if_pos hc, hlen, List.range'_succ, List.flatMap_cons, hrow]
  · rw [pairsFrom_of_le (not_lt.mp hc), Nat.sub_eq_zero_of_le (not_lt.mp hc)]
    rfl

theorem pairsFrom_start : config.pairsFrom n (0, config.findNextEnabledTemplateIndex 0) =
    config.pairs n := by
  rw [pairsFrom_first, pairs, Nat.sub_zero, List.range_eq_range']

theorem pairsFrom_succ (hp : p.1 < n) :
    config.pairsFrom n (p.1, p.2 + 1) = config.pairsFrom n (config.nextPosition p) := by
  rw [nextPosition]
  rcases findNext_spec config (p.2 + 1) with
    ⟨hnone, hnext⟩ | ⟨t', ht', -, henabled, hnext, hrest⟩
  · simp only [hnext, lt_irrefl, if_false]
    rw [pairsFrom_first, pairsFrom, if_pos hp, row, hnone]
    rfl
  · have hrow := (enabledFrom_of_enabled ht' henabled).1
    simp only [hnext, if_pos ht', pairsFrom, if_pos hp, row, hrest, hrow]

/-- **A step of the position takes one test away.** -/
theorem pairsFrom_cons (hp : p.1 < n) (hv : config.Valid n p) :
    config.pairsFrom n p = p :: config.pairsFrom n (config.nextPosition p) := by
  obtain ⟨ht, henabled⟩ := hv hp
  have hfrom := (enabledFrom_of_enabled ht henabled).1
  rw [← pairsFrom_succ hp, pairsFrom, pairsFrom, if_pos hp, if_pos hp, row, row, hfrom]
  rfl

theorem valid_first (h : config.enabledTemplateCount ≠ 0) (c : ℕ) :
    config.Valid n (c, config.findNextEnabledTemplateIndex 0) := by
  intro _
  rcases findNext_spec config 0 with ⟨hnone, -⟩ | ⟨t, ht, -, henabled, hnext, -⟩
  · have hzero : config.enabledTemplateCount = 0 := by
      rw [enabledTemplateCount, List.countP_eq_length_filter, List.range_eq_range']
      exact congrArg List.length hnone
    exact absurd hzero h
  · rw [hnext]
    exact ⟨ht, henabled⟩

theorem valid_nextPosition (h : config.enabledTemplateCount ≠ 0) :
    config.Valid n (config.nextPosition p) := by
  rw [nextPosition]
  rcases findNext_spec config (p.2 + 1) with ⟨-, hnext⟩ | ⟨t', ht', -, henabled, hnext, -⟩
  · simp only [hnext, lt_irrefl, if_false]
    exact valid_first h (p.1 + 1)
  · simp only [hnext, if_pos ht']
    exact fun _ => ⟨ht', henabled⟩

/-! ## The successor -/

theorem mem_pairsFrom : q ∈ config.pairsFrom n p ↔
    q ∈ config.pairs n ∧ (p.1 = q.1 ∧ p.2 ≤ q.2 ∨ p.1 < q.1) := by
  rw [mem_pairs]
  by_cases hp : p.1 < n
  · simp only [pairsFrom, if_pos hp, List.mem_append, List.mem_flatMap, List.mem_range'_1, mem_row,
      mem_enabledFrom]
    constructor
    · rintro (⟨hc, ⟨hle, ht⟩, henabled⟩ | ⟨c, ⟨hlo, hhi⟩, rfl, ⟨-, ht⟩, henabled⟩)
      · exact ⟨⟨hc ▸ hp, ht, henabled⟩, .inl ⟨hc.symm, hle⟩⟩
      · exact ⟨⟨by omega, ht, henabled⟩, .inr hlo⟩
    · rintro ⟨⟨hc, ht, henabled⟩, ⟨heq, hle⟩ | hlt⟩
      · exact .inl ⟨heq.symm, ⟨hle, ht⟩, henabled⟩
      · exact .inr ⟨q.1, ⟨hlt, by omega⟩, rfl, ⟨Nat.zero_le _, ht⟩, henabled⟩
  · rw [pairsFrom_of_le (not_lt.mp hp)]
    simp only [List.not_mem_nil, false_iff]
    omega

/-- `q` is the next pair of the search space after `p`. -/
def IsNext (config : ScanConfig) (n : ℕ) (p q : Position) : Prop :=
  q ∈ config.pairs n ∧ Before p q ∧ ∀ r ∈ config.pairs n, Before p r → r = q ∨ Before q r

/-- There is no pair after `p`. -/
def IsLast (config : ScanConfig) (n : ℕ) (p : Position) : Prop :=
  ∀ r ∈ config.pairs n, ¬Before p r

theorem before_iff (hp : p.1 < n) :
    q ∈ config.pairs n ∧ Before p q ↔ q ∈ config.pairsFrom n (config.nextPosition p) := by
  rw [← pairsFrom_succ hp, mem_pairsFrom, Before]
  refine and_congr_right' ?_
  omega

/-- **A step goes to the next pair**, or past the end if there is none. -/
theorem nextPosition_spec (henabled : config.enabledTemplateCount ≠ 0) (hp : p.1 < n) :
    (config.nextPosition p).1 < n ∧ config.IsNext n p (config.nextPosition p) ∨
      n ≤ (config.nextPosition p).1 ∧ config.IsLast n p := by
  rcases lt_or_ge (config.nextPosition p).1 n with hlt | hge
  · have hcons := pairsFrom_cons hlt (valid_nextPosition henabled)
    have hmem := (before_iff hp).mpr (hcons ▸ List.mem_cons_self)
    refine .inl ⟨hlt, hmem.1, hmem.2, fun r hr hbefore => ?_⟩
    have hfrom := (before_iff hp).mp ⟨hr, hbefore⟩
    rcases mem_pairsFrom.mp hfrom with ⟨-, ⟨hfst, hle⟩ | hlt'⟩
    · rcases hle.eq_or_lt with heq | hlt'
      · exact .inl (Prod.ext hfst.symm heq.symm)
      · exact .inr (.inr ⟨hfst, hlt'⟩)
    · exact .inr (.inl hlt')
  · refine .inr ⟨hge, fun r hr hbefore => ?_⟩
    have hfrom := (before_iff hp).mp ⟨hr, hbefore⟩
    rw [pairsFrom_of_le hge] at hfrom
    exact List.not_mem_nil hfrom

theorem isLast_of_le (hp : n ≤ p.1) : config.IsLast n p := by
  intro r hr hbefore
  have hlt := (mem_pairs.mp hr).1
  rcases hbefore with h | h <;> omega

theorem isLast_of_none (h : config.findNextEnabledTemplateIndex 0 = templateCount) :
    config.IsLast n p := by
  intro r hr _
  have hmem := (mem_pairs.mp hr).2
  rcases findNext_spec config 0 with ⟨hnone, -⟩ | ⟨t, ht, -, -, hnext, -⟩
  · have hin := @mem_enabledFrom config 0 r
    rw [hnone] at hin
    exact List.not_mem_nil (hin.mpr ⟨⟨Nat.zero_le _, hmem.1⟩, hmem.2⟩)
  · omega

theorem enabledTemplateCount_ne (h : config.findNextEnabledTemplateIndex t < templateCount) :
    config.enabledTemplateCount ≠ 0 := by
  intro hzero
  rcases findNext_spec config t with ⟨-, hnext⟩ | ⟨t', ht', -, henabled, -, -⟩
  · omega
  · rw [enabledTemplateCount, List.countP_eq_zero] at hzero
    exact hzero t' (List.mem_range.mpr ht') henabled

variable (config n) in
/-- **The position after a crash**: the next pair, and false exactly if there is none. -/
theorem advancePositionAfterCrash_spec (p : Position) :
    (config.advancePositionAfterCrash n p).1 = true ∧ p.1 < n ∧
        (config.advancePositionAfterCrash n p).2 = config.nextPosition p ∧
        config.IsNext n p (config.nextPosition p) ∨
      (config.advancePositionAfterCrash n p).1 = false ∧ config.IsLast n p := by
  by_cases hp : p.1 < n
  swap
  · refine .inr ⟨?_, isLast_of_le (not_lt.mp hp)⟩
    rw [advancePositionAfterCrash]
    split
    · simpa using not_lt.mp hp
    · rw [if_pos (by omega)]
  rw [advancePositionAfterCrash]
  by_cases hnext : config.findNextEnabledTemplateIndex (p.2 + 1) < templateCount
  · have hposition : config.nextPosition p = (p.1, config.findNextEnabledTemplateIndex (p.2 + 1)) :=
      if_pos hnext
    have hspec := nextPosition_spec (enabledTemplateCount_ne hnext) hp
    rw [hposition] at hspec ⊢
    refine .inl ⟨by simp [hnext, hp], hp, by simp [hnext], ?_⟩
    exact (hspec.resolve_right fun h => absurd h.1 (not_le.mpr hp)).2
  have hposition : config.nextPosition p = (p.1 + 1, config.findNextEnabledTemplateIndex 0) :=
    if_neg hnext
  rw [if_neg hnext]
  by_cases hend : p.1 + 1 ≥ n
  · rw [if_pos hend]
    refine .inr ⟨rfl, ?_⟩
    by_cases hfirst : config.findNextEnabledTemplateIndex 0 < templateCount
    · have hspec := nextPosition_spec (enabledTemplateCount_ne hfirst) hp
      rw [hposition] at hspec
      exact (hspec.resolve_left fun h => absurd h.1 (not_lt.mpr hend)).2
    · refine isLast_of_none ?_
      rcases findNext_spec config 0 with ⟨-, h⟩ | ⟨t, ht, -, -, h, -⟩
      · exact h
      · omega
  · rw [if_neg hend]
    rcases findNext_spec config 0 with ⟨-, hfirst⟩ | ⟨t, ht, -, -, hfirst, -⟩
    · exact .inr ⟨by simp [hfirst], isLast_of_none hfirst⟩
    · have hspec := nextPosition_spec (enabledTemplateCount_ne (hfirst ▸ ht)) hp
      rw [hposition] at hspec ⊢
      refine .inl ⟨by simp [hfirst, ht], hp, rfl, ?_⟩
      exact (hspec.resolve_right fun h => absurd h.1 hend).2

end ScanConfig

/-! ## What a call keeps -/

/-- The address and the template that a result names. -/
def ScanResult.key (r : ScanResult) : Option (Address × PatchTemplateKind) :=
  some (r.address, r.templateKind)

/-- What a result of the test at `p` names. -/
def keyAt (cs : List Candidate) (p : Position) : Option (Address × PatchTemplateKind) :=
  cs[p.1]?.map fun c => (c.address, templateOrder p.2)

/-- The tests of which a result was recorded. -/
def System.kept (s : System) : List Position := (s.tested.filter Prod.snd).map Prod.fst

/-- A manifest of the scan of `cs`, at a position of the search space or at its end. -/
structure Saved (config : ScanConfig) (cs : List Candidate) (m : ManifestData) : Prop where
  scanConfig : m.config = config
  candidates : m.candidates = cs
  valid : config.Valid cs.length m.position

/-- A scan of `cs` that began at the position `first` with the results `base`. -/
structure Covers (config : ScanConfig) (cs : List Candidate) (first : Position)
    (base : List (Option (Address × PatchTemplateKind))) (s : System) : Prop where
  enabled : config.enabledTemplateCount ≠ 0
  scanConfig : s.finder.scanConfig = config
  candidates : s.finder.candidates = cs
  valid : config.Valid cs.length s.finder.position
  tested : s.tested.map Prod.fst ++ config.pairsFrom cs.length s.finder.position =
    config.pairsFrom cs.length first
  results : (s.finder.results.map ScanResult.key).Perm (base ++ s.kept.map (keyAt cs))
  testing : s.finder.phase = .none ∨ s.finder.phase = .requestLoad ∨
    s.finder.candidateIndex < cs.length
  finished : s.finder.state = .finished → cs.length ≤ s.finder.candidateIndex
  manifests : ∀ m ∈ s.manifests, Saved config cs m

/-- The fields of which `Covers` speaks, but the phase and the state. -/
structure SameScan (s s' : System) : Prop where
  scanConfig : s'.finder.scanConfig = s.finder.scanConfig
  candidates : s'.finder.candidates = s.finder.candidates
  position : s'.finder.position = s.finder.position
  tested : s'.tested = s.tested
  results : s'.finder.results = s.finder.results
  manifests : s'.manifests = s.manifests

/-- The same fields with the phase and the state. -/
structure SameState (s s' : System) : Prop extends SameScan s s' where
  phase : s'.finder.phase = s.finder.phase
  state : s'.finder.state = s.finder.state

namespace SameState

theorem trans {s s' s'' : System} (h : SameState s s') (h' : SameState s' s'') :
    SameState s s'' :=
  ⟨⟨h'.scanConfig.trans h.scanConfig, h'.candidates.trans h.candidates, h'.position.trans h.position,
    h'.tested.trans h.tested, h'.results.trans h.results, h'.manifests.trans h.manifests⟩,
    h'.phase.trans h.phase, h'.state.trans h.state⟩

theorem restorePatchedInstructions (s : System) : SameState s s.restorePatchedInstructions := by
  unfold System.restorePatchedInstructions
  split
  · exact ⟨⟨rfl, rfl, rfl, rfl, rfl, rfl⟩, rfl, rfl⟩
  · exact ⟨⟨rfl, rfl, rfl, rfl, rfl, rfl⟩, rfl, rfl⟩

theorem restoreRuntimeOverrides (s : System) : SameState s s.restoreRuntimeOverrides :=
    ⟨⟨rfl, rfl, rfl, rfl, rfl, rfl⟩, rfl, rfl⟩

theorem restore (s : System) : SameState s s.restore :=
  (restorePatchedInstructions s).trans (restoreRuntimeOverrides _)

theorem overrideTurbo (s : System) : SameState s s.overrideTurbo := by
  unfold System.overrideTurbo
  split
  · exact ⟨⟨rfl, rfl, rfl, rfl, rfl, rfl⟩, rfl, rfl⟩
  · exact ⟨⟨rfl, rfl, rfl, rfl, rfl, rfl⟩, rfl, rfl⟩

theorem overrideMute (s : System) : SameState s s.overrideMute := by
  unfold System.overrideMute
  split
  · exact ⟨⟨rfl, rfl, rfl, rfl, rfl, rfl⟩, rfl, rfl⟩
  · exact ⟨⟨rfl, rfl, rfl, rfl, rfl, rfl⟩, rfl, rfl⟩

theorem applyRuntimeOverrides (s : System) : SameState s s.applyRuntimeOverrides := by
  unfold System.applyRuntimeOverrides
  split
  · exact ⟨⟨rfl, rfl, rfl, rfl, rfl, rfl⟩, rfl, rfl⟩
  · exact ((overrideTurbo s).trans (overrideMute _)).trans ⟨⟨rfl, rfl, rfl, rfl, rfl, rfl⟩, rfl, rfl⟩

theorem sampled (s : System) (services : Services) : SameState s (s.sampled services) := by
  simp only [System.sampled]
  split
  · exact ⟨⟨rfl, rfl, rfl, rfl, rfl, rfl⟩, rfl, rfl⟩
  · exact ⟨⟨rfl, rfl, rfl, rfl, rfl, rfl⟩, rfl, rfl⟩

end SameState

@[simp] theorem System.writeManifest_finder (s : System) (services : Services) :
    (s.writeManifest services).finder = s.finder := by
  unfold System.writeManifest
  split
  · rfl
  · rfl

theorem System.writeManifest_setPhase (s : System) (services : Services) (phase : ScanPhase) :
    (s.writeManifest services).setPhase phase = (s.setPhase phase).writeManifest services := by
  unfold System.writeManifest
  split
  · rfl
  · rfl

namespace Covers

variable {config : ScanConfig} {cs : List Candidate} {first : Position}
  {base : List (Option (Address × PatchTemplateKind))} {s s' : System} {services : Services}

theorem of_sameScan (h : Covers config cs first base s) (hsame : SameScan s s')
    (htesting : s'.finder.phase = .none ∨ s'.finder.phase = .requestLoad ∨
      s'.finder.candidateIndex < cs.length)
    (hfinished : s'.finder.state = .finished → cs.length ≤ s'.finder.candidateIndex) :
    Covers config cs first base s' where
  enabled := h.enabled
  scanConfig := hsame.scanConfig.trans h.scanConfig
  candidates := hsame.candidates.trans h.candidates
  valid := hsame.position ▸ h.valid
  tested := by rw [hsame.tested, hsame.position]; exact h.tested
  results := by rw [hsame.results, System.kept, hsame.tested]; exact h.results
  testing := htesting
  finished := hfinished
  manifests := hsame.manifests ▸ h.manifests

theorem of_same (h : Covers config cs first base s) (hsame : SameState s s') :
    Covers config cs first base s' := by
  have hindex : s'.finder.candidateIndex = s.finder.candidateIndex :=
    congrArg Prod.fst hsame.position
  refine h.of_sameScan hsame.toSameScan ?_ ?_
  · rw [hsame.phase, hindex]
    exact h.testing
  · rw [hsame.state, hindex]
    exact h.finished

theorem saved (h : Covers config cs first base s) : Saved config cs s.finder.manifest :=
  ⟨h.scanConfig, h.candidates, h.valid⟩

theorem writeManifest (h : Covers config cs first base s) (services : Services) :
    Covers config cs first base (s.writeManifest services) := by
  unfold System.writeManifest
  split
  · exact { h with manifests := List.forall_mem_cons.mpr ⟨h.saved, h.manifests⟩ }
  · exact h

/-- **The end of a test**: one test more, and at most one result. -/
theorem endTest (h : Covers config cs first base s) {candidate : Candidate}
    (hcandidate : cs[s.finder.candidateIndex]? = some candidate)
    (hfinished : s.finder.state ≠ .finished) (result : Option ScanResult)
    (hresult : ∀ r ∈ result, r.address = candidate.address ∧
      r.templateKind = templateOrder s.finder.templateIndex)
    (phase : ScanPhase) (hphase : phase = .none ∨ phase = .requestLoad)
    (samples : List FrameStats) :
    Covers config cs first base { s.endTest result with
      finder := { (s.endTest result).finder with phase := phase, settleSamples := samples } } := by
  have hlt : s.finder.candidateIndex < cs.length := (List.getElem?_eq_some_iff.mp hcandidate).1
  have hposition : (s.endTest result).finder.position = config.nextPosition s.finder.position := by
    rw [← h.scanConfig]
    rfl
  constructor
  case enabled => exact h.enabled
  case scanConfig => exact h.scanConfig
  case candidates => exact h.candidates
  case valid =>
    change config.Valid cs.length (s.endTest result).finder.position
    rw [hposition]
    exact ScanConfig.valid_nextPosition h.enabled
  case tested =>
    change (s.endTest result).tested.map Prod.fst ++
      config.pairsFrom cs.length (s.endTest result).finder.position = _
    have htested : (s.endTest result).tested = s.tested ++ [(s.finder.position, result.isSome)] := rfl
    rw [hposition, ← h.tested, ScanConfig.pairsFrom_cons hlt h.valid, htested, List.map_append,
      List.append_assoc]
    rfl
  case results =>
    cases result with
    | none =>
      have hkept : (s.endTest none).kept = s.kept := by
        simp [System.kept, System.endTest]
      change (s.finder.results.map ScanResult.key).Perm (base ++ (s.endTest none).kept.map (keyAt cs))
      rw [hkept]
      exact h.results
    | some r =>
      have hkept : (s.endTest (some r)).kept = s.kept ++ [s.finder.position] := by
        simp [System.kept, System.endTest]
      have hkey : keyAt cs s.finder.position = r.key := by
        have hr := hresult r rfl
        rw [keyAt, Finder.position, hcandidate, ScanResult.key, hr.1, hr.2]
        rfl
      change ((appendResult s.finder.results r).map ScanResult.key).Perm
        (base ++ (s.endTest (some r)).kept.map (keyAt cs))
      rw [hkept, List.map_append, List.map_singleton, hkey, ← List.append_assoc]
      have hsort : (appendResult s.finder.results r).Perm (s.finder.results ++ [r]) :=
        List.mergeSort_perm _ _
      refine (hsort.map ScanResult.key).trans ?_
      rw [List.map_append]
      exact h.results.append_right _
  case testing => exact hphase.imp_right .inl
  case finished => exact fun hf => absurd hf hfinished
  case manifests => exact h.manifests

theorem finish (h : Covers config cs first base s) (hend : cs.length ≤ s.finder.candidateIndex) :
    Covers config cs first base (s.finish services) := by
  have hrestore := h.of_same (SameState.restore s)
  have hindex : s.restore.finder.candidateIndex = s.finder.candidateIndex :=
    congrArg Prod.fst (SameState.restore s).position
  refine Covers.writeManifest ?_ services
  exact hrestore.of_sameScan ⟨rfl, rfl, rfl, rfl, rfl, rfl⟩ hrestore.testing
    fun _ => by rw [← hindex] at hend; exact hend

theorem requestLoad (h : Covers config cs first base s) (hfinished : s.finder.state ≠ .finished) :
    Covers config cs first base (s.requestLoad services).1 := by
  unfold System.requestLoad
  cases hcandidate : s.finder.candidates[s.finder.candidateIndex]? with
  | none =>
    rw [h.candidates] at hcandidate
    exact h.finish (List.getElem?_eq_none_iff.mp hcandidate)
  | some candidate =>
    rw [h.candidates] at hcandidate
    have hlt : s.finder.candidateIndex < cs.length := (List.getElem?_eq_some_iff.mp hcandidate).1
    have hlast : Covers config cs first base { s with finder := { s.finder with
        hasLastTestedPosition := true
        lastTestedAddress := candidate.address
        lastTestedTemplateIndex := s.finder.templateIndex } } :=
      h.of_sameScan ⟨rfl, rfl, rfl, rfl, rfl, rfl⟩ h.testing h.finished
    have hwritten := hlast.writeManifest services
    refine hwritten.of_sameScan ⟨rfl, rfl, rfl, rfl, rfl, rfl⟩ (.inr (.inr ?_)) fun hf => ?_
    · simpa using hlt
    · exact absurd (by simpa using hf) hfinished

/-- A test that is given up is the last one that ended, and the next one is begun. -/
theorem timeout (h : Covers config cs first base s) {candidate : Candidate}
    (hcandidate : cs[s.finder.candidateIndex]? = some candidate)
    (hfinished : s.finder.state ≠ .finished) :
    Covers config cs first base (s.timeout services candidate).1 := by
  have hend := h.endTest hcandidate hfinished (some (s.result candidate ⟨0, 0, 0, 0⟩ true))
    (by rintro r ⟨⟩; exact ⟨rfl, rfl⟩) .requestLoad (.inr rfl) s.finder.settleSamples
  simp only [System.timeout, System.writeManifest_setPhase]
  refine (hend.writeManifest services).requestLoad ?_
  rw [System.writeManifest_finder]
  exact hfinished

theorem applyPatch (h : Covers config cs first base s) {candidate : Candidate}
    (hcandidate : cs[s.finder.candidateIndex]? = some candidate)
    (hfinished : s.finder.state ≠ .finished) :
    Covers config cs first base (s.applyPatch services candidate).1 := by
  unfold System.applyPatch
  split
  · exact h.timeout hcandidate hfinished
  · exact h.of_sameScan ⟨rfl, rfl, rfl, rfl, rfl, rfl⟩
      (.inr (.inr (List.getElem?_eq_some_iff.mp hcandidate).1)) h.finished

theorem waitingForLoad (h : Covers config cs first base s) {candidate : Candidate}
    (hcandidate : cs[s.finder.candidateIndex]? = some candidate)
    (hfinished : s.finder.state ≠ .finished) :
    Covers config cs first base (s.waitingForLoad services candidate).1 := by
  unfold System.waitingForLoad
  split
  · refine Covers.applyPatch ?_ hcandidate hfinished
    exact h.of_sameScan ⟨rfl, rfl, rfl, rfl, rfl, rfl⟩
      (.inr (.inr (List.getElem?_eq_some_iff.mp hcandidate).1)) h.finished
  · split
    · exact h.timeout hcandidate hfinished
    · exact h

theorem measuredResult_names {s : System} {candidate : Candidate} :
    ∀ r ∈ s.measuredResult candidate, r.address = candidate.address ∧
      r.templateKind = templateOrder s.finder.templateIndex := by
  intro r hr
  unfold System.measuredResult at hr
  split at hr
  · cases hr
    exact ⟨rfl, rfl⟩
  · split at hr
    · cases hr
      exact ⟨rfl, rfl⟩
    · cases hr

theorem finishLast (h : Covers config cs first base (s.setPhase .none))
    (hend : s.finder.candidates.length ≤ s.finder.candidateIndex) :
    Covers config cs first base (s.finishLast services) := by
  have hrestore := (SameState.restore s).toSameScan
  refine Covers.writeManifest ?_ services
  refine h.of_sameScan ⟨hrestore.scanConfig, hrestore.candidates,
    hrestore.position, hrestore.tested, hrestore.results, hrestore.manifests⟩ (.inl rfl) fun _ => ?_
  have hcandidates : s.finder.candidates = cs := h.candidates
  have hindex : s.restore.finder.candidateIndex = s.finder.candidateIndex :=
    congrArg Prod.fst hrestore.position
  rw [hcandidates, ← hindex] at hend
  exact hend

theorem finalize (h : Covers config cs first base s) {candidate : Candidate}
    (hcandidate : cs[s.finder.candidateIndex]? = some candidate)
    (hfinished : s.finder.state ≠ .finished) :
    Covers config cs first base (s.finalize services candidate).1 := by
  simp only [System.finalize]
  split
  next hend =>
    exact Covers.finishLast (h.endTest hcandidate hfinished _ measuredResult_names .none (.inl rfl)
      []) hend
  next hlt =>
    have hnext := h.endTest hcandidate hfinished _ measuredResult_names .requestLoad (.inr rfl) []
    refine (hnext.writeManifest services).requestLoad ?_
    rw [System.writeManifest_finder]
    exact hfinished

theorem waitingForSettle (h : Covers config cs first base s) {candidate : Candidate}
    (hcandidate : cs[s.finder.candidateIndex]? = some candidate)
    (hfinished : s.finder.state ≠ .finished) :
    Covers config cs first base (s.waitingForSettle services candidate).1 := by
  have hsame := SameState.sampled s services
  have hsampled := h.of_same hsame
  have hindex : (s.sampled services).finder.candidateIndex = s.finder.candidateIndex :=
    congrArg Prod.fst hsame.position
  simp only [System.waitingForSettle]
  split
  · have hset : Covers config cs first base ((s.sampled services).setPhase .finalize) :=
      hsampled.of_sameScan ⟨rfl, rfl, rfl, rfl, rfl, rfl⟩
        (.inr (.inr (hindex ▸ (List.getElem?_eq_some_iff.mp hcandidate).1))) hsampled.finished
    refine hset.finalize ?_ ?_
    · change cs[(s.sampled services).finder.candidateIndex]? = some candidate
      rw [hindex]
      exact hcandidate
    · change (s.sampled services).finder.state ≠ .finished
      rw [hsame.state]
      exact hfinished
  · exact hsampled

/-- **A call of the state machine keeps the cover**, and has its candidate. -/
theorem advancePhase (h : Covers config cs first base s) (hfinished : s.finder.state ≠ .finished) :
    ∃ r, s.advancePhase services = some r ∧ Covers config cs first base r.1 := by
  unfold System.advancePhase
  have htesting : s.finder.phase = .none ∨ s.finder.phase = .requestLoad ∨
      ∃ candidate, s.finder.candidates[s.finder.candidateIndex]? = some candidate ∧
        cs[s.finder.candidateIndex]? = some candidate := by
    rcases h.testing with hphase | hphase | hlt
    · exact .inl hphase
    · exact .inr (.inl hphase)
    · refine .inr (.inr ⟨_, ?_, List.getElem?_eq_getElem hlt⟩)
      rw [h.candidates]
      exact List.getElem?_eq_getElem hlt
  rcases htesting with hphase | hphase | ⟨candidate, hcandidate, hcs⟩
  · rw [hphase]
    exact ⟨_, rfl, h.requestLoad hfinished⟩
  · rw [hphase]
    exact ⟨_, rfl, h.requestLoad hfinished⟩
  · rw [hcandidate]
    cases s.finder.phase with
    | none => exact ⟨_, rfl, h.requestLoad hfinished⟩
    | requestLoad => exact ⟨_, rfl, h.requestLoad hfinished⟩
    | waitingForLoad => exact ⟨_, rfl, h.waitingForLoad hcs hfinished⟩
    | applyPatch => exact ⟨_, rfl, h.applyPatch hcs hfinished⟩
    | waitingForSettle => exact ⟨_, rfl, h.waitingForSettle hcs hfinished⟩
    | finalize => exact ⟨_, rfl, h.finalize hcs hfinished⟩

theorem advanceOther (h : Covers config cs first base s) :
    Covers config cs first base (s.advanceOther services).1 := by
  have hunpatch : Covers config cs first base s.unpatch := by
    unfold System.unpatch
    split
    · have hpatched := h.of_same (SameState.restorePatchedInstructions s)
      exact hpatched.of_sameScan ⟨rfl, rfl, rfl, rfl, rfl, rfl⟩ (.inr (.inl rfl)) hpatched.finished
    · exact h
  have hoverrides := hunpatch.of_same (SameState.restoreRuntimeOverrides _)
  simp only [System.advanceOther]
  split
  · exact hoverrides
  · exact hoverrides.writeManifest services

theorem advanceScan (h : Covers config cs first base s) (services : Services) :
    ∃ r, s.advanceScan services = some r ∧ Covers config cs first base r.1 := by
  unfold System.advanceScan
  split
  · exact ⟨_, rfl, h.advanceOther⟩
  next hscanning =>
    have hscanning := not_not.mp hscanning
    have hsame := SameState.applyRuntimeOverrides s
    have happly := h.of_same hsame
    have hfinished : s.applyRuntimeOverrides.finder.state ≠ .finished := by
      rw [hsame.state, hscanning]
      decide
    simp only
    split
    next hnone =>
      refine ⟨_, rfl, happly.finish ?_⟩
      rcases hnone with hnone | hnone
      · rw [happly.candidates] at hnone
        simp [hnone]
      · rw [happly.scanConfig] at hnone
        exact absurd hnone h.enabled
    next => exact happly.advancePhase hfinished

/-- **Every call keeps the cover.** -/
theorem call (h : Covers config cs first base s) (c : Call) :
    ∃ s', s.call c = some s' ∧ Covers config cs first base s' := by
  cases c with
  | advance services =>
    obtain ⟨r, hr, hcovers⟩ := h.advanceScan services
    exact ⟨r.1, by rw [System.call, hr]; rfl, hcovers⟩
  | pause =>
    refine ⟨_, rfl, ?_⟩
    unfold System.pauseScan
    split
    · exact h.of_sameScan ⟨rfl, rfl, rfl, rfl, rfl, rfl⟩ h.testing fun hf => by cases hf
    · exact h
  | resume =>
    refine ⟨_, rfl, ?_⟩
    unfold System.resumeScan
    split
    · exact h.of_sameScan ⟨rfl, rfl, rfl, rfl, rfl, rfl⟩ h.testing fun hf => by cases hf
    · exact h
  | stop =>
    exact ⟨_, rfl, h.of_sameScan ⟨rfl, rfl, rfl, rfl, rfl, rfl⟩ (.inl rfl) fun hf => by cases hf⟩
  | notify => exact ⟨_, rfl, h.of_same ⟨⟨rfl, rfl, rfl, rfl, rfl, rfl⟩, rfl, rfl⟩⟩
  | load => exact ⟨_, rfl, h.of_same ⟨⟨rfl, rfl, rfl, rfl, rfl, rfl⟩, rfl, rfl⟩⟩

end Covers

/-! ## The starts -/

theorem SameState.captureReferenceSavestate (s : System) (captured : Bool) :
    SameState s (s.captureReferenceSavestate captured) := by
  unfold System.captureReferenceSavestate
  split
  · exact ⟨⟨rfl, rfl, rfl, rfl, rfl, rfl⟩, rfl, rfl⟩
  · exact ⟨⟨rfl, rfl, rfl, rfl, rfl, rfl⟩, rfl, rfl⟩

variable {config : ScanConfig} {cs : List Candidate} {s s' : System} {services : Services}

theorem Covers.writeFirstManifest {first : Position}
    {base : List (Option (Address × PatchTemplateKind))} (h : Covers config cs first base s)
    (hstart : s.writeFirstManifest services = (s', true)) : Covers config cs first base s' := by
  unfold System.writeFirstManifest at hstart
  split at hstart
  · cases hstart
    exact h.writeManifest services
  · cases hstart

/-- A fresh scan begins at the first enabled template of the first candidate. -/
theorem covers_startScan {captured : Bool} {saved : Option ManifestData}
    (hsaved : ∀ m ∈ saved, ¬m.Resumable s.gameId config)
    (h : s.startScan services config saved (some cs) captured = (s', true)) :
    Covers config cs (0, config.findNextEnabledTemplateIndex 0) [] s' := by
  unfold System.startScan at h
  split at h
  · cases h
  have hfilter : saved.filter (fun m => m.Resumable s.gameId config) = none :=
    Option.filter_eq_none_iff.mpr fun m hm => by simpa using hsaved m hm
  simp only [hfilter, System.startFreshScan] at h
  split at h
  · cases h
  next henabled =>
    cases cs with
    | nil => cases h
    | cons c cs =>
      have hfresh : Covers config (c :: cs) (0, config.findNextEnabledTemplateIndex 0) []
          ((s.prepared config).fresh (c :: cs)) :=
        ⟨henabled, rfl, rfl, ScanConfig.valid_first henabled 0, rfl, List.Perm.refl _, .inr (.inl rfl),
          (fun hf => nomatch hf), fun m hm => nomatch hm⟩
      have happly := hfresh.of_same (SameState.applyRuntimeOverrides _)
      simp only [System.beginScan] at h
      split at h
      · have hcapture := happly.of_same (SameState.captureReferenceSavestate _ captured)
        split at h
        · exact hcapture.writeFirstManifest h
        · cases h
      · exact happly.writeFirstManifest h

/-! ## Crashes -/

/-- **The test of a manifest is skipped**: the next one comes first, if there is one. -/
theorem restoredPosition_spec {m : ManifestData} (hm : Saved config cs m)
    (hp : m.position.1 < cs.length) :
    m.restoredPosition = some (config.nextPosition m.position) ∧
        config.IsNext cs.length m.position (config.nextPosition m.position) ∨
      m.restoredPosition = none ∧ config.IsLast cs.length m.position := by
  obtain ⟨ht, henabled⟩ := hm.valid hp
  have hnext : config.findNextEnabledTemplateIndex m.nextTemplateIndex = m.nextTemplateIndex :=
    (ScanConfig.enabledFrom_of_enabled ht henabled).2
  have hskipped : m.skipped = some m.position := by
    have hinside : ¬(m.nextCandidateIndex ≥ m.candidates.length ∨
        m.nextTemplateIndex ≥ templateCount) := by
      rw [hm.candidates]
      exact not_or.mpr ⟨not_le.mpr hp, not_le.mpr ht⟩
    simp only [ManifestData.skipped, hm.scanConfig, hnext, if_neg hinside]
    rfl
  rw [ManifestData.restoredPosition, hskipped, hm.scanConfig, hm.candidates, Option.bind_some]
  rcases ScanConfig.advancePositionAfterCrash_spec config cs.length m.position with
    ⟨hfound, -, hposition, hisNext⟩ | ⟨hfound, hlast⟩
  · exact .inl ⟨by simp [hfound, hposition], hisNext⟩
  · exact .inr ⟨by simp [hfound], hlast⟩

theorem covers_restoreSession {m : ManifestData} (hm : Saved config cs m)
    (henabled : config.enabledTemplateCount ≠ 0) (hp : m.position.1 < cs.length)
    (h : s.restoreSession services (some m) = (s', true)) :
    Covers config cs (config.nextPosition m.position) (m.results.map ScanResult.key) s' := by
  unfold System.restoreSession at h
  split at h
  · cases h
  next m' hfilter =>
    obtain ⟨hm', -⟩ := Option.filter_eq_some_iff.mp hfilter
    cases hm'
    rcases restoredPosition_spec hm hp with ⟨hposition, hnext⟩ | ⟨hposition, -⟩
    · rw [hposition] at h
      have hrestored : Covers config cs (config.nextPosition m.position)
          (m.results.map ScanResult.key) (s.restoredTo m (config.nextPosition m.position)) :=
        ⟨henabled, hm.scanConfig, hm.candidates, ScanConfig.valid_nextPosition henabled, rfl,
          by simp [System.kept, System.restoredTo], .inr (.inl rfl), (fun hf => nomatch hf),
          fun m hm => nomatch hm⟩
      exact (hrestored.of_same (SameState.applyRuntimeOverrides _)).writeFirstManifest h
    · rw [hposition] at h
      cases h

/-! ## Runs -/

open Transition

/-- In every run from `s` the tests of `later` are done one after the other. -/
def Tests (later : List Position) (s : System) : Prop :=
  ∀ s', Reach System.call anyStep s s' → (∀ c, (s'.call c).isSome) ∧
    s'.tested.map Prod.fst <+: later ∧
    (s'.finder.state = .finished → s'.tested.map Prod.fst = later)

theorem Covers.run {first : Position} {base : List (Option (Address × PatchTemplateKind))}
    (h : Covers config cs first base s) (hrun : Reach System.call anyStep s s') :
    Covers config cs first base s' := by
  refine hrun.invariant h fun t c t' ht _ hcall => ?_
  obtain ⟨t'', hcall', hcovers⟩ := ht.call c
  rw [hcall, Option.some_inj] at hcall'
  exact hcall' ▸ hcovers

theorem Covers.tests {first : Position} {base : List (Option (Address × PatchTemplateKind))}
    (h : Covers config cs first base s) : Tests (config.pairsFrom cs.length first) s := by
  intro s' hrun
  have hcovers := h.run hrun
  refine ⟨fun c => ?_, ⟨_, hcovers.tested⟩, fun hf => ?_⟩
  · obtain ⟨t, ht, -⟩ := hcovers.call c
    rw [ht]
    rfl
  · have htested := hcovers.tested
    rwa [ScanConfig.pairsFrom_of_le (hcovers.finished hf), List.append_nil] at htested

theorem ScanConfig.pairsFrom_sorted (config : ScanConfig) (n : ℕ) (p : Position) :
    (config.pairsFrom n p).Pairwise ScanConfig.Before := by
  rw [ScanConfig.pairsFrom]
  split
  · rw [List.pairwise_append]
    refine ⟨ScanConfig.row_sorted _ _, ScanConfig.rows_sorted _ List.pairwise_lt_range', ?_⟩
    intro q hq r hr
    obtain ⟨c, hc, hr⟩ := List.mem_flatMap.mp hr
    have hlt := (List.mem_range'_1.mp hc).1
    refine .inl ?_
    rw [(ScanConfig.mem_row.mp hq).1, (ScanConfig.mem_row.mp hr).1]
    exact hlt
  · exact List.Pairwise.nil

/-! ### The last manifest -/

/-- The last manifest that was written has the current position. -/
def Current (s : System) : Prop := s.manifests.head?.map ManifestData.position = some s.finder.position

theorem current_writeManifest (h : services.writable = true) : Current (s.writeManifest services) := by
  simp [Current, System.writeManifest, h, Finder.manifest, ManifestData.position, Finder.position]

theorem Current.of_same (h : Current s) (hsame : SameScan s s') : Current s' := by
  rw [Current, hsame.manifests, hsame.position]
  exact h

theorem current_requestLoad (h : services.writable = true) :
    Current (s.requestLoad services).1 := by
  unfold System.requestLoad
  split
  · exact current_writeManifest h
  · exact (current_writeManifest h).of_same ⟨rfl, rfl, rfl, rfl, rfl, rfl⟩

theorem Current.advancePhase (hs : Current s) (h : services.writable = true)
    {r : System × Bool} (hr : s.advancePhase services = some r) : Current r.1 := by
  have hload : ∀ t : System, Current (t.requestLoad services).1 := fun t => current_requestLoad h
  have htimeout : ∀ (t : System) candidate, Current (t.timeout services candidate).1 :=
    fun t candidate => hload _
  have hpatch : ∀ (t : System) candidate, Current t → Current (t.applyPatch services candidate).1 := by
    intro t candidate ht
    unfold System.applyPatch
    split
    · exact htimeout t candidate
    · exact ht.of_same ⟨rfl, rfl, rfl, rfl, rfl, rfl⟩
  have hfinalize : ∀ (t : System) candidate, Current (t.finalize services candidate).1 := by
    intro t candidate
    simp only [System.finalize]
    split
    · exact current_writeManifest h
    · exact hload _
  unfold System.advancePhase at hr
  split at hr <;> cases hr
  · exact hload s
  · exact hload s
  · unfold System.waitingForLoad
    split
    · exact hpatch _ _ (hs.of_same ⟨rfl, rfl, rfl, rfl, rfl, rfl⟩)
    · split
      · exact htimeout s _
      · exact hs
  · exact hpatch s _ hs
  · simp only [System.waitingForSettle]
    split
    · exact hfinalize _ _
    · exact hs.of_same (SameState.sampled s services).toSameScan
  · exact hfinalize s _

/-- The manifest can be written in the call. -/
def Writes (_ : System) : Call → Prop
  | .advance services => services.writable = true
  | _ => True

/-- **The last manifest tells the current test** where manifests can be written. -/
theorem Current.call (hs : Current s) {c : Call} (h : Writes s c) (hcall : s.call c = some s') :
    Current s' := by
  cases c with
  | advance services =>
    obtain ⟨r, hr, rfl⟩ := Option.map_eq_some_iff.mp hcall
    unfold System.advanceScan at hr
    split at hr
    · cases hr
      simp only [System.advanceOther]
      split
      · have hunpatch : SameScan s s.unpatch := by
          unfold System.unpatch
          split
          · have hsame := (SameState.restorePatchedInstructions s).toSameScan
            exact ⟨hsame.scanConfig, hsame.candidates, hsame.position, hsame.tested, hsame.results,
              hsame.manifests⟩
          · exact ⟨rfl, rfl, rfl, rfl, rfl, rfl⟩
        exact (hs.of_same hunpatch).of_same (SameState.restoreRuntimeOverrides _).toSameScan
      · exact current_writeManifest h
    · simp only at hr
      split at hr
      · cases hr
        exact current_writeManifest h
      · exact (hs.of_same (SameState.applyRuntimeOverrides s).toSameScan).advancePhase h hr
  | pause =>
    cases hcall
    unfold System.pauseScan
    split
    · exact hs.of_same ⟨rfl, rfl, rfl, rfl, rfl, rfl⟩
    · exact hs
  | resume =>
    cases hcall
    unfold System.resumeScan
    split
    · exact hs.of_same ⟨rfl, rfl, rfl, rfl, rfl, rfl⟩
    · exact hs
  | stop =>
    cases hcall
    exact hs.of_same ⟨rfl, rfl, rfl, rfl, rfl, rfl⟩
  | notify =>
    cases hcall
    exact hs.of_same ⟨rfl, rfl, rfl, rfl, rfl, rfl⟩
  | load =>
    cases hcall
    exact hs.of_same ⟨rfl, rfl, rfl, rfl, rfl, rfl⟩

/-! ### The whole scan -/

/-- A session restored from the manifest does all tests after the one that the manifest tells. -/
def SkipsOne (config : ScanConfig) (cs : List Candidate) (m : ManifestData) : Prop :=
  ∀ (u u' : System) (services : Services), u.restoreSession services (some m) = (u', true) →
    ∃ later, (∀ p, p ∈ later ↔ p ∈ config.pairs cs.length ∧ ScanConfig.Before m.position p) ∧
      later.Pairwise ScanConfig.Before ∧ Tests later u'

theorem skipsOne {m : ManifestData} (hm : Saved config cs m)
    (henabled : config.enabledTemplateCount ≠ 0) (hp : m.position.1 < cs.length) :
    SkipsOne config cs m := by
  intro u u' services hrestore
  refine ⟨config.pairsFrom cs.length (config.nextPosition m.position), fun p => ?_,
    ScanConfig.pairsFrom_sorted _ _ _, (covers_restoreSession hm henabled hp hrestore).tests⟩
  exact (ScanConfig.before_iff hp).symm

/-- What is true of a scan of `cs` in the state `t`. -/
structure Scanned (config : ScanConfig) (cs : List Candidate) (t : System) : Prop where
  /-- Each recorded result is of a test of its own. -/
  kept : t.kept.Sublist (t.tested.map Prod.fst)
  results : (t.finder.results.map ScanResult.key).Perm (t.kept.map (keyAt cs))
  /-- A restored session goes to the next pair, and fails exactly if there is none. -/
  restored : ∀ m ∈ t.manifests, m.position.1 < cs.length →
    (m.restoredPosition = some (config.nextPosition m.position) ∧
        config.IsNext cs.length m.position (config.nextPosition m.position) ∨
      m.restoredPosition = none ∧ config.IsLast cs.length m.position) ∧ SkipsOne config cs m

theorem Covers.scanned {first : Position} (h : Covers config cs first [] s) :
    Scanned config cs s where
  kept := List.filter_sublist.map Prod.fst
  results := h.results
  restored m hm hp := ⟨restoredPosition_spec (h.manifests m hm) hp,
    skipsOne (h.manifests m hm) h.enabled hp⟩

theorem current_startScan {captured : Bool} {saved : Option ManifestData}
    (hsaved : ∀ m ∈ saved, ¬m.Resumable s.gameId config) (hwritable : services.writable = true)
    (h : s.startScan services config saved (some cs) captured = (s', true)) : Current s' := by
  unfold System.startScan at h
  split at h
  · cases h
  have hfilter : saved.filter (fun m => m.Resumable s.gameId config) = none :=
    Option.filter_eq_none_iff.mpr fun m hm => by simpa using hsaved m hm
  simp only [hfilter, System.startFreshScan] at h
  split at h
  · cases h
  · cases cs with
    | nil => cases h
    | cons c cs =>
      simp only [System.beginScan, System.writeFirstManifest, hwritable, if_true] at h
      split at h
      · split at h
        · cases h
          exact current_writeManifest hwritable
        · cases h
      · cases h
        exact current_writeManifest hwritable

/-- **The scan covers its search space.** The pairs are in lexicographic order; both steps of the
position go to the next one; a scan of `cs` does their tests one after the other, until it has done all
of them when it is finished; and a session that is restored from any manifest of it goes on with the
pair after the one of the manifest, which is the current one while manifests can be written. -/
theorem scan_covers {captured : Bool} {saved : Option ManifestData}
    (hsaved : ∀ m ∈ saved, ¬m.Resumable s.gameId config)
    (hstart : s.startScan services config saved (some cs) captured = (s', true)) :
    (config.pairs cs.length).Pairwise ScanConfig.Before ∧
      (∀ p, p ∈ config.pairs cs.length ↔
        p.1 < cs.length ∧ p.2 < templateCount ∧ config.enabledTemplates p.2 = true) ∧
      (∀ p, (config.advancePositionAfterCrash cs.length p).1 = true ∧
          config.IsNext cs.length p (config.advancePositionAfterCrash cs.length p).2 ∨
        (config.advancePositionAfterCrash cs.length p).1 = false ∧ config.IsLast cs.length p) ∧
      (∀ p : Position, p.1 < cs.length →
        (config.nextPosition p).1 < cs.length ∧ config.IsNext cs.length p (config.nextPosition p) ∨
          cs.length ≤ (config.nextPosition p).1 ∧ config.IsLast cs.length p) ∧
      Tests (config.pairs cs.length) s' ∧
      (∀ t, Reach System.call anyStep s' t → Scanned config cs t) ∧
      (services.writable = true → ∀ t, Reach System.call Writes s' t →
        t.manifests.head?.map ManifestData.position = some t.finder.position) := by
  have hcovers := covers_startScan hsaved hstart
  refine ⟨ScanConfig.pairs_sorted _, fun p => ScanConfig.mem_pairs, fun p => ?_,
    fun p => ScanConfig.nextPosition_spec hcovers.enabled, ?_, fun t ht => (hcovers.run ht).scanned,
    fun hwritable t ht => ?_⟩
  · rcases ScanConfig.advancePositionAfterCrash_spec config cs.length p with
      ⟨hfound, -, hposition, hnext⟩ | hlast
    · exact .inl ⟨hfound, by rw [hposition]; exact hnext⟩
    · exact .inr hlast
  · rw [← ScanConfig.pairsFrom_start]
    exact hcovers.tests
  · exact ht.invariant (current_startScan hsaved hwritable hstart)
      fun u c u' hu hok hcall => hu.call hok hcall

/-- A scan with the first and the third template. -/
def sampleConfig : ScanConfig where
  savestateSlot := 1
  settleFrames := 5
  minDrawCallIncrease := 1
  minTriangleIncrease := 0
  minObjectIncrease := 0
  timeoutSeconds := 3
  candidateLimit := 0
  startAddress := 0
  endAddress := 0
  turboDuringScan := true
  muteAudioDuringScan := true
  autoCaptureReferenceState := true
  symbolFilter := []
  enabledTemplates := fun i => i % 2 = 0

/-- A finder that has a baseline, and a guest whose memory is all zero. -/
def sampleSystem : System where
  finder :=
    { baseline := ⟨10, 0, 0, 0⟩
      baselineSet := true
      state := .idle
      phase := .none
      scanConfig := sampleConfig
      gameId := []
      candidates := []
      results := []
      candidateIndex := 0
      templateIndex := 0
      hasLastTestedPosition := false
      lastTestedAddress := 0
      lastTestedTemplateIndex := 0
      savedEntryInstruction := 0
      savedNextInstruction := 0
      patchedAddress := 0
      activeTemplate := .liR3True
      instructionPatched := false
      loadCompleted := false
      runtimeOverridesActive := false
      turboOverrideActive := false
      audioMuteOverrideActive := false
      settleFrameStart := 0
      lastSampledFrame := 0
      settleSamples := [] }
  gameId := ['G']
  memory := fun _ => 0
  savestate := fun _ => 0
  throttlerDisabled := false
  mutedCurrentRun := none
  mutedBelow := false
  tested := []
  manifests := []

/-- Everything that is asked of the host succeeds, and no time passes. -/
def sampleServices : Services where
  frameCounter := 0
  elapsed := 0
  latestStats := ⟨0, 0, 0, 0⟩
  readable := true
  writable := true

def sampleStart : System × Bool :=
  sampleSystem.startScan sampleServices sampleConfig none (some [⟨[], 0x80003100⟩, ⟨[], 0x80003200⟩])
    true

/-- Two candidates with two templates. -/
theorem scan_covers_sample : Tests [(0, 0), (0, 2), (1, 0), (1, 2)] sampleStart.1 := by
  have hstart : sampleStart = (sampleStart.1, true) := Prod.ext rfl (by decide)
  have hnone : ∀ m ∈ (none : Option ManifestData),
      ¬m.Resumable sampleSystem.gameId sampleConfig := by simp
  exact (scan_covers hnone hstart).2.2.2.2.1

end CullingCodeFinder
