import PrimedSteam.Lib.Transition
import PrimedSteam.VideoCommon.OpcodeReplay

/-!
# A replay is the replay of one frame

* `Captured`, `Published`, `Counted`, `Pending`: what holds of the capture, of the frame to replay, of
  the counts and of the swap.
* `Sound`: all of them; each operation keeps it (`Sound.step`).
* `replay_of_reach`: what is replayed in every run.
-/

set_option autoImplicit false

namespace OpcodeReplay

open Transition

variable {s : State} {h : History}

/-! ## The invariant -/

/-- An open window is captured as a whole, and is not open in a replay iteration. -/
structure Captured (s : State) (h : History) : Prop where
  replaying : s.captureWindowArmed = true → s.replaying = false
  logged : s.replayLogFrameActive = s.captureWindowArmed
  window : s.captureWindowArmed = true → s.capture = h.window

/-- The frame to replay is the last one whose window was closed. -/
def Published (s : State) (h : History) : Prop :=
  s.replayFrameIndex ≠ invalidFrameIndex → s.replay = h.frame

/-- No frame is counted twice. -/
structure Counted (s : State) (h : History) : Prop where
  nodup : h.decided.Nodup
  le : ∀ n ∈ h.decided, n ≤ h.frames
  last : h.frames ∈ h.decided → s.replayFrameIndex ≠ invalidFrameIndex →
    s.lastDecidedFrameIndex = s.replayFrameIndex

/-- The swap that is chosen for a list of swaps that were recorded. -/
structure Pending (s : State) (h : History) : Prop where
  pending : s.replaying = true → s.pendingImmediateSwap = !h.swaps.isEmpty
  boundary : s.replaying = true → s.pendingImmediateSwapIsFrameBoundary =
    (h.swaps.any fun swap => swap.2)
  swap : s.replaying = true → h.swaps ≠ [] → h.chosen = some s.pendingSwap

structure Sound (p : State × History) : Prop where
  captured : Captured p.1 p.2
  published : Published p.1 p.2
  counted : Counted p.1 p.2
  pending : Pending p.1 p.2

theorem sound_initial : Sound (State.initial, History.initial) where
  captured := by constructor <;> simp [State.initial]
  published := fun hindex => absurd rfl hindex
  counted := by constructor <;> simp [History.initial]
  pending := by constructor <;> simp [State.initial]

/-! ## The swap -/

theorem History.chosen_append (h : History) (swap : Swap) (frameJustRendered : Bool) :
    ({ h with swaps := h.swaps ++ [(swap, frameJustRendered)] } : History).chosen =
      if h.swaps = [] ∨ (h.swaps.any fun swap => swap.2) = false ∧ frameJustRendered = true then
        some swap
      else h.chosen := by
  simp only [History.chosen, List.find?_append, List.head?_append]
  cases hfind : h.swaps.find? fun swap => swap.2 with
  | none =>
    have hany : (h.swaps.any fun swap => swap.2) = false := by
      rw [List.any_eq_false]
      exact List.find?_eq_none.mp hfind
    rw [hany]
    cases hswaps : h.swaps <;> cases frameJustRendered <;> simp
  | some found =>
    have hany : (h.swaps.any fun swap => swap.2) = true := by
      rw [List.any_eq_true]
      exact ⟨found, List.mem_of_find?_eq_some hfind, List.find?_some hfind⟩
    have hne : h.swaps ≠ [] := List.ne_nil_of_mem (List.mem_of_find?_eq_some hfind)
    simp [hany, hne]

theorem Pending.record (hpending : Pending s h) (swap : Swap) (frameJustRendered : Bool) :
    Pending (s.recordReplayImmediateSwap swap frameJustRendered)
      (if s.replaying then { h with swaps := h.swaps ++ [(swap, frameJustRendered)] } else h) := by
  unfold State.recordReplayImmediateSwap
  cases hreplaying : s.replaying with
  | false =>
    simpa [hreplaying] using hpending
  | true =>
    have hnone := hpending.pending hreplaying
    have hboundary := hpending.boundary hreplaying
    have hswap := hpending.swap hreplaying
    have hchosen := h.chosen_append swap frameJustRendered
    simp only [Bool.true_eq_false, if_false, if_true]
    split
    · rename_i hskip
      have hne : h.swaps ≠ [] := by
        intro hnil
        simp [hnone, hnil] at hskip
      refine ⟨fun _ => ?_, fun _ => ?_, fun _ _ => ?_⟩
      · simp [hskip.1]
      · simp only [hboundary, List.any_append, List.any_cons, List.any_nil, Bool.or_false]
        rcases hskip.2 with hb | hf
        · rw [← hboundary, hb, Bool.true_or]
        · rw [hf, Bool.or_false]
      · rw [hchosen, if_neg, hswap hne]
        rintro (hnil | ⟨hany, hf⟩)
        · exact hne hnil
        · rcases hskip.2 with hb | hf'
          · rw [hboundary, hany] at hb
            cases hb
          · rw [hf] at hf'
            cases hf'
    · rename_i hset
      have hempty : h.swaps = [] ∨ (h.swaps.any fun swap => swap.2) = false ∧
          frameJustRendered = true := by
        by_cases hnil : h.swaps = []
        · exact .inl hnil
        · refine .inr ⟨?_, ?_⟩
          · by_contra hany
            exact hset ⟨by simp [hnone, hnil], .inl (by rw [hboundary]; simpa using hany)⟩
          · by_contra hf
            exact hset ⟨by simp [hnone, hnil], .inr (by simpa using hf)⟩
      refine ⟨fun _ => by simp, fun _ => ?_, fun _ _ => ?_⟩
      · rcases hempty with hnil | ⟨hany, hf⟩
        · simp [hnil]
        · simp [hany, hf]
      · rw [hchosen, if_pos hempty]

theorem Pending.of_dropSwap {s' : State} (hnone : s'.pendingImmediateSwap = false)
    (hboundary : s'.pendingImmediateSwapIsFrameBoundary = false) :
    Pending s' { h with swaps := [] } :=
  ⟨fun _ => hnone, fun _ => hboundary, fun _ hne => absurd rfl hne⟩

/-! ## The frame to replay -/

/-- A frame whose window is just closed was not counted yet. -/
theorem Counted.close (hcounted : Counted s h) (s' : State) :
    Counted s' { h with frame := h.window, frames := h.frames + 1 } where
  nodup := hcounted.nodup
  le := fun n hn => Nat.le_succ_of_le (hcounted.le n hn)
  last := fun hmem => absurd (hcounted.le _ hmem) (Nat.not_succ_le_self _)

theorem notify_cases (s : State) (config : Config) :
    s.notifyFrameBoundary config = s ∨ s.notifyFrameBoundary config = State.initial ∨
      (s.captureWindowArmed = false ∧ s.notifyFrameBoundary config =
        { s with captureEnabled := true, nextFrameIndex := s.nextFrameIndex + 1 }) ∨
      s.captureWindowArmed = true ∧ s.replaying = false ∧
        (s.notifyFrameBoundary config).captureWindowArmed = false ∧
        (s.notifyFrameBoundary config).replayLogFrameActive = false ∧
        (s.notifyFrameBoundary config).replaying = false ∧
        ((s.notifyFrameBoundary config).replayFrameIndex = invalidFrameIndex ∨
          (s.notifyFrameBoundary config).replay = s.capture) := by
  unfold State.notifyFrameBoundary
  cases hreplaying : s.replaying with
  | true => simp
  | false =>
    simp only [Bool.false_eq_true, if_false]
    cases hconfig : config.isConfigured with
    | false => exact .inr (.inl (by simp [State.clear]))
    | true =>
      simp only [Bool.true_eq_false, if_false]
      cases harmed : s.captureWindowArmed with
      | false => simp
      | true =>
        refine .inr (.inr (.inr ⟨rfl, trivial, ?_⟩))
        simp only [Bool.true_eq_false, if_false]
        split
        · exact ⟨rfl, rfl, rfl, .inl rfl⟩
        · split
          · exact ⟨rfl, rfl, rfl, .inl rfl⟩
          · exact ⟨rfl, rfl, rfl, .inr rfl⟩

theorem getReplayCount_cases (s : State) (config : Config) :
    ((s.getReplayCount config).2 = 0 ∧
        (s.getReplayCount config).1 = { s with captureEnabled := config.isConfigured }) ∨
      s.replayFrameIndex ≠ invalidFrameIndex ∧ s.lastDecidedFrameIndex ≠ s.replayFrameIndex ∧
        (s.getReplayCount config).1 = { s with
          captureEnabled := config.isConfigured
          lastDecidedFrameIndex := s.replayFrameIndex } := by
  simp only [State.getReplayCount]
  split
  · exact .inl ⟨rfl, rfl⟩
  · rename_i hcounts
    split
    · exact .inl ⟨rfl, rfl⟩
    · rename_i hlast
      exact .inr ⟨fun hindex => hcounts (.inr (.inr (.inl hindex))), hlast, rfl⟩

/-! ## The operations -/

theorem Sound.of_kept {s' : State} {h' : History} (hsound : Sound (s, h))
    (hcaptured : Captured s' h') (hreplay : s'.replay = s.replay)
    (hindex : s'.replayFrameIndex = s.replayFrameIndex)
    (hlast : s'.lastDecidedFrameIndex = s.lastDecidedFrameIndex)
    (hswap : s'.replaying = s.replaying ∧ s'.pendingImmediateSwap = s.pendingImmediateSwap ∧
      s'.pendingImmediateSwapIsFrameBoundary = s.pendingImmediateSwapIsFrameBoundary ∧
      s'.pendingSwap = s.pendingSwap)
    (hhistory : h'.frame = h.frame ∧ h'.frames = h.frames ∧ h'.decided = h.decided ∧
      h'.swaps = h.swaps) : Sound (s', h') := by
  obtain ⟨hframe, hframes, hdecided, hswaps⟩ := hhistory
  obtain ⟨hreplaying, hpending, hboundary, hpendingSwap⟩ := hswap
  refine ⟨hcaptured, ?_, ?_, ?_⟩
  · intro hne
    rw [hreplay, hframe]
    exact hsound.published (hindex ▸ hne)
  · refine ⟨hdecided ▸ hsound.counted.nodup, ?_, ?_⟩
    · rw [hdecided, hframes]
      exact hsound.counted.le
    · rw [hdecided, hframes, hindex, hlast]
      exact hsound.counted.last
  · have hchosen : h'.chosen = h.chosen := by rw [History.chosen, hswaps, History.chosen]
    refine ⟨?_, ?_, ?_⟩
    · rw [hreplaying, hpending, hswaps]
      exact hsound.pending.pending
    · rw [hreplaying, hboundary, hswaps]
      exact hsound.pending.boundary
    · rw [hreplaying, hswaps, hchosen, hpendingSwap]
      exact hsound.pending.swap

theorem enable_sound (hsound : Sound (s, h)) (config : Config) :
    Sound (step (s, h) (.enableCaptureForNextFrame config)) := by
  by_cases hcount : (if config.isConfigured ∧ s.replaying = false then
      config.calculateReplayCountForFrame s.nextFrameIndex else 0) > 0
  · have hreplaying : s.replaying = false := by
      by_contra hreplaying
      rw [if_neg fun hboth => hreplaying hboth.2] at hcount
      exact absurd hcount (lt_irrefl 0)
    simp only [step, State.enableCaptureForNextFrame, hcount, if_true]
    exact hsound.of_kept ⟨fun _ => hreplaying, rfl, fun _ => rfl⟩ rfl rfl rfl
      ⟨rfl, rfl, rfl, rfl⟩ ⟨rfl, rfl, rfl, rfl⟩
  · simp only [step, State.enableCaptureForNextFrame, hcount, if_false]
    exact hsound.of_kept ⟨fun harmed => by simp at harmed, rfl, fun harmed => by simp at harmed⟩
      rfl rfl rfl ⟨rfl, rfl, rfl, rfl⟩ ⟨rfl, rfl, rfl, rfl⟩

theorem Streams.append_nil (streams : Streams) (isPreprocess : Bool) :
    streams.append isPreprocess [] = streams := by
  rw [Streams.append, List.append_nil, Function.update_eq_self]

theorem captureCommand_sound (hsound : Sound (s, h)) (isPreprocess : Bool) (data : List Byte) :
    Sound (step (s, h) (.captureCommand isPreprocess data)) := by
  have hcaptured := hsound.captured
  have hlogged : s.replayLogFrameActive = s.captureWindowArmed := hcaptured.logged
  simp only [step, State.captureCommand, hlogged]
  cases harmed : s.captureWindowArmed with
  | false =>
    simp only [Bool.false_eq_true, if_false, ite_self]
    exact hsound
  | true =>
    have hwindow : s.capture = h.window := hcaptured.window harmed
    have hreplaying : s.replaying = false := hcaptured.replaying harmed
    simp only [if_true]
    split
    · rename_i hdata
      rw [hdata, Streams.append_nil]
      exact hsound
    · exact hsound.of_kept
        ⟨fun _ => hreplaying, rfl, fun _ => congrArg
          (fun streams : Streams => streams.append isPreprocess data) hwindow⟩
        rfl rfl rfl ⟨rfl, rfl, rfl, rfl⟩ ⟨rfl, rfl, rfl, rfl⟩

/-- After a `Clear` there is neither a window nor a frame. -/
theorem clear_sound (hsound : Sound (s, h)) {h' : History} (hdecided : h'.decided = h.decided)
    (hframes : h.frames ≤ h'.frames) : Sound (State.initial, h') where
  captured := by constructor <;> simp [State.initial]
  published := fun hindex => absurd rfl hindex
  counted :=
    ⟨hdecided ▸ hsound.counted.nodup,
      fun n hn => (hsound.counted.le n (hdecided ▸ hn)).trans hframes, fun _ hne => absurd rfl hne⟩
  pending := by constructor <;> simp [State.initial]

theorem notify_sound (hsound : Sound (s, h)) (config : Config) :
    Sound (step (s, h) (.notifyFrameBoundary config)) := by
  have hcaptured := hsound.captured
  simp only [step]
  rcases notify_cases s config with hsame | hclear | ⟨hnot, hnext⟩ |
    ⟨harmed, hreplaying, hclosed, hlog, hreplaying', hframe⟩
  · rw [hsame, if_neg]
    · exact hsound
    · rintro ⟨harmed, hnot⟩
      rw [harmed] at hnot
      cases hnot
  · rw [hclear]
    split
    · exact clear_sound hsound rfl (Nat.le_succ _)
    · exact clear_sound hsound rfl le_rfl
  · rw [hnext, if_neg]
    · exact hsound.of_kept ⟨hcaptured.replaying, hcaptured.logged, hcaptured.window⟩ rfl rfl rfl
        ⟨rfl, rfl, rfl, rfl⟩ ⟨rfl, rfl, rfl, rfl⟩
    · rintro ⟨harmed, -⟩
      rw [hnot] at harmed
      cases harmed
  · rw [if_pos ⟨harmed, hclosed⟩]
    refine ⟨⟨?_, hlog.trans hclosed.symm, ?_⟩, ?_, hsound.counted.close _, ?_⟩
    · intro harmed'
      rw [hclosed] at harmed'
      cases harmed'
    · intro harmed'
      rw [hclosed] at harmed'
      cases harmed'
    · intro hne
      rcases hframe with hindex | hreplay
      · exact absurd hindex hne
      · exact hreplay.trans (hcaptured.window harmed)
    · refine ⟨?_, ?_, ?_⟩ <;>
      · intro hon
        rw [hreplaying'] at hon
        cases hon

theorem getReplayCount_sound (hsound : Sound (s, h)) (config : Config) :
    Sound (step (s, h) (.getReplayCount config)) := by
  have hcaptured := hsound.captured
  have hcounted := hsound.counted
  have hsame : Sound ({ s with captureEnabled := config.isConfigured }, h) :=
    hsound.of_kept ⟨hcaptured.replaying, hcaptured.logged, hcaptured.window⟩ rfl rfl rfl
      ⟨rfl, rfl, rfl, rfl⟩ ⟨rfl, rfl, rfl, rfl⟩
  simp only [step]
  rcases getReplayCount_cases s config with ⟨hzero, hstate⟩ | ⟨hindex, hlast, hstate⟩
  · rw [hstate, hzero, if_neg (not_not.mpr rfl)]
    exact hsame
  · -- the last frame was not counted yet, as its count would have set the index
    have hnew : h.frames ∉ h.decided := fun hmem => hlast (hcounted.last hmem hindex)
    rw [hstate]
    refine ⟨?_, ?_, ?_, ?_⟩
    · split
      · exact ⟨hcaptured.replaying, hcaptured.logged, hcaptured.window⟩
      · exact ⟨hcaptured.replaying, hcaptured.logged, hcaptured.window⟩
    · split
      · exact hsound.published
      · exact hsound.published
    · split
      · refine ⟨List.nodup_cons.mpr ⟨hnew, hcounted.nodup⟩, ?_, fun _ _ => rfl⟩
        intro n hn
        rcases List.mem_cons.mp hn with rfl | hn
        · exact le_rfl
        · exact hcounted.le n hn
      · exact ⟨hcounted.nodup, hcounted.le, fun _ _ => rfl⟩
    · split
      · exact ⟨hsound.pending.pending, hsound.pending.boundary, hsound.pending.swap⟩
      · exact ⟨hsound.pending.pending, hsound.pending.boundary, hsound.pending.swap⟩

theorem begin_sound (hsound : Sound (s, h)) (config : Config)
    (hallowed : Allowed s (.beginReplayIteration config)) :
    Sound (step (s, h) (.beginReplayIteration config)) := by
  have hcaptured := hsound.captured
  rcases hallowed with hclosed | hfailed
  · simp only [step, State.beginReplayIteration]
    split
    · exact hsound
    · have hlogged : s.replayLogFrameActive = false := hcaptured.logged.trans hclosed
      refine ⟨⟨?_, hclosed.symm, ?_⟩, hsound.published,
        ⟨hsound.counted.nodup, hsound.counted.le, hsound.counted.last⟩,
        Pending.of_dropSwap rfl rfl⟩
      · exact fun harmed => absurd (harmed.symm.trans hclosed) Bool.true_eq_false.mp
      · exact fun harmed => absurd (harmed.symm.trans hclosed) Bool.true_eq_false.mp
  · have hsame : (s.beginReplayIteration config).1 = s := by
      simp only [State.beginReplayIteration] at hfailed ⊢
      split_ifs at hfailed ⊢
      rfl
    simp only [step, hfailed, hsame]
    exact hsound

theorem end_sound (hsound : Sound (s, h)) (hclosed : s.captureWindowArmed = false) :
    Sound (step (s, h) .endReplayIteration) := by
  simp only [step]
  refine ⟨⟨fun _ => rfl, hclosed.symm, ?_⟩, hsound.published,
    ⟨hsound.counted.nodup, hsound.counted.le, hsound.counted.last⟩, Pending.of_dropSwap rfl rfl⟩
  exact fun harmed => absurd (harmed.symm.trans hclosed) Bool.true_eq_false.mp

theorem discard_sound (hsound : Sound (s, h)) : Sound (step (s, h) .discardReplayFrame) := by
  have hcaptured := hsound.captured
  simp only [step]
  exact ⟨⟨hcaptured.replaying, hcaptured.logged, hcaptured.window⟩, fun hne => absurd rfl hne,
    ⟨hsound.counted.nodup, hsound.counted.le, fun _ hne => absurd rfl hne⟩,
    Pending.of_dropSwap rfl rfl⟩

theorem record_sound (hsound : Sound (s, h)) (swap : Swap) (frameJustRendered : Bool) :
    Sound (step (s, h) (.recordReplayImmediateSwap swap frameJustRendered)) := by
  have hcaptured := hsound.captured
  have hpending := hsound.pending.record swap frameJustRendered
  have hkept : ∀ s' : State, (∃ xfb pending boundary pendingSwap, s' = { s with
      replayXfbCount := xfb
      pendingImmediateSwap := pending
      pendingImmediateSwapIsFrameBoundary := boundary
      pendingSwap := pendingSwap }) → ∀ swaps, Pending s' { h with swaps := swaps } →
        Sound (s', { h with swaps := swaps }) := by
    rintro s' ⟨_, _, _, _, rfl⟩ swaps hpending
    exact ⟨⟨hcaptured.replaying, hcaptured.logged, hcaptured.window⟩, hsound.published,
      ⟨hsound.counted.nodup, hsound.counted.le, hsound.counted.last⟩, hpending⟩
  have hrecord : ∃ xfb pending boundary pendingSwap,
      s.recordReplayImmediateSwap swap frameJustRendered = { s with
        replayXfbCount := xfb
        pendingImmediateSwap := pending
        pendingImmediateSwapIsFrameBoundary := boundary
        pendingSwap := pendingSwap } := by
    simp only [State.recordReplayImmediateSwap]
    split
    · exact ⟨_, _, _, _, rfl⟩
    · split
      · exact ⟨_, _, _, _, rfl⟩
      · exact ⟨_, _, _, _, rfl⟩
  simp only [step]
  split
  · rename_i hreplaying
    rw [if_pos hreplaying] at hpending
    exact hkept _ hrecord _ hpending
  · rename_i hreplaying
    rw [if_neg hreplaying] at hpending
    exact hkept _ hrecord h.swaps hpending

theorem consume_sound (hsound : Sound (s, h)) :
    Sound (step (s, h) .consumeReplayImmediateSwap) := by
  have hcaptured := hsound.captured
  simp only [step, State.consumeReplayImmediateSwap]
  split
  · exact hsound
  · exact ⟨⟨hcaptured.replaying, hcaptured.logged, hcaptured.window⟩, hsound.published,
      ⟨hsound.counted.nodup, hsound.counted.le, hsound.counted.last⟩, Pending.of_dropSwap rfl rfl⟩

/-- **Each operation keeps what is replayed.** -/
theorem Sound.step {p : State × History} (hsound : Sound p) (op : Operation)
    (hallowed : Allowed p.1 op) : Sound (step p op) := by
  obtain ⟨s, h⟩ := p
  cases op with
  | enableCaptureForNextFrame config => exact enable_sound hsound config
  | captureCommand isPreprocess data => exact captureCommand_sound hsound isPreprocess data
  | notifyFrameBoundary config => exact notify_sound hsound config
  | getReplayCount config => exact getReplayCount_sound hsound config
  | beginReplayIteration config => exact begin_sound hsound config hallowed
  | endReplayIteration => exact end_sound hsound hallowed
  | discardReplayFrame => exact discard_sound hsound
  | clear => exact clear_sound hsound rfl le_rfl
  | recordReplayImmediateSwap swap frameJustRendered =>
    exact record_sound hsound swap frameJustRendered
  | consumeReplayImmediateSwap => exact consume_sound hsound

/-! ## Runs -/

/-- Every operation is defined. -/
def stepSome (p : State × History) (op : Operation) : Option (State × History) := some (step p op)

/-- The condition on a step of a run. -/
abbrev allowedIn (p : State × History) (op : Operation) : Prop := Allowed p.1 op

theorem consume_chosen (hsound : Sound (s, h)) (hreplaying : s.replaying = true) :
    s.consumeReplayImmediateSwap.2 = h.chosen := by
  have hpending := hsound.pending.pending hreplaying
  simp only at hpending
  simp only [State.consumeReplayImmediateSwap, hreplaying, hpending]
  cases hswaps : h.swaps with
  | nil => simp [History.chosen, hswaps]
  | cons swap swaps =>
    have hchosen := hsound.pending.swap hreplaying (by simp [hswaps])
    simpa using hchosen.symm

/-- **A replay replays exactly one frame.** -/
theorem replay_of_reach {p : State × History}
    (hreach : Reach stepSome allowedIn (State.initial, History.initial) p) :
    (p.1.hasReplayData = true → p.1.replay = p.2.frame) ∧ p.2.decided.Nodup ∧
      (p.1.replaying = true → p.1.consumeReplayImmediateSwap.2 = p.2.chosen) := by
  have hsound : Sound p := hreach.invariant sound_initial fun p op p' hsound hallowed hstep =>
    Option.some_injective _ hstep ▸ hsound.step op hallowed
  refine ⟨fun havailable => hsound.published fun hindex => ?_, hsound.counted.nodup,
    consume_chosen hsound⟩
  simp [State.hasReplayData, hindex] at havailable

/-! ## A replay in a capture window -/

/-- Frames at 30 Hz are shown at 90 Hz. -/
def sampleConfig : Config := ⟨true, .input30Hz, 90, true⟩

def sampleSwap (xfbAddr : BitVec 32) : Swap := ⟨xfbAddr, 640, 1280, 480⟩

/-- The state and the history after some operations. -/
def after (ops : List Operation) : State × History :=
  ops.foldl step (State.initial, History.initial)

/-- One frame is captured. -/
def sampleFrame : List Operation :=
  [.enableCaptureForNextFrame sampleConfig, .captureCommand false [0x61],
    .notifyFrameBoundary sampleConfig]

/-- The first frame is replayed while the second one is captured. -/
def sampleMixed : List Operation :=
  sampleFrame ++ [.enableCaptureForNextFrame sampleConfig, .captureCommand false [0x08],
    .beginReplayIteration sampleConfig, .endReplayIteration, .captureCommand false [0x10],
    .notifyFrameBoundary sampleConfig]

/-- Two swaps at frame boundaries, the first one of which is consumed. -/
def sampleSwaps : List Operation :=
  sampleFrame ++ [.beginReplayIteration sampleConfig,
    .recordReplayImmediateSwap (sampleSwap 1) true, .consumeReplayImmediateSwap,
    .recordReplayImmediateSwap (sampleSwap 2) true]

/-- A replay that is begun in a capture window cuts off the rest of the captured frame, and a swap
that was consumed is not returned again. -/
theorem replay_cut_off :
    ((after sampleMixed).1.hasReplayData = true ∧ (after sampleMixed).1.replay false = [0x08] ∧
      (after sampleMixed).2.frame false = [0x08, 0x10]) ∧
    ((after sampleSwaps).1.replaying = true ∧
      (after sampleSwaps).1.consumeReplayImmediateSwap.2 = some (sampleSwap 2)) := by
  decide

theorem reach_step {p : State × History}
    (hreach : Reach stepSome allowedIn (State.initial, History.initial) p) (op : Operation)
    (hallowed : Allowed p.1 op) :
    Reach stepSome allowedIn (State.initial, History.initial) (step p op) :=
  hreach.tail op hallowed rfl

/-- A frame is captured, counted and replayed. -/
theorem replay_of_reach_sample : ∃ p : State × History,
    Reach stepSome allowedIn (State.initial, History.initial) p ∧ p.1.hasReplayData = true ∧
      p.1.replay = p.2.frame ∧ p.1.replay false = [0x61] ∧ p.2.decided = [1] ∧ p.2.decided.Nodup ∧
      p.1.consumeReplayImmediateSwap.2 = p.2.chosen ∧ p.2.chosen = some (sampleSwap 2) := by
  have harmed := reach_step .refl (.enableCaptureForNextFrame sampleConfig) trivial
  have hframe := reach_step (reach_step harmed (.captureCommand false [0x61]) trivial)
    (.notifyFrameBoundary sampleConfig) trivial
  have hbegun := reach_step (reach_step hframe (.getReplayCount sampleConfig) trivial)
    (.beginReplayIteration sampleConfig) (.inl (by decide))
  have hrecorded := reach_step
    (reach_step hbegun (.recordReplayImmediateSwap (sampleSwap 1) false) trivial)
    (.recordReplayImmediateSwap (sampleSwap 2) true) trivial
  have hreplay := replay_of_reach hrecorded
  refine ⟨_, hrecorded, by decide, hreplay.1 (by decide), by decide, by decide, hreplay.2.1,
    hreplay.2.2 (by decide), by decide⟩

end OpcodeReplay
