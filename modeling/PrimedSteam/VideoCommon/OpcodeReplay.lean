import Mathlib.Algebra.Order.Group.Multiset
import Mathlib.Tactic.Abel

/-!
# The replay of captured opcodes

* `State`: the scheduling of captures, the captured streams and those that are replayed.
* `Operation`: the entry points, with what the configuration answers as arguments.
* `State.apply`: what an operation does, and what it returns.

`History` records what a caller sees of a run; no operation reads it.
-/

set_option autoImplicit false

namespace OpcodeReplay

abbrev Byte := BitVec 8

abbrev FrameIndex := BitVec 64

/-- `INVALID_FRAME_INDEX` -/
def invalidFrameIndex : FrameIndex := BitVec.allOnes 64

inductive OpenXROpcodeReplayMode where
  | off
  | input25Hz
  | input30Hz
  | input50Hz
  | input60Hz
  deriving DecidableEq

/-- `GetConfiguredInputRefreshRateUnlocked` -/
def OpenXROpcodeReplayMode.inputRefreshRate : OpenXROpcodeReplayMode → ℕ
  | .off => 0
  | .input25Hz => 25
  | .input30Hz => 30
  | .input50Hz => 50
  | .input60Hz => 60

/-- What is configured during a call. -/
structure Config where
  /-- The stereo mode is `OpenXR`. -/
  openXR : Bool
  mode : OpenXROpcodeReplayMode
  /-- `GetConfiguredTargetRefreshRateUnlocked` -/
  targetRefreshRate : ℕ
  /-- The display period is within the tolerance of the target period. -/
  periodMatches : Bool

namespace Config

variable (config : Config)

/-- `IsConfiguredUnlocked` -/
def isConfigured : Bool := config.openXR && decide (0 < config.mode.inputRefreshRate)

/-- `CalculateReplayCountForFrameUnlocked` -/
def calculateReplayCountForFrame (frameIndex : FrameIndex) : ℤ :=
  let input := config.mode.inputRefreshRate
  let target := config.targetRefreshRate
  if input = 0 ∨ target ≤ input then 0
  else if config.periodMatches = false then 0
  else
    let startSlot := frameIndex * BitVec.ofNat 64 target / BitVec.ofNat 64 input
    let endSlot := (frameIndex + 1) * BitVec.ofNat 64 target / BitVec.ofNat 64 input
    if endSlot ≤ startSlot then 0
    else max 0 (((endSlot - startSlot).setWidth 32).toInt - 1)

end Config

/-- A copy to the external framebuffer. -/
structure Swap where
  xfbAddr : BitVec 32
  fbWidth : BitVec 32
  fbStride : BitVec 32
  fbHeight : BitVec 32
  deriving DecidableEq

def Swap.zero : Swap := ⟨0, 0, 0, 0⟩

/-- The bytes of both decoder passes; `true` is the one of preprocessing. -/
abbrev Streams := Bool → List Byte

def Streams.empty : Streams := fun _ => []

/-- The bytes are appended to the stream of a pass. -/
def Streams.append (streams : Streams) (isPreprocess : Bool) (data : List Byte) : Streams :=
  Function.update streams isPreprocess (streams isPreprocess ++ data)

structure State where
  capture : Streams
  replay : Streams
  captureFrameIndex : FrameIndex
  scheduledReplayFrameIndex : FrameIndex
  replayFrameIndex : FrameIndex
  lastDecidedFrameIndex : FrameIndex
  nextFrameIndex : FrameIndex
  scheduledReplayCount : ℤ
  replayCount : ℤ
  captureEnabled : Bool
  replaying : Bool
  replayFrameActive : Bool
  replayLogFrameActive : Bool
  captureWindowArmed : Bool
  pendingImmediateSwap : Bool
  pendingImmediateSwapIsFrameBoundary : Bool
  pendingSwap : Swap
  replayXfbCount : BitVec 32

namespace State

variable (s : State)

/-- `s_state` before any call. -/
def initial : State where
  capture := .empty
  replay := .empty
  captureFrameIndex := invalidFrameIndex
  scheduledReplayFrameIndex := invalidFrameIndex
  replayFrameIndex := invalidFrameIndex
  lastDecidedFrameIndex := invalidFrameIndex
  nextFrameIndex := 0
  scheduledReplayCount := 0
  replayCount := 0
  captureEnabled := false
  replaying := false
  replayFrameActive := false
  replayLogFrameActive := false
  captureWindowArmed := false
  pendingImmediateSwap := false
  pendingImmediateSwapIsFrameBoundary := false
  pendingSwap := .zero
  replayXfbCount := 0

/-- `Clear`; all fields are as before any call. -/
def clear : State := initial

/-- Both replay streams are empty. -/
def replayEmpty : Bool := (s.replay true).isEmpty && (s.replay false).isEmpty

/-- `HasReplayData` -/
def hasReplayData : Bool := s.replayFrameIndex != invalidFrameIndex && !s.replayEmpty

/-- `EnableCaptureForNextFrame` -/
def enableCaptureForNextFrame (config : Config) : State :=
  let captureEnabled := config.isConfigured
  let scheduledReplayCount :=
    if captureEnabled ∧ s.replaying = false then
      config.calculateReplayCountForFrame s.nextFrameIndex
    else 0
  let s := { s with
    captureEnabled := captureEnabled
    replayLogFrameActive := false
    capture := .empty }
  if scheduledReplayCount > 0 then
    { s with
      captureFrameIndex := s.nextFrameIndex
      scheduledReplayFrameIndex := s.nextFrameIndex
      scheduledReplayCount := scheduledReplayCount
      replayLogFrameActive := true
      captureWindowArmed := true }
  else
    { s with
      captureWindowArmed := false
      captureFrameIndex := invalidFrameIndex
      scheduledReplayFrameIndex := invalidFrameIndex
      scheduledReplayCount := 0 }

/-- `CaptureCommand`; no data is also a null pointer. -/
def captureCommand (isPreprocess : Bool) (data : List Byte) : State :=
  if data = [] then s
  else if s.replayLogFrameActive then { s with capture := s.capture.append isPreprocess data }
  else s

/-- The capture window is closed, and its frame is over. -/
def closeWindow : State :=
  { s with
    captureWindowArmed := false
    captureFrameIndex := invalidFrameIndex
    scheduledReplayFrameIndex := invalidFrameIndex
    scheduledReplayCount := 0 }

/-- There is no frame to replay. -/
def dropReplay : State :=
  { s with
    replay := .empty
    replayFrameIndex := invalidFrameIndex
    replayCount := 0 }

/-- `NotifyFrameBoundary` -/
def notifyFrameBoundary (config : Config) : State :=
  if s.replaying then s
  else
    let s := { s with captureEnabled := config.isConfigured }
    if s.captureEnabled = false then State.clear
    else if s.captureWindowArmed = false then { s with nextFrameIndex := s.nextFrameIndex + 1 }
    else
      let s := { s with replayLogFrameActive := false }
      if s.captureFrameIndex ≠ s.scheduledReplayFrameIndex ∨
          s.captureFrameIndex ≠ s.nextFrameIndex then
        { s with capture := .empty }.dropReplay.closeWindow
          |> fun s => { s with nextFrameIndex := s.nextFrameIndex + 1 }
      else if (s.capture true).length = 0 ∧ (s.capture false).length = 0 then
        s.dropReplay.closeWindow |> fun s => { s with nextFrameIndex := s.nextFrameIndex + 1 }
      else
        { s with
          replay := s.capture
          capture := .empty
          replayFrameIndex := s.captureFrameIndex
          replayCount := s.scheduledReplayCount
          nextFrameIndex := s.captureFrameIndex + 1 }.closeWindow

/-- `GetReplayCount` -/
def getReplayCount (config : Config) : State × ℤ :=
  let s := { s with captureEnabled := config.isConfigured }
  if s.captureEnabled = false ∨ s.replaying ∨ s.replayFrameIndex = invalidFrameIndex ∨
      s.replayCount ≤ 0 ∨ s.replayEmpty then (s, 0)
  else if s.lastDecidedFrameIndex = s.replayFrameIndex then (s, 0)
  else ({ s with lastDecidedFrameIndex := s.replayFrameIndex }, s.replayCount)

/-- There is no swap to be consumed. -/
def dropSwap : State :=
  { s with
    pendingImmediateSwap := false
    pendingImmediateSwapIsFrameBoundary := false
    pendingSwap := .zero }

/-- `BeginReplayIteration` -/
def beginReplayIteration (config : Config) : State × Bool :=
  if s.replaying ∨ s.replayFrameIndex = invalidFrameIndex ∨ s.replayEmpty then (s, false)
  else
    ({ s with
      replaying := true
      captureEnabled := config.isConfigured
      replayFrameActive := true
      replayLogFrameActive := false
      replayXfbCount := 0 }.dropSwap, true)

/-- `EndReplayIteration` -/
def endReplayIteration : State :=
  { s with
    replaying := false
    replayFrameActive := false
    replayLogFrameActive := false
    replayXfbCount := 0 }.dropSwap

/-- `DiscardReplayFrame` -/
def discardReplayFrame : State := { s.dropReplay with replayXfbCount := 0 }.dropSwap

/-- `RecordReplayImmediateSwap` -/
def recordReplayImmediateSwap (swap : Swap) (frameJustRendered : Bool) : State :=
  if s.replaying = false then s
  else
    let s := { s with replayXfbCount := s.replayXfbCount + 1 }
    if s.pendingImmediateSwap ∧
        (s.pendingImmediateSwapIsFrameBoundary ∨ frameJustRendered = false) then s
    else
      { s with
        pendingImmediateSwap := true
        pendingImmediateSwapIsFrameBoundary := frameJustRendered
        pendingSwap := swap }

/-- `ConsumeReplayImmediateSwap` -/
def consumeReplayImmediateSwap : State × Option Swap :=
  if s.replaying = false ∨ s.pendingImmediateSwap = false then (s, none)
  else (s.dropSwap, some s.pendingSwap)

end State

/-! ## Runs -/

inductive Operation where
  | enableCaptureForNextFrame (config : Config)
  | captureCommand (isPreprocess : Bool) (data : List Byte)
  | notifyFrameBoundary (config : Config)
  | getReplayCount (config : Config)
  | beginReplayIteration (config : Config)
  | endReplayIteration
  | discardReplayFrame
  | clear
  | recordReplayImmediateSwap (swap : Swap) (frameJustRendered : Bool)
  | consumeReplayImmediateSwap

/-- What a caller sees of a run. -/
structure History where
  /-- The bytes passed to `captureCommand` in the last capture window. -/
  window : Streams
  /-- Those of the capture window that was closed last by a frame boundary. -/
  frame : Streams
  /-- The number of capture windows that were closed by a frame boundary. -/
  frames : ℕ
  /-- The frames for which a count that is not zero was returned. -/
  decided : List ℕ
  /-- The swaps recorded in the replay iteration, if neither consumed nor discarded; `true` is one at
  a frame boundary. -/
  swaps : List (Swap × Bool)

def History.initial : History := ⟨.empty, .empty, 0, [], []⟩

/-- What an operation does to the state, and what a caller sees of it. -/
def step (p : State × History) : Operation → State × History
  | .enableCaptureForNextFrame config =>
    let s := p.1.enableCaptureForNextFrame config
    (s, if s.captureWindowArmed then { p.2 with window := .empty } else p.2)
  | .captureCommand isPreprocess data =>
    (p.1.captureCommand isPreprocess data,
      if p.1.captureWindowArmed then { p.2 with window := p.2.window.append isPreprocess data }
      else p.2)
  | .notifyFrameBoundary config =>
    let s := p.1.notifyFrameBoundary config
    (s, if p.1.captureWindowArmed ∧ s.captureWindowArmed = false then
        { p.2 with frame := p.2.window, frames := p.2.frames + 1 }
      else p.2)
  | .getReplayCount config =>
    let r := p.1.getReplayCount config
    (r.1, if r.2 ≠ 0 then { p.2 with decided := p.2.frames :: p.2.decided } else p.2)
  | .beginReplayIteration config =>
    let r := p.1.beginReplayIteration config
    (r.1, if r.2 then { p.2 with swaps := [] } else p.2)
  | .endReplayIteration => (p.1.endReplayIteration, { p.2 with swaps := [] })
  | .discardReplayFrame => (p.1.discardReplayFrame, { p.2 with swaps := [] })
  | .clear => (State.clear, { p.2 with swaps := [] })
  | .recordReplayImmediateSwap swap frameJustRendered =>
    (p.1.recordReplayImmediateSwap swap frameJustRendered,
      if p.1.replaying then { p.2 with swaps := p.2.swaps ++ [(swap, frameJustRendered)] } else p.2)
  | .consumeReplayImmediateSwap =>
    let r := p.1.consumeReplayImmediateSwap
    (r.1, if r.2.isSome then { p.2 with swaps := [] } else p.2)

/-- The first swap at a frame boundary, if any, else the first one. -/
def History.chosen (h : History) : Option Swap :=
  ((h.swaps.find? fun swap => swap.2).or h.swaps.head?).map Prod.fst

/-- No replay iteration is begun or ended while a capture window is open. -/
def Allowed (s : State) : Operation → Prop
  | .beginReplayIteration config =>
    s.captureWindowArmed = false ∨ (s.beginReplayIteration config).2 = false
  | .endReplayIteration => s.captureWindowArmed = false
  | _ => True

end OpcodeReplay
