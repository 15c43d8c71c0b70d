import PrimedSteam.Lib.Heap
import Mathlib.Algebra.Order.Group.Multiset
import Mathlib.Tactic.Abel

/-!
# The event scheduler

`Manager` holds what `CoreTimingManager` reads and writes when it schedules, moves, removes and
dispatches events, together with the downcount of the emulated CPU.

* `Event` is ordered by `(time, fifoOrder)` (`Event.le`).
* `scheduleEvent`, `removeEvent`, `removeAllEvents`, `moveEvents`, `forceExceptionCheck` and the
  parts of `Advance`: `advanceBegin` (everything before the dispatch loop), `popFront` (one loop
  iteration up to the callback) and `advanceEnd` (everything after the loop).

The vector algorithms are any `HeapOps`; the two floating point conversions between CPU cycles and
downcount are any pair of functions.
-/

set_option autoImplicit false

namespace CoreTiming

open BinaryHeap

/-- The value of a 64-bit computation read as `s64`. -/
def toS64 (x : ℤ) : ℤ := x.bmod (2 ^ 64)

/-- The value fits an `s64`. -/
def InS64 (x : ℤ) : Prop := -2 ^ 63 ≤ x ∧ x < 2 ^ 63

instance : DecidablePred InS64 := fun x => by unfold InS64; infer_instance

theorem toS64_of_inS64 {x : ℤ} (h : InS64 x) : toS64 x = x := by
  unfold InS64 at h
  exact Int.bmod_eq_of_le (by omega) (by omega)

/-- The value of a 64-bit computation read as `u64`. -/
def toU64 (x : ℤ) : ℕ := (x % 2 ^ 64).toNat

/-- Event types are registered under unique names; the name stands for the `EventType*`. -/
abbrev EventType := String

/-- An `Event`. `ticket` is a ghost: it tells the calls of `ScheduleEvent` apart, and no function
below reads it. -/
structure Event where
  time : ℤ
  fifoOrder : ℕ
  userdata : ℕ
  type : EventType
  ticket : ℕ
  deriving DecidableEq, Repr

namespace Event

/-- `<=` of the defaulted three-way comparison on `std::tie(time, fifo_order)`. -/
def le (a b : Event) : Prop := a.time < b.time ∨ (a.time = b.time ∧ a.fifoOrder ≤ b.fifoOrder)

instance : DecidableRel le := fun a b => by unfold le; infer_instance

instance : Std.Total le := ⟨fun a b => by unfold le; omega⟩

instance : Std.Refl le := ⟨fun a => by unfold le; omega⟩

instance : IsTrans Event le := ⟨fun a b c => by unfold le; omega⟩

/-- What a call of `ScheduleEvent` fixes for good: which call it was, its type and its data. -/
def origin (e : Event) : ℕ × EventType × ℕ := (e.ticket, e.type, e.userdata)

end Event

/-- A CPU overclock factor, as the two conversions made with it and with its inverse. -/
structure OverclockFactor where
  downcountToCycles : ℤ → ℤ
  cyclesToDowncount : ℤ → ℤ

/-- Factor `1.0f`. -/
def OverclockFactor.one : OverclockFactor := ⟨id, id⟩

structure Manager where
  globalTimer : ℤ
  sliceLength : ℤ
  /-- `PowerPCState::downcount` -/
  downcount : ℤ
  eventQueue : List Event
  eventFifoId : ℕ
  tsQueue : List Event
  lastOcFactor : OverclockFactor
  configOcFactor : OverclockFactor
  isGlobalTimerSane : Bool

def maxSliceLength : ℤ := 20000

/-- The state `Init` leaves, for a configured overclock factor. -/
def init (factor : OverclockFactor) : Manager where
  globalTimer := 0
  sliceLength := maxSliceLength
  downcount := factor.cyclesToDowncount maxSliceLength
  eventQueue := []
  eventFifoId := 0
  tsQueue := []
  lastOcFactor := factor
  configOcFactor := factor
  isGlobalTimerSane := true

namespace Manager

variable (H : HeapOps Event.le) (m : Manager)

def downcountToCycles : ℤ := m.lastOcFactor.downcountToCycles m.downcount

def getTicks : ℕ :=
  if m.isGlobalTimerSane then toU64 m.globalTimer
  else toU64 (m.globalTimer + (m.sliceLength - m.downcountToCycles))

def forceExceptionCheck (cycles : ℤ) : Manager :=
  let cycles := max 0 cycles
  if m.downcountToCycles > cycles then
    { m with
      sliceLength := m.sliceLength - (m.downcountToCycles - cycles)
      downcount := m.lastOcFactor.cyclesToDowncount cycles }
  else m

/-- `emplace_back` an event that takes the next fifo id, then `push_heap`. -/
def pushEvent (time : ℤ) (ev : Event) : Manager :=
  { m with
    eventQueue := H.pushHeap (m.eventQueue ++ [{ ev with time := time, fifoOrder := m.eventFifoId }])
    eventFifoId := (m.eventFifoId + 1) % 2 ^ 64 }

inductive FromThread where
  | cpu | nonCpu | any
  deriving DecidableEq

/-- Whether an event counts as scheduled from the CPU thread. A caller on the wrong thread only
trips an assertion message. -/
def FromThread.fromCpuThread (source : FromThread) (isCpuThread : Bool) : Bool :=
  if source = .any then isCpuThread else source = .cpu

/-- `ScheduleEvent`, called on the CPU thread when `isCpuThread`. -/
def scheduleEvent (isCpuThread : Bool) (cyclesIntoFuture : ℤ) (eventType : EventType)
    (userdata : ℕ) (source : FromThread) (ticket : ℕ) : Manager :=
  if source.fromCpuThread isCpuThread then
    let timeout := toS64 (m.getTicks + cyclesIntoFuture)
    let m' := if m.isGlobalTimerSane then m else m.forceExceptionCheck cyclesIntoFuture
    m'.pushEvent H timeout ⟨timeout, 0, userdata, eventType, ticket⟩
  else
    { m with tsQueue := m.tsQueue ++ [⟨cyclesIntoFuture, 0, userdata, eventType, ticket⟩] }

/-- The events `RemoveEvent` erases. -/
def erased (eventType : EventType) : List Event :=
  m.eventQueue.filter fun e => e.type = eventType

def removeEvent (eventType : EventType) : Manager :=
  let rest := m.eventQueue.filter fun e => ¬ e.type = eventType
  if (m.erased eventType).length ≠ 0 then { m with eventQueue := H.makeHeap rest }
  else { m with eventQueue := rest }

/-- One iteration of the loop of `MoveEvents`, on the front `ev` of the off-thread queue. -/
def moveEvent (ev : Event) : Manager := m.pushEvent H (toS64 (ev.time + m.globalTimer)) ev

def moveEvents : Manager :=
  { m.tsQueue.foldl (fun m ev => m.moveEvent H ev) m with tsQueue := [] }

def removeAllEvents (eventType : EventType) : Manager :=
  (m.moveEvents H).removeEvent H eventType

/-- `Advance`, up to its dispatch loop. -/
def advanceBegin : Manager :=
  let m := m.moveEvents H
  let cyclesExecuted := m.sliceLength - m.downcountToCycles
  { m with
    globalTimer := toS64 (m.globalTimer + cyclesExecuted)
    lastOcFactor := m.configOcFactor
    sliceLength := maxSliceLength
    isGlobalTimerSane := true }

/-- The loop condition of `Advance`: the event at the front of the queue, when it is due. -/
def dueFront : Option Event :=
  match m.eventQueue with
  | [] => none
  | evt :: _ => if evt.time ≤ m.globalTimer then some evt else none

/-- `pop_heap` and `pop_back`. -/
def popFront : Manager := { m with eventQueue := (H.popHeap m.eventQueue).dropLast }

/-- `Advance`, after its dispatch loop. -/
def advanceEnd : Manager :=
  let sliceLength := match m.eventQueue with
    | [] => m.sliceLength
    | evt :: _ => min (evt.time - m.globalTimer) maxSliceLength
  { m with
    isGlobalTimerSane := false
    sliceLength := sliceLength
    downcount := m.lastOcFactor.cyclesToDowncount sliceLength }

end Manager

end CoreTiming
