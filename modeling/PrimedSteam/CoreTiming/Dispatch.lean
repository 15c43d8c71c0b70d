import PrimedSteam.CoreTiming.Manager
import PrimedSteam.Lib.Transition
import Mathlib.Algebra.Order.Group.Multiset
import Mathlib.Tactic.Abel

/-!
# Runs of the scheduler

`System` is the scheduler between two atomic actions of the CPU thread or of another thread: outside
`Advance`, in its dispatch loop, or inside a callback that the loop has called. `System.step` takes
one action; any sequence of actions is a run.

* `isHeap`: the event queue is a heap on `(time, fifoOrder)` in every state reached.
* `accounted`: the scheduled events are the dispatched, the removed and the two queues' events.
* **`dispatch_in_order`**: both facts, what `Advance` dispatches, and what it leaves behind.
-/

set_option autoImplicit false

namespace CoreTiming

open BinaryHeap Transition

/-- An event's identity through its life. -/
abbrev Origin := ℕ × EventType × ℕ

namespace Manager

variable (H : HeapOps Event.le) (m : Manager)

/-- The origins of a list of events, as a multiset. -/
def origins (l : List Event) : Multiset Origin := (l.map Event.origin : List Origin)

@[simp] theorem origins_nil : origins [] = 0 := rfl

@[simp] theorem origins_cons (e : Event) (l : List Event) :
    origins (e :: l) = e.origin ::ₘ origins l := rfl

@[simp] theorem origins_append (l l' : List Event) :
    origins (l ++ l') = origins l + origins l' := by
  simp [origins]

theorem origins_perm {l l' : List Event} (h : l.Perm l') : origins l = origins l' :=
  Multiset.coe_eq_coe.mpr (h.map _)

theorem origins_filter_add (p : Event → Prop) [DecidablePred p] (l : List Event) :
    origins (l.filter fun e => p e) + origins (l.filter fun e => ¬ p e) = origins l := by
  induction l with
  | nil => rfl
  | cons e l ih =>
    by_cases h : p e
    · simp [h, ← ih]
    · simp [h, ← ih]

/-- The origins of all events that wait in one of the two queues. -/
def pending : Multiset Origin := origins m.eventQueue + origins m.tsQueue

/-! ## Each operation keeps the heap and accounts for the events -/

theorem pushEvent_isHeap {m : Manager} (h : IsHeap Event.le m.eventQueue) (time : ℤ) (ev : Event) :
    IsHeap Event.le (m.pushEvent H time ev).eventQueue :=
  H.pushHeap_isHeap _ _ h

theorem pushEvent_pending {m : Manager} (h : IsHeap Event.le m.eventQueue) (time : ℤ) (ev : Event) :
    (m.pushEvent H time ev).pending = ev.origin ::ₘ m.pending := by
  have hp := origins_perm (H.pushHeap_perm m.eventQueue
    { ev with time := time, fifoOrder := m.eventFifoId } h)
  simp only [pending, pushEvent, hp, origins_append, origins_cons, origins_nil, Event.origin]
  rw [← Multiset.singleton_add, ← Multiset.singleton_add, add_zero]
  abel

@[simp] theorem forceExceptionCheck_eventQueue (c : ℤ) :
    (m.forceExceptionCheck c).eventQueue = m.eventQueue := by
  unfold forceExceptionCheck; dsimp only; split <;> rfl

@[simp] theorem forceExceptionCheck_tsQueue (c : ℤ) :
    (m.forceExceptionCheck c).tsQueue = m.tsQueue := by
  unfold forceExceptionCheck; dsimp only; split <;> rfl

@[simp] theorem forceExceptionCheck_eventFifoId (c : ℤ) :
    (m.forceExceptionCheck c).eventFifoId = m.eventFifoId := by
  unfold forceExceptionCheck; dsimp only; split <;> rfl

/-- **What a call of `ScheduleEvent` does**: on the CPU thread it pushes one event, on a manager
with the same queues and counter; off-thread it appends one event to the other queue. -/
theorem scheduleEvent_cases (isCpuThread : Bool) (cycles : ℤ) (type : EventType) (userdata : ℕ)
    (source : FromThread) (ticket : ℕ) :
    (∃ m' : Manager, ∃ time, m'.eventQueue = m.eventQueue ∧ m'.tsQueue = m.tsQueue ∧
      m'.eventFifoId = m.eventFifoId ∧
      m.scheduleEvent H isCpuThread cycles type userdata source ticket =
        m'.pushEvent H time ⟨time, 0, userdata, type, ticket⟩) ∨
    m.scheduleEvent H isCpuThread cycles type userdata source ticket =
      { m with tsQueue := m.tsQueue ++ [⟨cycles, 0, userdata, type, ticket⟩] } := by
  unfold scheduleEvent
  dsimp only
  split
  · left
    split
    · exact ⟨m, _, rfl, rfl, rfl, rfl⟩
    · exact ⟨m.forceExceptionCheck cycles, _, by simp, by simp, by simp, rfl⟩
  · exact Or.inr rfl

theorem scheduleEvent_isHeap {m : Manager} (h : IsHeap Event.le m.eventQueue) (isCpuThread : Bool)
    (cycles : ℤ) (type : EventType) (userdata : ℕ) (source : FromThread) (ticket : ℕ) :
    IsHeap Event.le
      (m.scheduleEvent H isCpuThread cycles type userdata source ticket).eventQueue := by
  rcases m.scheduleEvent_cases H isCpuThread cycles type userdata source ticket with
    ⟨m', time, hq, -, -, he⟩ | he
  · rw [he]; exact pushEvent_isHeap H (hq ▸ h) _ _
  · rw [he]; exact h

theorem scheduleEvent_pending {m : Manager} (h : IsHeap Event.le m.eventQueue) (isCpuThread : Bool)
    (cycles : ℤ) (type : EventType) (userdata : ℕ) (source : FromThread) (ticket : ℕ) :
    (m.scheduleEvent H isCpuThread cycles type userdata source ticket).pending =
      (ticket, type, userdata) ::ₘ m.pending := by
  rcases m.scheduleEvent_cases H isCpuThread cycles type userdata source ticket with
    ⟨m', time, hq, ht, -, he⟩ | he
  · rw [he, pushEvent_pending H (hq ▸ h)]
    simp [pending, hq, ht, Event.origin]
  · rw [he]
    simp only [pending, origins_append, origins_cons, origins_nil, Event.origin]
    rw [← Multiset.singleton_add, ← Multiset.singleton_add, add_zero]
    abel

theorem filter_eq_self_of_erased {m : Manager} {type : EventType}
    (h : ¬ (m.erased type).length ≠ 0) :
    (m.eventQueue.filter fun e => ¬ e.type = type) = m.eventQueue := by
  rw [List.filter_eq_self]
  intro e he
  by_contra hc
  have : e ∈ m.erased type := List.mem_filter.mpr ⟨he, by simpa using hc⟩
  rw [List.length_eq_zero_iff.mp (not_not.mp h)] at this
  exact absurd this (by simp)

theorem removeEvent_isHeap {m : Manager} (h : IsHeap Event.le m.eventQueue) (type : EventType) :
    IsHeap Event.le (m.removeEvent H type).eventQueue := by
  unfold removeEvent
  dsimp only
  split
  · exact H.makeHeap_isHeap _
  · next he => rw [filter_eq_self_of_erased he]; exact h

theorem removeEvent_perm (type : EventType) :
    (m.removeEvent H type).eventQueue.Perm (m.eventQueue.filter fun e => ¬ e.type = type) := by
  unfold removeEvent
  dsimp only
  split
  · exact H.makeHeap_perm _
  · exact List.Perm.refl _

@[simp] theorem removeEvent_tsQueue (type : EventType) :
    (m.removeEvent H type).tsQueue = m.tsQueue := by
  unfold removeEvent; dsimp only; split <;> rfl

theorem removeEvent_pending (type : EventType) :
    origins (m.erased type) + (m.removeEvent H type).pending = m.pending := by
  rw [pending, pending, origins_perm (m.removeEvent_perm H type), removeEvent_tsQueue, ← add_assoc,
    erased, origins_filter_add]

/-- The loop of `MoveEvents`, on the events `l` still to be moved. -/
theorem foldl_moveEvent {m : Manager} (h : IsHeap Event.le m.eventQueue) (l : List Event) :
    IsHeap Event.le (l.foldl (fun m ev => m.moveEvent H ev) m).eventQueue ∧
      origins (l.foldl (fun m ev => m.moveEvent H ev) m).eventQueue =
        origins l + origins m.eventQueue := by
  induction l generalizing m with
  | nil => exact ⟨h, by simp⟩
  | cons ev l ih =>
    have hpush := pushEvent_pending H h (toS64 (ev.time + m.globalTimer)) ev
    obtain ⟨h1, h2⟩ := ih (m := m.moveEvent H ev) (pushEvent_isHeap H h _ _)
    refine ⟨h1, ?_⟩
    simp only [pending, pushEvent] at hpush
    simp only [List.foldl_cons, origins_cons]
    rw [h2, moveEvent, pushEvent]
    dsimp only
    rw [← Multiset.cons_add, add_left_inj] at hpush
    rw [hpush, Multiset.add_cons, Multiset.cons_add]

theorem moveEvents_isHeap {m : Manager} (h : IsHeap Event.le m.eventQueue) :
    IsHeap Event.le (m.moveEvents H).eventQueue :=
  (foldl_moveEvent H h m.tsQueue).1

theorem moveEvents_pending {m : Manager} (h : IsHeap Event.le m.eventQueue) :
    (m.moveEvents H).pending = m.pending := by
  have := (foldl_moveEvent H h m.tsQueue).2
  simp only [pending, moveEvents, this, origins_nil, add_zero]
  exact add_comm _ _

theorem advanceBegin_isHeap {m : Manager} (h : IsHeap Event.le m.eventQueue) :
    IsHeap Event.le (m.advanceBegin H).eventQueue :=
  moveEvents_isHeap H h

theorem advanceBegin_pending {m : Manager} (h : IsHeap Event.le m.eventQueue) :
    (m.advanceBegin H).pending = m.pending :=
  moveEvents_pending H h

theorem dueFront_eq_some {m : Manager} {e : Event} (h : m.dueFront = some e) :
    ∃ l, m.eventQueue = e :: l ∧ e.time ≤ m.globalTimer := by
  unfold dueFront at h
  split at h
  · cases h
  · next evt l hq =>
    split at h
    · next ht => cases h; exact ⟨l, hq, ht⟩
    · cases h

theorem popFront_isHeap {m : Manager} (h : IsHeap Event.le m.eventQueue) {e : Event}
    {l : List Event} (hq : m.eventQueue = e :: l) : IsHeap Event.le (m.popFront H).eventQueue := by
  simp only [popFront, hq]
  exact H.dropLast_popHeap_isHeap (hq ▸ h)

theorem popFront_pending {m : Manager} (h : IsHeap Event.le m.eventQueue) {e : Event}
    {l : List Event} (hq : m.eventQueue = e :: l) :
    e.origin ::ₘ (m.popFront H).pending = m.pending := by
  have hp := origins_perm (H.dropLast_popHeap_perm (hq ▸ h))
  simp only [pending, popFront, hq, hp, origins_cons, Multiset.cons_add]

/-- **The front of the queue is the least event in it.** -/
theorem dueFront_least {m : Manager} (h : IsHeap Event.le m.eventQueue) {e : Event}
    (he : m.dueFront = some e) :
    e ∈ m.eventQueue ∧ e.time ≤ m.globalTimer ∧ ∀ e' ∈ m.eventQueue, e.le e' := by
  obtain ⟨l, hq, ht⟩ := dueFront_eq_some he
  rw [hq] at h ⊢
  exact ⟨List.mem_cons_self, ht, h.head_le⟩

/-- When the loop condition fails, no event in the queue is due. -/
theorem not_due_of_dueFront {m : Manager} (h : IsHeap Event.le m.eventQueue)
    (he : m.dueFront = none) : ∀ e ∈ m.eventQueue, m.globalTimer < e.time := by
  unfold dueFront at he
  split at he
  · next hq => simp [hq]
  · next evt l hq =>
    split at he
    · cases he
    · next ht =>
      intro e hmem
      have hle : evt.le e := (hq ▸ h).head_le e (hq ▸ hmem)
      unfold Event.le at hle
      omega

end Manager

/-! ## Runs -/

/-- Where the CPU thread is. -/
inductive Phase where
  | running     -- outside Advance
  | dispatching -- at the condition of the loop in Advance
  | inCallback  -- in a callback called by the loop
  deriving DecidableEq

/-- The scheduler with what has happened to its events so far. -/
structure System where
  mgr : Manager
  phase : Phase
  scheduled : List Origin
  dispatched : List Event
  removed : List Event

/-- One action of the CPU thread or of another thread. -/
inductive Action where
  | scheduleEvent (isCpuThread : Bool) (cycles : ℤ) (type : EventType) (userdata : ℕ)
      (source : Manager.FromThread)
  | removeEvent (type : EventType)
  | removeAllEvents (type : EventType)
  | moveEvents
  | execute (downcount : ℤ) -- the CPU runs emulated code
  | configure (factor : OverclockFactor) -- the configured overclock factor changes
  | advance
  | dispatch
  | callbackReturn
  | advanceEnd

namespace System

variable (H : HeapOps Event.le)

def init (factor : OverclockFactor) : System :=
  ⟨CoreTiming.init factor, .running, [], [], []⟩

/-- One action. A call of `ScheduleEvent` from another thread is possible at any time; the CPU
thread makes calls outside `Advance` and from callbacks, and callbacks do not call `Advance`. -/
def step (s : System) : Action → Option System
  | .scheduleEvent isCpuThread cycles type userdata source =>
    if isCpuThread ∧ s.phase = .dispatching then none else
      let ticket := s.scheduled.length
      some { s with
        mgr := s.mgr.scheduleEvent H isCpuThread cycles type userdata source ticket
        scheduled := s.scheduled ++ [(ticket, type, userdata)] }
  | .removeEvent type =>
    if s.phase = .dispatching then none else
      some { s with
        mgr := s.mgr.removeEvent H type
        removed := s.removed ++ s.mgr.erased type }
  | .removeAllEvents type =>
    if s.phase = .dispatching then none else
      some { s with
        mgr := s.mgr.removeAllEvents H type
        removed := s.removed ++ (s.mgr.moveEvents H).erased type }
  | .moveEvents =>
    if s.phase = .dispatching then none else some { s with mgr := s.mgr.moveEvents H }
  | .execute downcount =>
    if s.phase = .running then some { s with mgr := { s.mgr with downcount := downcount } }
    else none
  | .configure factor =>
    if s.phase = .dispatching then none else
      some { s with mgr := { s.mgr with configOcFactor := factor } }
  | .advance =>
    if s.phase = .running then some { s with mgr := s.mgr.advanceBegin H, phase := .dispatching }
    else none
  | .dispatch =>
    if s.phase = .dispatching then
      s.mgr.dueFront.map fun evt =>
        { s with
          mgr := s.mgr.popFront H
          phase := .inCallback
          dispatched := s.dispatched ++ [evt] }
    else none
  | .callbackReturn =>
    if s.phase = .inCallback then some { s with phase := .dispatching } else none
  | .advanceEnd =>
    if s.phase = .dispatching ∧ s.mgr.dueFront = none then
      some { s with mgr := s.mgr.advanceEnd, phase := .running }
    else none

/-- The states a run of the scheduler can reach after `Init`. -/
abbrev Reachable (factor : OverclockFactor) : System → Prop :=
  Reach (step H) anyStep (init factor)

/-- Each scheduled event is dispatched, removed, or waits in one of the queues. -/
def Accounted (s : System) : Prop :=
  Manager.origins s.dispatched + Manager.origins s.removed + s.mgr.pending = s.scheduled

/-- The invariant of the runs. -/
structure Inv (s : System) : Prop where
  isHeap : IsHeap Event.le s.mgr.eventQueue
  accounted : s.Accounted
  tickets : s.scheduled.map Prod.fst = List.range s.scheduled.length

theorem inv_init (factor : OverclockFactor) : Inv (init factor) where
  isHeap := isHeap_nil _
  accounted := rfl
  tickets := rfl

theorem Accounted.of_removed {s : System} (h : s.Accounted) {m : Manager} {l : List Event}
    (hm : Manager.origins l + m.pending = s.mgr.pending) :
    Accounted { s with mgr := m, removed := s.removed ++ l } := by
  unfold Accounted at *
  dsimp only
  rw [Manager.origins_append, ← h, ← hm]
  abel

theorem Inv.scheduleEvent {s : System} (h : Inv s) (isCpuThread : Bool) (cycles : ℤ)
    (type : EventType) (userdata : ℕ) (source : Manager.FromThread) :
    Inv { s with
      mgr := s.mgr.scheduleEvent H isCpuThread cycles type userdata source s.scheduled.length
      scheduled := s.scheduled ++ [(s.scheduled.length, type, userdata)] } where
  isHeap := Manager.scheduleEvent_isHeap H h.isHeap _ _ _ _ _ _
  accounted := by
    have ha := h.accounted
    unfold Accounted at *
    dsimp only
    rw [Manager.scheduleEvent_pending H h.isHeap, Multiset.add_cons, ha, Multiset.cons_coe]
    exact Multiset.coe_eq_coe.mpr (List.perm_append_singleton _ _).symm
  tickets := by
    dsimp only
    rw [List.map_append, h.tickets, List.length_append]
    exact List.range_succ.symm

theorem Inv.removeEvent {s : System} (h : Inv s) (type : EventType) :
    Inv { s with
      mgr := s.mgr.removeEvent H type
      removed := s.removed ++ s.mgr.erased type } where
  isHeap := Manager.removeEvent_isHeap H h.isHeap type
  accounted := h.accounted.of_removed (s.mgr.removeEvent_pending H type)
  tickets := h.tickets

/-- Replacing the manager keeps the invariant when the queues keep their events. -/
theorem Inv.with_mgr {s : System} (h : Inv s) {m : Manager} {phase : Phase}
    (hh : IsHeap Event.le m.eventQueue) (hp : m.pending = s.mgr.pending) :
    Inv { s with mgr := m, phase := phase } where
  isHeap := hh
  accounted := by
    have ha := h.accounted
    unfold Accounted at *
    dsimp only
    rw [hp, ha]
  tickets := h.tickets

theorem Inv.dispatch {s : System} (h : Inv s) {evt : Event} (he : s.mgr.dueFront = some evt) :
    Inv { s with
      mgr := s.mgr.popFront H
      phase := .inCallback
      dispatched := s.dispatched ++ [evt] } := by
  obtain ⟨l, hq, -⟩ := Manager.dueFront_eq_some he
  refine ⟨Manager.popFront_isHeap H h.isHeap hq, ?_, h.tickets⟩
  have ha := h.accounted
  unfold Accounted at *
  dsimp only
  rw [← ha, ← Manager.popFront_pending H h.isHeap hq, Manager.origins_append,
    Manager.origins_cons, Manager.origins_nil, ← Multiset.singleton_add, ← Multiset.singleton_add]
  abel

/-- **Every action keeps the invariant.** -/
theorem step_inv {s s' : System} {a : Action} (h : Inv s) (hs : step H s a = some s') : Inv s' := by
  cases a with
  | scheduleEvent isCpuThread cycles type userdata source =>
    obtain ⟨-, ⟨⟩⟩ := Option.ite_none_left_eq_some.mp hs
    exact h.scheduleEvent H ..
  | removeEvent type =>
    obtain ⟨-, ⟨⟩⟩ := Option.ite_none_left_eq_some.mp hs
    exact h.removeEvent H type
  | removeAllEvents type =>
    obtain ⟨-, ⟨⟩⟩ := Option.ite_none_left_eq_some.mp hs
    have hm : Inv { s with mgr := s.mgr.moveEvents H } :=
      h.with_mgr (Manager.moveEvents_isHeap H h.isHeap) (Manager.moveEvents_pending H h.isHeap)
    exact hm.removeEvent H type
  | moveEvents =>
    obtain ⟨-, ⟨⟩⟩ := Option.ite_none_left_eq_some.mp hs
    exact h.with_mgr (Manager.moveEvents_isHeap H h.isHeap) (Manager.moveEvents_pending H h.isHeap)
  | execute downcount =>
    obtain ⟨-, ⟨⟩⟩ := Option.ite_none_right_eq_some.mp hs
    exact h.with_mgr h.isHeap rfl
  | configure factor =>
    obtain ⟨-, ⟨⟩⟩ := Option.ite_none_left_eq_some.mp hs
    exact h.with_mgr h.isHeap rfl
  | advance =>
    obtain ⟨-, ⟨⟩⟩ := Option.ite_none_right_eq_some.mp hs
    exact h.with_mgr (Manager.advanceBegin_isHeap H h.isHeap)
      (Manager.advanceBegin_pending H h.isHeap)
  | dispatch =>
    obtain ⟨-, hd⟩ := Option.ite_none_right_eq_some.mp hs
    obtain ⟨evt, he, rfl⟩ := Option.map_eq_some_iff.mp hd
    exact h.dispatch H he
  | callbackReturn =>
    obtain ⟨-, ⟨⟩⟩ := Option.ite_none_right_eq_some.mp hs
    exact h.with_mgr h.isHeap rfl
  | advanceEnd =>
    obtain ⟨-, ⟨⟩⟩ := Option.ite_none_right_eq_some.mp hs
    exact h.with_mgr h.isHeap rfl

theorem Reachable.inv {factor : OverclockFactor} {s : System} (hs : Reachable H factor s) : Inv s :=
  Reach.invariant hs (inv_init factor) fun _ _ _ h _ hstep => step_inv H h hstep

/-- How often `o` occurs among the dispatched and the removed events and in the two queues. -/
def places (s : System) (o : Origin) : ℕ :=
  (Manager.origins s.dispatched).count o + (Manager.origins s.removed).count o +
    (Manager.origins s.mgr.eventQueue).count o + (Manager.origins s.mgr.tsQueue).count o

theorem Inv.places_eq {s : System} (h : Inv s) (o : Origin) :
    s.places o = (s.scheduled : Multiset Origin).count o := by
  rw [← h.accounted, Manager.pending, Multiset.count_add, Multiset.count_add, Multiset.count_add]
  exact add_assoc _ _ _

theorem Inv.scheduled_nodup {s : System} (h : Inv s) : s.scheduled.Nodup :=
  List.Nodup.of_map Prod.fst (h.tickets ▸ List.nodup_range)

/-- **The scheduler dispatches in order and loses nothing.** In every state a run reaches, the event
queue is a heap on `(time, fifoOrder)`; the event `Advance` dispatches next is due and is the least
event in the queue; when the loop of `Advance` ends, no event in the queue is due; and each event
ever scheduled is in exactly one place: dispatched once, removed, or in one of the two queues. -/
theorem dispatch_in_order {factor : OverclockFactor} {s : System} (hs : Reachable H factor s) :
    IsHeap Event.le s.mgr.eventQueue ∧
    (∀ s', step H s .dispatch = some s' → ∃ evt, s'.dispatched = s.dispatched ++ [evt] ∧
      evt ∈ s.mgr.eventQueue ∧ evt.time ≤ s.mgr.globalTimer ∧ ∀ e ∈ s.mgr.eventQueue, evt.le e) ∧
    (∀ s', step H s .advanceEnd = some s' →
      s'.mgr.eventQueue = s.mgr.eventQueue ∧ ∀ e ∈ s.mgr.eventQueue, s.mgr.globalTimer < e.time) ∧
    s.scheduled.Nodup ∧ (∀ o, s.places o = if o ∈ s.scheduled then 1 else 0) := by
  have h := Reachable.inv H hs
  refine ⟨h.isHeap, fun s' hd => ?_, fun s' he => ?_, h.scheduled_nodup, fun o => ?_⟩
  · obtain ⟨-, hd⟩ := Option.ite_none_right_eq_some.mp hd
    obtain ⟨evt, he, rfl⟩ := Option.map_eq_some_iff.mp hd
    exact ⟨evt, rfl, Manager.dueFront_least h.isHeap he⟩
  · obtain ⟨⟨-, hnone⟩, ⟨⟩⟩ := Option.ite_none_right_eq_some.mp he
    exact ⟨rfl, Manager.not_due_of_dueFront h.isHeap hnone⟩
  · rw [h.places_eq, Multiset.count_eq_of_nodup (Multiset.coe_nodup.mpr h.scheduled_nodup)]
    simp only [Multiset.mem_coe]

/-- A run in which a late off-thread event overtakes two others, and its callback schedules into the
past and removes one of them. -/
def lateRun : List Action :=
  [.scheduleEvent true 5 "a" 1 .cpu, .scheduleEvent true 5 "b" 2 .cpu,
    .scheduleEvent false (-3) "c" 3 .nonCpu, .execute 19990, .advance, .dispatch,
    .scheduleEvent true (-1000) "a" 4 .cpu, .removeEvent "b", .callbackReturn, .dispatch]

theorem dispatch_in_order_lateRun :
    ∃ s, Reachable (.ofSort Event.le) .one s ∧ s.dispatched.map Event.userdata = [3, 4] ∧
      IsHeap Event.le s.mgr.eventQueue ∧ s.places (0, "a", 1) = 1 := by
  obtain ⟨s, hrun, hs⟩ := Option.map_eq_some_iff.mp
    (show (run (step (.ofSort Event.le)) anyStep (init .one) lateRun).map
        (fun s => (s.dispatched.map Event.userdata, s.scheduled.head?)) =
      some ([3, 4], some (0, "a", 1)) by decide +kernel)
  obtain ⟨hd, hhead⟩ := Prod.mk.inj hs
  obtain ⟨hheap, -, -, -, hplaces⟩ := dispatch_in_order _ (run_reach .refl hrun)
  exact ⟨s, run_reach .refl hrun, hd, hheap, by rw [hplaces, if_pos (List.mem_of_mem_head? hhead)]⟩

end System

end CoreTiming
