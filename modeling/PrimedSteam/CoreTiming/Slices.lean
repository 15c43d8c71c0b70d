import PrimedSteam.CoreTiming.Dispatch
import Mathlib.Logic.Function.Basic

/-!
# The slices between two calls of `Advance`

With overclock factor 1, the time inside a slice is the difference `sliceLength - downcount`, and both
are rewritten whenever an event has to come before the end of the slice.

* `Timeline`: the scheduler with the tick of each call of `ScheduleEvent`.
* `Timeline.Inv`: a slice ends no later than each event in the queue, or than the tick at which the
  event was scheduled.
* **`slice_ends_in_time`**: that, the ticks that no action turns back, and how late an event is.

A run may not call `Idle` once `downcount` is below zero, and no timeout overflows.
-/

set_option autoImplicit false

namespace CoreTiming

open BinaryHeap Transition

namespace Manager

variable (H : HeapOps Event.le) (m : Manager)

/-- The CPU executes a number of cycles. -/
def execute (cycles : ℕ) : Manager := { m with downcount := m.downcount - cycles }

/-- What `Idle` does to the downcount. -/
def idle : Manager := { m with downcount := 0 }

/-- The tick that the cycles executed in the slice lead to. -/
def elapsed : ℤ := m.globalTimer + (m.sliceLength - m.downcount)

/-- The tick that `GetTicks` reads. -/
def now : ℤ := if m.isGlobalTimerSane then m.globalTimer else m.elapsed

/-! ## The clock under each operation -/

theorem foldl_moveEvent_eq (l : List Event) : ∀ m : Manager,
    l.foldl (fun m ev => m.moveEvent H ev) m = { m with
      eventQueue := (l.foldl (fun m ev => m.moveEvent H ev) m).eventQueue
      eventFifoId := (l.foldl (fun m ev => m.moveEvent H ev) m).eventFifoId } := by
  induction l with
  | nil => exact fun m => rfl
  | cons ev l ih =>
    intro m
    rw [List.foldl_cons, ih]
    rfl

/-- `MoveEvents` writes the two queues and the fifo counter only. -/
theorem moveEvents_eq : m.moveEvents H = { m with
    eventQueue := (m.moveEvents H).eventQueue
    eventFifoId := (m.moveEvents H).eventFifoId
    tsQueue := [] } := by
  unfold moveEvents
  rw [foldl_moveEvent_eq]

variable {m}

theorem getTicks_eq (hfactor : m.lastOcFactor = .one) (hnow : 0 ≤ m.now ∧ m.now < 2 ^ 63) :
    (m.getTicks : ℤ) = m.now := by
  have hcycles : m.downcountToCycles = m.downcount := by rw [downcountToCycles, hfactor]; rfl
  have hval : m.getTicks = toU64 m.now := by
    rw [getTicks, now, elapsed, hcycles]
    split <;> rfl
  rw [hval, toU64, Int.emod_eq_of_lt hnow.1 (by omega)]
  exact Int.toNat_of_nonneg hnow.1

theorem now_le_now {downcount : ℤ} (hle : downcount ≤ m.downcount) :
    m.now ≤ ({ m with downcount := downcount } : Manager).now := by
  unfold now elapsed
  dsimp only
  cases m.isGlobalTimerSane with
  | true => exact le_rfl
  | false =>
    rw [if_neg Bool.false_ne_true, if_neg Bool.false_ne_true]
    omega

/-- `ForceExceptionCheck` moves the end of the slice and keeps the tick. -/
theorem forceExceptionCheck_spec (hfactor : m.lastOcFactor = .one) (cycles : ℤ) :
    ∃ sliceLength downcount, m.forceExceptionCheck cycles =
        { m with sliceLength := sliceLength, downcount := downcount } ∧
      sliceLength - downcount = m.sliceLength - m.downcount ∧ downcount ≤ m.downcount ∧
      downcount ≤ max 0 cycles := by
  have hcycles : m.downcountToCycles = m.downcount := by rw [downcountToCycles, hfactor]; rfl
  have hdowncount : m.lastOcFactor.cyclesToDowncount = id := by rw [hfactor]; rfl
  unfold forceExceptionCheck
  rw [hcycles, hdowncount]
  dsimp only [id]
  split
  · next hgt => exact ⟨_, _, rfl, by omega, by omega, le_rfl⟩
  · next hle => exact ⟨_, _, rfl, rfl, le_rfl, by omega⟩

theorem mem_pushEvent (h : IsHeap Event.le m.eventQueue) {time : ℤ} {ev e : Event} :
    e ∈ (m.pushEvent H time ev).eventQueue ↔
      e ∈ m.eventQueue ∨ e = { ev with time := time, fifoOrder := m.eventFifoId } := by
  rw [pushEvent, (H.pushHeap_perm m.eventQueue _ h).mem_iff, List.mem_append, List.mem_singleton]

theorem mem_of_mem_removeEvent {type : EventType} {e : Event}
    (he : e ∈ (m.removeEvent H type).eventQueue) : e ∈ m.eventQueue :=
  (List.mem_filter.mp ((m.removeEvent_perm H type).mem_iff.mp he)).1

theorem advanceBegin_eq (hfactor : m.lastOcFactor = .one) (hin : InS64 m.elapsed) :
    m.advanceBegin H = { m.moveEvents H with
      globalTimer := m.elapsed
      lastOcFactor := m.configOcFactor
      sliceLength := maxSliceLength
      isGlobalTimerSane := true } := by
  have hcycles : (m.moveEvents H).downcountToCycles = m.downcount := by
    rw [downcountToCycles, moveEvents_eq]
    dsimp only
    rw [hfactor]
    rfl
  have htimer : toS64 ((m.moveEvents H).globalTimer + ((m.moveEvents H).sliceLength - m.downcount)) =
      m.elapsed := by
    rw [moveEvents_eq]
    exact toS64_of_inS64 hin
  have hconfig : (m.moveEvents H).configOcFactor = m.configOcFactor := by rw [moveEvents_eq]
  unfold advanceBegin
  dsimp only
  rw [hcycles, htimer, hconfig]

/-- The slice that `Advance` starts after its loop, and where it ends. -/
theorem advanceEnd_spec (h : IsHeap Event.le m.eventQueue) (hfactor : m.lastOcFactor = .one)
    (hslice : m.sliceLength = maxSliceLength) (hdue : m.dueFront = none) :
    ∃ sliceLength, m.advanceEnd = { m with
        isGlobalTimerSane := false, sliceLength := sliceLength, downcount := sliceLength } ∧
      0 < sliceLength ∧ sliceLength ≤ maxSliceLength ∧
      ∀ e ∈ m.eventQueue, m.globalTimer + sliceLength ≤ e.time := by
  have hdowncount : m.lastOcFactor.cyclesToDowncount = id := by rw [hfactor]; rfl
  have hnot := not_due_of_dueFront h hdue
  unfold advanceEnd
  rw [hdowncount]
  cases hq : m.eventQueue with
  | nil =>
    refine ⟨m.sliceLength, by simp only [id], ?_, hslice.le, fun e he => absurd he List.not_mem_nil⟩
    rw [hslice]
    decide
  | cons evt l =>
    have hlt : m.globalTimer < evt.time := hnot evt (hq ▸ List.mem_cons_self)
    have hmax : (0 : ℤ) < maxSliceLength := by decide
    refine ⟨min (evt.time - m.globalTimer) maxSliceLength, by simp only [id], by omega,
      min_le_right _ _, fun e he => ?_⟩
    have hle : evt.le e := (hq ▸ h).head_le e he
    unfold Event.le at hle
    omega

end Manager

/-! ## Runs -/

/-- The scheduler with the tick of each call of `ScheduleEvent`. -/
structure Timeline where
  mgr : Manager
  phase : Phase
  /-- The ticket of the next call. -/
  ticket : ℕ
  /-- `GetTicks()` at the call with a ticket. -/
  scheduledAt : ℕ → ℕ

/-- One action of the CPU thread or of another thread. -/
inductive SliceAction where
  | execute (cycles : ℕ)
  | idle
  | scheduleEvent (isCpuThread : Bool) (cycles : ℤ) (type : EventType) (userdata : ℕ)
      (source : Manager.FromThread)
  | forceExceptionCheck (cycles : ℤ)
  | removeEvent (type : EventType)
  | advance
  | dispatch
  | callbackReturn
  | advanceEnd

namespace Timeline

variable (H : HeapOps Event.le)

/-- After `Init`, with overclock factor 1. -/
def init : Timeline := ⟨CoreTiming.init .one, .running, 0, fun _ => 0⟩

/-- One action. Code runs, and calls `Idle` and `ForceExceptionCheck`, outside `Advance`. -/
def step (t : Timeline) : SliceAction → Option Timeline
  | .execute cycles =>
    if t.phase = .running then some { t with mgr := t.mgr.execute cycles } else none
  | .idle =>
    if t.phase = .running then some { t with mgr := t.mgr.idle } else none
  | .scheduleEvent isCpuThread cycles type userdata source =>
    if isCpuThread ∧ t.phase = .dispatching then none else
      some { t with
        mgr := t.mgr.scheduleEvent H isCpuThread cycles type userdata source t.ticket
        ticket := t.ticket + 1
        scheduledAt := Function.update t.scheduledAt t.ticket t.mgr.getTicks }
  | .forceExceptionCheck cycles =>
    if t.phase = .running then some { t with mgr := t.mgr.forceExceptionCheck cycles } else none
  | .removeEvent type =>
    if t.phase = .dispatching then none else some { t with mgr := t.mgr.removeEvent H type }
  | .advance =>
    if t.phase = .running then some { t with mgr := t.mgr.advanceBegin H, phase := .dispatching }
    else none
  | .dispatch =>
    if t.phase = .dispatching then
      t.mgr.dueFront.map fun _ => { t with mgr := t.mgr.popFront H, phase := .inCallback }
    else none
  | .callbackReturn =>
    if t.phase = .inCallback then some { t with phase := .dispatching } else none
  | .advanceEnd =>
    if t.phase = .dispatching ∧ t.mgr.dueFront = none then
      some { t with mgr := t.mgr.advanceEnd, phase := .running }
    else none

/-- The runs that are considered: the ticks and the timeouts fit an `s64`, and `Idle` is not called
late. -/
def Fits (t : Timeline) : SliceAction → Prop
  | .execute cycles => t.mgr.elapsed + cycles < 2 ^ 63
  | .idle => 0 ≤ t.mgr.downcount ∧ t.mgr.globalTimer + t.mgr.sliceLength < 2 ^ 63
  | .scheduleEvent isCpuThread cycles _ _ source =>
    t.phase = .running → source.fromCpuThread isCpuThread = true → InS64 (t.mgr.now + cycles)
  | _ => True

/-- The states of these runs. -/
abbrev Reachable : Timeline → Prop := Reach (step H) Fits init

/-- The CPU runs emulated code in a slice. -/
def InSlice (t : Timeline) : Prop := t.phase = .running ∧ t.mgr.isGlobalTimerSane = false

/-- The slice ends no later than the event, or than the tick at which it was scheduled. -/
def InTime (t : Timeline) (e : Event) : Prop :=
  t.mgr.globalTimer + t.mgr.sliceLength ≤ max e.time (t.scheduledAt e.ticket)

/-- The invariant of the runs. -/
structure Inv (t : Timeline) : Prop where
  lastOcFactor : t.mgr.lastOcFactor = .one
  configOcFactor : t.mgr.configOcFactor = .one
  isHeap : IsHeap Event.le t.mgr.eventQueue
  tickets : ∀ o ∈ t.mgr.pending, o.1 < t.ticket
  timer : 0 ≤ t.mgr.globalTimer ∧ t.mgr.globalTimer < 2 ^ 63
  sane : t.phase ≠ .running →
    t.mgr.isGlobalTimerSane = true ∧ t.mgr.sliceLength = maxSliceLength
  elapsed : t.phase = .running → t.mgr.downcount ≤ t.mgr.sliceLength ∧ t.mgr.elapsed < 2 ^ 63
  inTime : t.InSlice → ∀ e ∈ t.mgr.eventQueue, t.InTime e

theorem inv_init : init.Inv where
  lastOcFactor := rfl
  configOcFactor := rfl
  isHeap := isHeap_nil _
  tickets _ ho := absurd ho (Multiset.notMem_zero _)
  timer := by decide
  sane hphase := absurd rfl hphase
  elapsed _ := by decide
  inTime hslice := Bool.noConfusion hslice.2

section Steps

variable {t : Timeline}

theorem Inv.now_bounds (h : t.Inv) : 0 ≤ t.mgr.now ∧ t.mgr.now < 2 ^ 63 := by
  have htimer := h.timer
  unfold Manager.now
  split
  · exact htimer
  · next hsane =>
    have hrunning : t.phase = .running := by
      by_contra hphase
      exact hsane (h.sane hphase).1
    have helapsed := h.elapsed hrunning
    unfold Manager.elapsed at helapsed ⊢
    omega

theorem Inv.getTicks_eq (h : t.Inv) : (t.mgr.getTicks : ℤ) = t.mgr.now :=
  Manager.getTicks_eq h.lastOcFactor h.now_bounds

theorem Inv.with_queues (h : t.Inv) {queue ts : List Event} {fifoId ticket : ℕ}
    {scheduledAt : ℕ → ℕ} (hheap : IsHeap Event.le queue)
    (htickets : ∀ o ∈ Manager.origins queue + Manager.origins ts, o.1 < ticket)
    (hinTime : t.InSlice → ∀ e ∈ queue,
      t.mgr.globalTimer + t.mgr.sliceLength ≤ max e.time (scheduledAt e.ticket)) :
    Inv ⟨{ t.mgr with eventQueue := queue, eventFifoId := fifoId, tsQueue := ts }, t.phase, ticket,
      scheduledAt⟩ where
  lastOcFactor := h.lastOcFactor
  configOcFactor := h.configOcFactor
  isHeap := hheap
  tickets := htickets
  timer := h.timer
  sane := h.sane
  elapsed := h.elapsed
  inTime := hinTime

theorem Inv.with_slice (h : t.Inv) (hphase : t.phase = .running) {sliceLength downcount : ℤ}
    (hslice : sliceLength ≤ t.mgr.sliceLength) (hle : downcount ≤ sliceLength)
    (helapsed : t.mgr.globalTimer + (sliceLength - downcount) < 2 ^ 63) :
    Inv { t with mgr := { t.mgr with sliceLength := sliceLength, downcount := downcount } } where
  lastOcFactor := h.lastOcFactor
  configOcFactor := h.configOcFactor
  isHeap := h.isHeap
  tickets := h.tickets
  timer := h.timer
  sane hnot := absurd hphase hnot
  elapsed _ := ⟨hle, helapsed⟩
  inTime hin e he := by
    have hend := h.inTime hin e he
    unfold InTime at hend ⊢
    dsimp only at hend ⊢
    omega

theorem Inv.execute (h : t.Inv) (hphase : t.phase = .running) {cycles : ℕ}
    (hfits : t.mgr.elapsed + cycles < 2 ^ 63) : Inv { t with mgr := t.mgr.execute cycles } := by
  have helapsed := h.elapsed hphase
  unfold Manager.elapsed at helapsed hfits
  exact h.with_slice hphase le_rfl (by omega) (by omega)

theorem Inv.idle (h : t.Inv) (hphase : t.phase = .running) (hlate : 0 ≤ t.mgr.downcount)
    (hfits : t.mgr.globalTimer + t.mgr.sliceLength < 2 ^ 63) :
    Inv { t with mgr := t.mgr.idle } := by
  have helapsed := h.elapsed hphase
  exact h.with_slice hphase le_rfl (by omega) (by omega)

theorem Inv.forceExceptionCheck (h : t.Inv) (hphase : t.phase = .running) (cycles : ℤ) :
    Inv { t with mgr := t.mgr.forceExceptionCheck cycles } := by
  obtain ⟨sliceLength, downcount, heq, hdiff, hle, -⟩ :=
    Manager.forceExceptionCheck_spec h.lastOcFactor cycles
  have helapsed := h.elapsed hphase
  unfold Manager.elapsed at helapsed
  rw [heq]
  exact h.with_slice hphase (by omega) (by omega) (by omega)

theorem Inv.removeEvent (h : t.Inv) (type : EventType) :
    Inv { t with mgr := t.mgr.removeEvent H type } := by
  have hmgr : t.mgr.removeEvent H type = { t.mgr with
      eventQueue := (t.mgr.removeEvent H type).eventQueue } := by
    unfold Manager.removeEvent
    dsimp only
    split <;> rfl
  have hpending := t.mgr.removeEvent_pending H type
  have htickets : ∀ o ∈ (t.mgr.removeEvent H type).pending, o.1 < t.ticket := fun o ho =>
    h.tickets o (hpending ▸ Multiset.mem_add.mpr (Or.inr ho))
  rw [hmgr] at htickets ⊢
  exact h.with_queues (Manager.removeEvent_isHeap H h.isHeap type) htickets fun hin e he =>
    h.inTime hin e (Manager.mem_of_mem_removeEvent H he)

theorem Inv.tickets_scheduleEvent (h : t.Inv) (isCpuThread : Bool) (cycles : ℤ) (type : EventType)
    (userdata : ℕ) (source : Manager.FromThread) :
    ∀ o ∈ (t.mgr.scheduleEvent H isCpuThread cycles type userdata source t.ticket).pending,
      o.1 < t.ticket + 1 := by
  intro o ho
  rw [Manager.scheduleEvent_pending H h.isHeap, Multiset.mem_cons] at ho
  rcases ho with rfl | ho
  · exact Nat.lt_succ_self _
  · exact (h.tickets o ho).trans (Nat.lt_succ_self _)

theorem Inv.scheduledAt_update (h : t.Inv) {e : Event} (he : e ∈ t.mgr.eventQueue) (tick : ℕ) :
    Function.update t.scheduledAt t.ticket tick e.ticket = t.scheduledAt e.ticket := by
  have hmem : e.origin ∈ t.mgr.pending :=
    Multiset.mem_add.mpr (Or.inl (Multiset.mem_coe.mpr (List.mem_map_of_mem he)))
  exact Function.update_of_ne (h.tickets _ hmem).ne _ _

theorem Inv.scheduleEvent (h : t.Inv) (isCpuThread : Bool) (cycles : ℤ) (type : EventType)
    (userdata : ℕ) (source : Manager.FromThread)
    (hfits : t.phase = .running → source.fromCpuThread isCpuThread = true →
      InS64 (t.mgr.now + cycles)) :
    Inv { t with
      mgr := t.mgr.scheduleEvent H isCpuThread cycles type userdata source t.ticket
      ticket := t.ticket + 1
      scheduledAt := Function.update t.scheduledAt t.ticket t.mgr.getTicks } := by
  have htickets := h.tickets_scheduleEvent H isCpuThread cycles type userdata source
  have hkept := fun e he => h.scheduledAt_update (e := e) he t.mgr.getTicks
  unfold Manager.scheduleEvent at htickets ⊢
  by_cases hcpu : source.fromCpuThread isCpuThread = true
  · rw [if_pos hcpu] at htickets ⊢
    by_cases hsane : t.mgr.isGlobalTimerSane = true
    · rw [if_pos hsane] at htickets ⊢
      refine h.with_queues (Manager.pushEvent_isHeap H h.isHeap _ _) htickets fun hin => ?_
      exact absurd (hin.2.symm.trans hsane) Bool.false_ne_true
    · have hphase : t.phase = .running := by
        by_contra hphase
        exact hsane (h.sane hphase).1
      have hnow : t.mgr.now = t.mgr.elapsed := if_neg hsane
      have hticks : (t.mgr.getTicks : ℤ) = t.mgr.elapsed := h.getTicks_eq.trans hnow
      have htimeout : toS64 (t.mgr.getTicks + cycles) = t.mgr.elapsed + cycles := by
        rw [hticks, ← hnow]
        exact toS64_of_inS64 (hfits hphase hcpu)
      obtain ⟨sliceLength, downcount, heq, hdiff, hle, hcycles⟩ :=
        Manager.forceExceptionCheck_spec h.lastOcFactor cycles
      have helapsed := h.elapsed hphase
      rw [if_neg hsane, heq] at htickets ⊢
      unfold Manager.elapsed at helapsed htimeout hticks
      have h' := h.with_slice hphase (by omega : sliceLength ≤ t.mgr.sliceLength)
        (by omega : downcount ≤ sliceLength) (by omega)
      refine h'.with_queues (Manager.pushEvent_isHeap H h'.isHeap _ _) htickets fun hin e he => ?_
      rcases (Manager.mem_pushEvent H h'.isHeap).mp he with he | rfl
      · rw [hkept e he]
        exact h'.inTime hin e he
      · -- the slice now ends at the timeout or at this tick, if not before
        dsimp only
        rw [Function.update_self, htimeout, hticks]
        omega
  · rw [if_neg hcpu] at htickets ⊢
    refine h.with_queues h.isHeap htickets fun hin e he => ?_
    rw [hkept e he]
    exact h.inTime hin e he

theorem Inv.advance (h : t.Inv) (hphase : t.phase = .running) :
    Inv { t with mgr := t.mgr.advanceBegin H, phase := .dispatching } := by
  have helapsed := h.elapsed hphase
  have hnonneg : 0 ≤ t.mgr.elapsed := by
    have htimer := h.timer
    unfold Manager.elapsed
    omega
  have hin : InS64 t.mgr.elapsed := by
    unfold InS64
    omega
  have hpending := Manager.advanceBegin_pending H h.isHeap
  have hheap := Manager.advanceBegin_isHeap H h.isHeap
  have hconfig : (t.mgr.moveEvents H).configOcFactor = t.mgr.configOcFactor := by
    rw [Manager.moveEvents_eq]
  have htickets : ∀ o ∈ (t.mgr.advanceBegin H).pending, o.1 < t.ticket := hpending ▸ h.tickets
  rw [Manager.advanceBegin_eq H h.lastOcFactor hin] at hheap htickets ⊢
  exact {
    lastOcFactor := h.configOcFactor
    configOcFactor := hconfig.trans h.configOcFactor
    isHeap := hheap
    tickets := htickets
    timer := ⟨hnonneg, helapsed.2⟩
    sane := fun _ => ⟨rfl, rfl⟩
    elapsed := fun hrunning => Phase.noConfusion hrunning
    inTime := fun hslice => Bool.noConfusion hslice.2 }

theorem Inv.dispatch (h : t.Inv) (hphase : t.phase = .dispatching) {evt : Event}
    (hdue : t.mgr.dueFront = some evt) :
    Inv { t with mgr := t.mgr.popFront H, phase := .inCallback } := by
  obtain ⟨l, hq, -⟩ := Manager.dueFront_eq_some hdue
  have hpending := Manager.popFront_pending H h.isHeap hq
  have hsane := h.sane (by rw [hphase]; decide)
  exact {
    lastOcFactor := h.lastOcFactor
    configOcFactor := h.configOcFactor
    isHeap := Manager.popFront_isHeap H h.isHeap hq
    tickets := fun o ho => h.tickets o (hpending ▸ Multiset.mem_cons_of_mem ho)
    timer := h.timer
    sane := fun _ => hsane
    elapsed := fun hrunning => Phase.noConfusion hrunning
    inTime := fun hslice => Phase.noConfusion hslice.1 }

theorem Inv.callbackReturn (h : t.Inv) (hphase : t.phase = .inCallback) :
    Inv { t with phase := .dispatching } where
  lastOcFactor := h.lastOcFactor
  configOcFactor := h.configOcFactor
  isHeap := h.isHeap
  tickets := h.tickets
  timer := h.timer
  sane _ := h.sane (by rw [hphase]; decide)
  elapsed hrunning := Phase.noConfusion hrunning
  inTime hslice := Phase.noConfusion hslice.1

theorem Inv.advanceEnd (h : t.Inv) (hphase : t.phase = .dispatching)
    (hdue : t.mgr.dueFront = none) : Inv { t with mgr := t.mgr.advanceEnd, phase := .running } := by
  have hsane := h.sane (by rw [hphase]; decide)
  obtain ⟨sliceLength, heq, hpos, hmax, hend⟩ :=
    Manager.advanceEnd_spec h.isHeap h.lastOcFactor hsane.2 hdue
  have htimer := h.timer
  rw [heq]
  exact {
    lastOcFactor := h.lastOcFactor
    configOcFactor := h.configOcFactor
    isHeap := h.isHeap
    tickets := h.tickets
    timer := htimer
    sane := fun hnot => absurd rfl hnot
    elapsed := fun _ => ⟨le_rfl, by simpa [Manager.elapsed] using htimer.2⟩
    inTime := fun _ e he => (hend e he).trans (le_max_left _ _) }

/-- **Every action keeps the invariant.** -/
theorem step_inv {t' : Timeline} {a : SliceAction} (h : t.Inv) (hfits : t.Fits a)
    (hs : step H t a = some t') : t'.Inv := by
  cases a with
  | execute cycles =>
    obtain ⟨hphase, ⟨⟩⟩ := Option.ite_none_right_eq_some.mp hs
    exact h.execute hphase hfits
  | idle =>
    obtain ⟨hphase, ⟨⟩⟩ := Option.ite_none_right_eq_some.mp hs
    exact h.idle hphase hfits.1 hfits.2
  | scheduleEvent isCpuThread cycles type userdata source =>
    obtain ⟨-, ⟨⟩⟩ := Option.ite_none_left_eq_some.mp hs
    exact h.scheduleEvent H isCpuThread cycles type userdata source hfits
  | forceExceptionCheck cycles =>
    obtain ⟨hphase, ⟨⟩⟩ := Option.ite_none_right_eq_some.mp hs
    exact h.forceExceptionCheck hphase cycles
  | removeEvent type =>
    obtain ⟨-, ⟨⟩⟩ := Option.ite_none_left_eq_some.mp hs
    exact h.removeEvent H type
  | advance =>
    obtain ⟨hphase, ⟨⟩⟩ := Option.ite_none_right_eq_some.mp hs
    exact h.advance H hphase
  | dispatch =>
    obtain ⟨hphase, hd⟩ := Option.ite_none_right_eq_some.mp hs
    obtain ⟨evt, hdue, rfl⟩ := Option.map_eq_some_iff.mp hd
    exact h.dispatch H hphase hdue
  | callbackReturn =>
    obtain ⟨hphase, ⟨⟩⟩ := Option.ite_none_right_eq_some.mp hs
    exact h.callbackReturn hphase
  | advanceEnd =>
    obtain ⟨⟨hphase, hdue⟩, ⟨⟩⟩ := Option.ite_none_right_eq_some.mp hs
    exact h.advanceEnd hphase hdue

theorem Reachable.inv (hr : Reachable H t) : t.Inv :=
  Reach.invariant hr inv_init fun _ _ _ h hfits hs => step_inv H h hfits hs

/-! ## The ticks -/

/-- The actions that do not let time pass. -/
def KeepsTicks : SliceAction → Prop
  | .scheduleEvent .. | .forceExceptionCheck _ => True
  | _ => False

theorem now_scheduleEvent (h : t.Inv) (isCpuThread : Bool) (cycles : ℤ) (type : EventType)
    (userdata : ℕ) (source : Manager.FromThread) (ticket : ℕ) :
    (t.mgr.scheduleEvent H isCpuThread cycles type userdata source ticket).now = t.mgr.now := by
  obtain ⟨sliceLength, downcount, heq, hdiff, -, -⟩ :=
    Manager.forceExceptionCheck_spec h.lastOcFactor cycles
  unfold Manager.scheduleEvent
  split
  · split
    · rfl
    · rw [heq]
      simp only [Manager.pushEvent, Manager.now, Manager.elapsed, hdiff]
  · rfl

theorem now_forceExceptionCheck (h : t.Inv) (cycles : ℤ) :
    (t.mgr.forceExceptionCheck cycles).now = t.mgr.now := by
  obtain ⟨sliceLength, downcount, heq, hdiff, -, -⟩ :=
    Manager.forceExceptionCheck_spec h.lastOcFactor cycles
  rw [heq]
  simp only [Manager.now, Manager.elapsed, hdiff]

/-- The tick after `Advance` has added the cycles of the slice. -/
theorem globalTimer_advanceBegin (h : t.Inv) (hphase : t.phase = .running) :
    (t.mgr.advanceBegin H).globalTimer = t.mgr.elapsed := by
  have helapsed := h.elapsed hphase
  have htimer := h.timer
  have hin : InS64 t.mgr.elapsed := by
    unfold InS64
    unfold Manager.elapsed at helapsed ⊢
    omega
  rw [Manager.advanceBegin_eq H h.lastOcFactor hin]

/-- The bounds of the slice that `Advance` starts, and its first tick. -/
theorem advanceEnd_bounds (h : t.Inv) (hphase : t.phase = .dispatching)
    (hdue : t.mgr.dueFront = none) : 0 < t.mgr.advanceEnd.sliceLength ∧
      t.mgr.advanceEnd.sliceLength ≤ maxSliceLength ∧ t.mgr.advanceEnd.now = t.mgr.now := by
  have hsane := h.sane (by rw [hphase]; decide)
  obtain ⟨sliceLength, heq, hpos, hmax, -⟩ :=
    Manager.advanceEnd_spec h.isHeap h.lastOcFactor hsane.2 hdue
  have hnow : t.mgr.now = t.mgr.globalTimer := if_pos hsane.1
  rw [heq, hnow]
  refine ⟨hpos, hmax, ?_⟩
  simp [Manager.now, Manager.elapsed]

theorem now_le_of_step {t' : Timeline} {a : SliceAction} (h : t.Inv) (hfits : t.Fits a)
    (hs : step H t a = some t') :
    t.mgr.now ≤ t'.mgr.now ∧ (KeepsTicks a → t'.mgr.now = t.mgr.now) := by
  cases a with
  | execute cycles =>
    obtain ⟨-, ⟨⟩⟩ := Option.ite_none_right_eq_some.mp hs
    exact ⟨Manager.now_le_now (by omega), False.elim⟩
  | idle =>
    obtain ⟨-, ⟨⟩⟩ := Option.ite_none_right_eq_some.mp hs
    exact ⟨Manager.now_le_now hfits.1, False.elim⟩
  | scheduleEvent isCpuThread cycles type userdata source =>
    obtain ⟨-, ⟨⟩⟩ := Option.ite_none_left_eq_some.mp hs
    have heq := now_scheduleEvent H h isCpuThread cycles type userdata source t.ticket
    exact ⟨heq.ge, fun _ => heq⟩
  | forceExceptionCheck cycles =>
    obtain ⟨-, ⟨⟩⟩ := Option.ite_none_right_eq_some.mp hs
    have heq := now_forceExceptionCheck h cycles
    exact ⟨heq.ge, fun _ => heq⟩
  | removeEvent type =>
    obtain ⟨-, ⟨⟩⟩ := Option.ite_none_left_eq_some.mp hs
    refine ⟨?_, False.elim⟩
    unfold Manager.removeEvent
    dsimp only
    split <;> exact le_rfl
  | advance =>
    obtain ⟨hphase, ⟨⟩⟩ := Option.ite_none_right_eq_some.mp hs
    have helapsed := h.elapsed hphase
    have hnow : (t.mgr.advanceBegin H).now = t.mgr.elapsed :=
      (if_pos rfl).trans (globalTimer_advanceBegin H h hphase)
    refine ⟨?_, False.elim⟩
    dsimp only
    rw [hnow, Manager.now]
    unfold Manager.elapsed
    split <;> omega
  | dispatch =>
    obtain ⟨-, hd⟩ := Option.ite_none_right_eq_some.mp hs
    obtain ⟨evt, -, rfl⟩ := Option.map_eq_some_iff.mp hd
    exact ⟨le_rfl, False.elim⟩
  | callbackReturn =>
    obtain ⟨-, ⟨⟩⟩ := Option.ite_none_right_eq_some.mp hs
    exact ⟨le_rfl, False.elim⟩
  | advanceEnd =>
    obtain ⟨⟨hphase, hdue⟩, ⟨⟩⟩ := Option.ite_none_right_eq_some.mp hs
    exact ⟨(advanceEnd_bounds h hphase hdue).2.2.ge, False.elim⟩

/-- **A slice ends in time.** In every state that a run reaches: no action turns the ticks back, and
scheduling or forcing a check keeps them; `Advance` leaves a slice that is not empty and not too long;
in a slice, its end is at most the time of each event in the queue, or the tick at which the event was
scheduled; and so the next `Advance` is late by the cycles that `downcount` is below zero at most. -/
theorem slice_ends_in_time (hr : Reachable H t) :
    (∀ a t', t.Fits a → step H t a = some t' → t.mgr.getTicks ≤ t'.mgr.getTicks ∧
      (KeepsTicks a → t'.mgr.getTicks = t.mgr.getTicks)) ∧
    (∀ t', step H t .advanceEnd = some t' →
      0 < t'.mgr.sliceLength ∧ t'.mgr.sliceLength ≤ maxSliceLength) ∧
    (t.InSlice → ∀ e ∈ t.mgr.eventQueue, t.InTime e) ∧
    (∀ t', t.InSlice → step H t .advance = some t' → ∀ e ∈ t.mgr.eventQueue,
      t'.mgr.globalTimer ≤ max e.time (t.scheduledAt e.ticket) + max 0 (-t.mgr.downcount)) := by
  have h := Reachable.inv H hr
  refine ⟨fun a t' hfits hs => ?_, fun t' hs => ?_, h.inTime, fun t' hin hs e he => ?_⟩
  · obtain ⟨hle, hkeeps⟩ := now_le_of_step H h hfits hs
    have hticks := h.getTicks_eq
    have hticks' := (step_inv H h hfits hs).getTicks_eq
    refine ⟨by omega, fun hkeep => ?_⟩
    have heq := hkeeps hkeep
    omega
  · obtain ⟨⟨hphase, hdue⟩, ⟨⟩⟩ := Option.ite_none_right_eq_some.mp hs
    obtain ⟨hpos, hmax, -⟩ := advanceEnd_bounds h hphase hdue
    exact ⟨hpos, hmax⟩
  · obtain ⟨hphase, ⟨⟩⟩ := Option.ite_none_right_eq_some.mp hs
    have hend := h.inTime hin e he
    dsimp only
    rw [globalTimer_advanceBegin H h hphase]
    unfold InTime at hend
    unfold Manager.elapsed
    omega

end Steps

instance (t : Timeline) : ∀ a, Decidable (t.Fits a)
  | .execute _ => inferInstanceAs (Decidable (_ < _))
  | .idle => inferInstanceAs (Decidable (_ ∧ _))
  | .scheduleEvent .. => inferInstanceAs (Decidable (_ → _ → InS64 _))
  | .forceExceptionCheck _ | .removeEvent _ | .advance | .dispatch | .callbackReturn | .advanceEnd =>
    inferInstanceAs (Decidable True)

/-- Two events that are scheduled inside a slice, the second one earlier than the first. -/
def twoInSlice : List SliceAction :=
  [.advance, .advanceEnd, .execute 10, .scheduleEvent true 100 "a" 0 .cpu, .execute 20,
    .scheduleEvent true 50 "b" 0 .cpu, .execute 60]

theorem slice_ends_in_time_twoInSlice :
    ∃ t, Reachable (.ofSort Event.le) t ∧ t.InSlice ∧ t.mgr.eventQueue.map Event.time = [80, 110] ∧
      t.mgr.downcount = -10 ∧ ∀ e ∈ t.mgr.eventQueue, t.InTime e := by
  obtain ⟨t, hrun, ht⟩ := Option.map_eq_some_iff.mp
    (show (run (step (.ofSort Event.le)) Fits init twoInSlice).map (fun t => (t.phase,
        t.mgr.isGlobalTimerSane, t.mgr.eventQueue.map Event.time, t.mgr.downcount)) =
      some (.running, false, [80, 110], -10) by decide +kernel)
  simp only [Prod.mk.injEq] at ht
  obtain ⟨hphase, hsane, htimes, hdowncount⟩ := ht
  have hr := run_reach .refl hrun
  exact ⟨t, hr, ⟨hphase, hsane⟩, htimes, hdowncount,
    (slice_ends_in_time (.ofSort Event.le) hr).2.2.1 ⟨hphase, hsane⟩⟩

/-- `Idle` after `downcount` has gone below zero turns the ticks back. -/
def idleLate : List SliceAction := [.advance, .advanceEnd, .execute 20005]

/-- A timeout that overflows is far in the past, and the slice goes on. -/
def farTimeout : List SliceAction :=
  [.advance, .advanceEnd, .execute 1, .scheduleEvent true (2 ^ 63 - 1) "a" 0 .cpu]

theorem late_idle_and_far_timeout :
    (∃ t t', Reach (step (.ofSort Event.le)) anyStep init t ∧ t.InSlice ∧
      step (.ofSort Event.le) t .idle = some t' ∧ t'.mgr.getTicks < t.mgr.getTicks) ∧
    (∃ t, Reach (step (.ofSort Event.le)) anyStep init t ∧ t.InSlice ∧
      ∃ e ∈ t.mgr.eventQueue, ¬ t.InTime e) := by
  constructor
  · obtain ⟨t, hrun, ht⟩ := Option.map_eq_some_iff.mp
      (show (run (step (.ofSort Event.le)) anyStep init idleLate).map (fun t => (t.phase,
          t.mgr.isGlobalTimerSane, t.mgr.getTicks, ({ t.mgr with downcount := 0 } : Manager).getTicks)) =
        some (.running, false, 20005, 20000) by decide +kernel)
    simp only [Prod.mk.injEq] at ht
    obtain ⟨hphase, hsane, hticks, hticks'⟩ := ht
    exact ⟨t, _, run_reach .refl hrun, ⟨hphase, hsane⟩, if_pos hphase, by
      rw [hticks, Manager.idle, hticks']
      decide⟩
  · obtain ⟨t, hrun, ht⟩ := Option.map_eq_some_iff.mp
      (show (run (step (.ofSort Event.le)) anyStep init farTimeout).map (fun t => (t.phase,
          t.mgr.isGlobalTimerSane, t.mgr.globalTimer + t.mgr.sliceLength,
          t.mgr.eventQueue.map fun e => max e.time (t.scheduledAt e.ticket : ℤ))) =
        some (.running, false, 20000, [1]) by decide +kernel)
    simp only [Prod.mk.injEq] at ht
    obtain ⟨hphase, hsane, hend, hevents⟩ := ht
    obtain ⟨e, he, hmax⟩ := List.mem_map.mp (hevents ▸ List.mem_singleton_self (1 : ℤ))
    refine ⟨t, run_reach .refl hrun, ⟨hphase, hsane⟩, e, he, ?_⟩
    rw [InTime, hend, hmax]
    decide

end Timeline

end CoreTiming
