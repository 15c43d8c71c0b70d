import PrimedSteam.CoreTiming.Keys

/-!
# Savestates of the scheduler

`DoState` in write mode (`doStateWrite`) and in read mode (`doStateRead`), and the runs of a
scheduler that writes savestates and loads any of them later, also after a restart.

* `World.CounterKept`: the condition on a step under which the fifo counter stays ahead of the
  queue. For a load it compares the two off-thread queues, because the counter is written before
  `MoveEvents` takes ids from it.
* **`keys_fresh`**: in a run of such steps the keys stay distinct and below the counter, new events
  sort last, and the layout of the heap, in memory or in a savestate, makes no difference.
-/

set_option autoImplicit false

namespace CoreTiming

open BinaryHeap Transition

/-- What `DoState` writes, in its order. `pending` is a ghost: the number of events that waited in
the off-thread queue. -/
structure Savestate where
  sliceLength : ℤ
  globalTimer : ℤ
  lastOcFactor : OverclockFactor
  eventFifoId : ℕ
  eventQueue : List Event
  pending : ℕ

def lostEventName : EventType := "_lost_event"

/-- The type an event gets from the name in the savestate. -/
def loadType (eventTypes : List EventType) (name : EventType) : EventType :=
  if name ∈ eventTypes then name else lostEventName

namespace Manager

variable (H : HeapOps Event.le) (m : Manager)

/-- `DoState` in write mode: the counter is written first, then the off-thread queue is drained. -/
def doStateWrite : Manager × Savestate :=
  let saved := m.moveEvents H
  (saved,
    { sliceLength := m.sliceLength
      globalTimer := m.globalTimer
      lastOcFactor := m.lastOcFactor
      eventFifoId := m.eventFifoId
      eventQueue := saved.eventQueue
      pending := m.tsQueue.length })

/-- `DoState` in read mode. `MoveEvents` runs with the fields just read; the elements read after it
replace the whole queue. -/
def doStateRead (eventTypes : List EventType) (sv : Savestate) : Manager :=
  let loaded := Manager.moveEvents H { m with
    sliceLength := sv.sliceLength
    globalTimer := sv.globalTimer
    lastOcFactor := sv.lastOcFactor
    eventFifoId := sv.eventFifoId }
  let elements := sv.eventQueue.map fun ev => { ev with type := loadType eventTypes ev.type }
  { loaded with eventQueue := H.makeHeap elements }

end Manager

/-- The scheduler, the event types registered with it, and the savestates written so far. -/
structure World where
  sys : System
  eventTypes : List EventType
  savestates : List Savestate

inductive WorldAction where
  | act (a : Action)
  | registerEvent (name : EventType)
  | save
  | load (i : ℕ)
  | restart (factor : OverclockFactor) -- Shutdown, then Init

namespace World

variable (H : HeapOps Event.le)

def init (factor : OverclockFactor) : World := ⟨.init factor, [lostEventName], []⟩

def step (w : World) : WorldAction → Option World
  | .act a => (w.sys.step H a).map fun s => { w with sys := s }
  | .registerEvent name => some { w with eventTypes := name :: w.eventTypes }
  | .save =>
    if w.sys.phase = .dispatching then none else
      let (mgr, sv) := w.sys.mgr.doStateWrite H
      some { w with sys := { w.sys with mgr := mgr }, savestates := w.savestates ++ [sv] }
  | .load i =>
    if w.sys.phase = .dispatching then none else
      w.savestates[i]?.map fun sv =>
        { w with sys := { w.sys with mgr := w.sys.mgr.doStateRead H w.eventTypes sv } }
  | .restart factor =>
    if w.sys.phase = .running then
      some { w with
        sys := { w.sys with mgr := CoreTiming.init factor }
        eventTypes := [lostEventName] }
    else none

/-- The step does not exhaust the counter, and a loaded savestate was written with no more events
in the off-thread queue than there are in it now. -/
def CounterKept (w : World) : WorldAction → Prop
  | .act a => w.sys.mgr.eventFifoId + w.sys.pushes a < 2 ^ 64
  | .save => w.sys.mgr.eventFifoId + w.sys.mgr.tsQueue.length < 2 ^ 64
  | .load i => ∀ sv ∈ w.savestates[i]?,
      sv.pending ≤ w.sys.mgr.tsQueue.length ∧ sv.eventFifoId + w.sys.mgr.tsQueue.length < 2 ^ 64
  | .registerEvent _ | .restart _ => True

instance (w : World) (a : WorldAction) : Decidable (w.CounterKept a) := by
  cases a <;> unfold CounterKept <;> infer_instance

/-- The keys in a savestate are distinct, and below the counter that the writer went on with. The
events that were pending have taken the last keys below it. -/
structure SavedFresh (sv : Savestate) : Prop where
  nodup : (sv.eventQueue.map Event.fifoOrder).Nodup
  lt : ∀ e ∈ sv.eventQueue, e.fifoOrder < sv.eventFifoId + sv.pending
  last : 0 < sv.pending → ∃ e ∈ sv.eventQueue, e.fifoOrder + 1 = sv.eventFifoId + sv.pending

structure Inv (w : World) : Prop where
  isHeap : IsHeap Event.le w.sys.mgr.eventQueue
  fresh : w.sys.mgr.Fresh
  saved : ∀ sv ∈ w.savestates, SavedFresh sv

theorem inv_init (factor : OverclockFactor) : (init factor).Inv where
  isHeap := isHeap_nil _
  fresh := ⟨List.nodup_nil, fun _ h => absurd h List.not_mem_nil⟩
  saved := fun _ h => absurd h List.not_mem_nil

/-- **When a load leaves the keys fresh**: the events that were pending when the savestate was
written are no more than those pending now. -/
theorem doStateRead_fresh_iff {m : Manager} {sv : Savestate} (hsv : SavedFresh sv)
    (hid : sv.eventFifoId + m.tsQueue.length < 2 ^ 64) (eventTypes : List EventType) :
    (m.doStateRead H eventTypes sv).Fresh ↔ sv.pending ≤ m.tsQueue.length := by
  have hcounter : (m.doStateRead H eventTypes sv).eventFifoId =
      sv.eventFifoId + m.tsQueue.length := Manager.moveEvents_eventFifoId H hid
  have hkeys : (m.doStateRead H eventTypes sv).eventQueue.map Event.fifoOrder |>.Perm
      (sv.eventQueue.map Event.fifoOrder) := by
    refine ((H.makeHeap_perm _).map Event.fifoOrder).trans ?_
    rw [List.map_map]
    exact List.Perm.refl _
  constructor
  · intro hf
    by_contra hlt
    obtain ⟨ev, hev, hlast⟩ := hsv.last (by omega)
    obtain ⟨e, he, hkey⟩ := List.mem_map.mp (hkeys.symm.subset (List.mem_map_of_mem hev))
    have := hf.2 e he
    omega
  · intro hpending
    refine ⟨hkeys.nodup_iff.mpr hsv.nodup, fun e he => ?_⟩
    obtain ⟨ev, hev, hkey⟩ := List.mem_map.mp (hkeys.subset (List.mem_map_of_mem he))
    have := hsv.lt ev hev
    omega

theorem doStateWrite_savedFresh {m : Manager} (hh : IsHeap Event.le m.eventQueue) (hf : m.Fresh)
    (hid : m.eventFifoId + m.tsQueue.length < 2 ^ 64) : SavedFresh (m.doStateWrite H).2 where
  nodup := (Manager.moveEvents_evolves H hh hf hid).fresh.1
  lt e he := by
    have := (Manager.moveEvents_evolves H hh hf hid).fresh.2 e he
    rwa [Manager.moveEvents_eventFifoId H hid] at this
  last hpos := by
    obtain ⟨e, he, hkey⟩ := Manager.moveEvents_last H hh hid hpos
    exact ⟨e, he, by rw [hkey, Manager.moveEvents_eventFifoId H hid]; rfl⟩

/-- **Every step that keeps the counter keeps the invariant.** -/
theorem step_inv {w w' : World} {a : WorldAction} (h : w.Inv) (hok : w.CounterKept a)
    (hs : step H w a = some w') : w'.Inv := by
  cases a with
  | act a =>
    obtain ⟨s, hact, rfl⟩ := Option.map_eq_some_iff.mp hs
    have he := System.step_evolves H h.isHeap h.fresh hok hact
    exact ⟨he.isHeap, he.fresh, h.saved⟩
  | registerEvent name =>
    cases hs
    exact ⟨h.isHeap, h.fresh, h.saved⟩
  | save =>
    obtain ⟨-, ⟨⟩⟩ := Option.ite_none_left_eq_some.mp hs
    have he := Manager.moveEvents_evolves H h.isHeap h.fresh hok
    refine ⟨he.isHeap, he.fresh, fun sv hsv => ?_⟩
    rcases List.mem_append.mp hsv with hsv | hsv
    · exact h.saved sv hsv
    · rw [List.mem_singleton.mp hsv]
      exact doStateWrite_savedFresh H h.isHeap h.fresh hok
  | load i =>
    obtain ⟨-, hs⟩ := Option.ite_none_left_eq_some.mp hs
    obtain ⟨sv, hsv, rfl⟩ := Option.map_eq_some_iff.mp hs
    obtain ⟨hpending, hid⟩ := hok sv hsv
    have hsaved := h.saved sv (List.mem_of_getElem? hsv)
    exact ⟨H.makeHeap_isHeap _, (doStateRead_fresh_iff H hsaved hid _).mpr hpending, h.saved⟩
  | restart factor =>
    obtain ⟨-, ⟨⟩⟩ := Option.ite_none_right_eq_some.mp hs
    exact ⟨isHeap_nil _, (inv_init factor).fresh, h.saved⟩

/-- The states of the runs whose steps all keep the counter. -/
abbrev Reachable (factor : OverclockFactor) : World → Prop :=
  Reach (step H) CounterKept (init factor)

theorem Reachable.inv {factor : OverclockFactor} {w : World} (h : Reachable H factor w) : w.Inv :=
  Reach.invariant h (inv_init factor) fun _ _ _ hw hok hs => step_inv H hw hok hs

/-! ## New events sort last -/

/-- The actions that go on with the queue as it is. -/
def KeepsQueue : WorldAction → Prop
  | .load _ | .restart _ => False
  | _ => True

theorem step_evolves {w w' : World} {a : WorldAction} (h : w.Inv) (hok : w.CounterKept a)
    (ha : KeepsQueue a) (hs : step H w a = some w') : Manager.Evolves w.sys.mgr w'.sys.mgr := by
  cases a with
  | act a =>
    obtain ⟨s, hact, rfl⟩ := Option.map_eq_some_iff.mp hs
    exact System.step_evolves H h.isHeap h.fresh hok hact
  | registerEvent name =>
    cases hs
    exact .of_eq h.isHeap h.fresh rfl rfl
  | save =>
    obtain ⟨-, ⟨⟩⟩ := Option.ite_none_left_eq_some.mp hs
    exact Manager.moveEvents_evolves H h.isHeap h.fresh hok
  | load i => exact ha.elim
  | restart factor => exact ha.elim

theorem run_evolves {w w' : World} {as : List WorldAction} (h : w.Inv)
    (ha : ∀ a ∈ as, KeepsQueue a) (hr : run (step H) CounterKept w as = some w') :
    Manager.Evolves w.sys.mgr w'.sys.mgr := by
  have hinv : w'.Inv ∧ Manager.Evolves w.sys.mgr w'.sys.mgr := by
    refine run_invariant (P := fun v => v.Inv ∧ Manager.Evolves w.sys.mgr v.sys.mgr)
      (fun v a v' hv hka hok hs => ?_) ⟨h, .of_eq h.isHeap h.fresh rfl rfl⟩ ha hr
    exact ⟨step_inv H hv.1 hok hs, hv.2.trans (step_evolves H hv.1 hok hka hs)⟩
  exact hinv.2

/-! ## The layout of the heap -/

/-- `sv'` is `sv` with the elements of the heap vector stored in another order. -/
def Alike.Saved (sv sv' : Savestate) : Prop :=
  ∃ q, sv' = { sv with eventQueue := q } ∧ sv.eventQueue.Perm q

/-- The two worlds differ only in the order in which heaps are laid out, in memory and in
savestates. -/
structure Alike (w w' : World) : Prop where
  sys : w.sys.Alike w'.sys
  eventTypes : w'.eventTypes = w.eventTypes
  savestates : List.Forall₂ Alike.Saved w.savestates w'.savestates

variable (H' : HeapOps Event.le)

theorem Alike.tsQueue_eq {w w' : World} (h : w.Alike w') :
    w'.sys.mgr.tsQueue = w.sys.mgr.tsQueue := by
  obtain ⟨_, _, hs, ⟨_, rfl, _⟩⟩ := h.sys
  rw [hs]

theorem Alike.eventFifoId_eq {w w' : World} (h : w.Alike w') :
    w'.sys.mgr.eventFifoId = w.sys.mgr.eventFifoId := by
  obtain ⟨_, _, hs, ⟨_, rfl, _⟩⟩ := h.sys
  rw [hs]

theorem Alike.phase_eq {w w' : World} (h : w.Alike w') : w'.sys.phase = w.sys.phase := by
  obtain ⟨_, _, hs, -⟩ := h.sys
  rw [hs]

theorem Alike.dispatched_eq {w w' : World} (h : w.Alike w') :
    w'.sys.dispatched = w.sys.dispatched := by
  obtain ⟨_, _, hs, -⟩ := h.sys
  rw [hs]

theorem Alike.getElem?_savestates {w w' : World} (h : w.Alike w') (i : ℕ) :
    Option.Rel Alike.Saved w.savestates[i]? w'.savestates[i]? := by
  have hall := h.savestates
  generalize w.savestates = l, w'.savestates = l' at hall
  induction hall generalizing i with
  | nil => exact .none
  | cons hsv _ ih =>
    cases i with
    | zero => exact .some hsv
    | succ i => exact ih i

theorem Alike.counterKept {w w' : World} {a : WorldAction} (h : w.Alike w')
    (hok : w.CounterKept a) : w'.CounterKept a := by
  cases a with
  | act a =>
    have hp := h.sys.pushes_eq a
    simp only [CounterKept] at hok ⊢
    rwa [hp, h.eventFifoId_eq]
  | save =>
    simp only [CounterKept] at hok ⊢
    rwa [h.tsQueue_eq, h.eventFifoId_eq]
  | load i =>
    intro sv' hsv'
    rw [h.tsQueue_eq]
    have hrel := h.getElem?_savestates i
    rw [hsv'] at hrel
    cases hsv : w.savestates[i]? with
    | none => rw [hsv] at hrel; cases hrel
    | some sv =>
      rw [hsv] at hrel
      cases hrel with
      | some hrel =>
        obtain ⟨q, rfl, -⟩ := hrel
        exact hok sv hsv
  | registerEvent name => trivial
  | restart factor => trivial

theorem doStateRead_alike {m m' : Manager} {sv sv' : Savestate} (h : m.Alike m')
    (hh : IsHeap Event.le m.eventQueue) (hh' : IsHeap Event.le m'.eventQueue)
    (hsv : Alike.Saved sv sv') (eventTypes : List EventType) :
    (m.doStateRead H eventTypes sv).Alike (m'.doStateRead H' eventTypes sv') := by
  obtain ⟨q, rfl, hp⟩ := h
  obtain ⟨q', rfl, hp'⟩ := hsv
  have hstart : Manager.Alike
      { m with
        sliceLength := sv.sliceLength
        globalTimer := sv.globalTimer
        lastOcFactor := sv.lastOcFactor
        eventFifoId := sv.eventFifoId }
      { m with
        eventQueue := q
        sliceLength := sv.sliceLength
        globalTimer := sv.globalTimer
        lastOcFactor := sv.lastOcFactor
        eventFifoId := sv.eventFifoId } := ⟨q, rfl, hp⟩
  obtain ⟨_, hmove, -⟩ := hstart.moveEvents H H' hh hh'
  refine ⟨_, by simp only [Manager.doStateRead, hmove]; rfl, ?_⟩
  exact (H.makeHeap_perm _).trans ((hp'.map _).trans (H'.makeHeap_perm _).symm)

/-- **The layout of heaps makes no difference to a step.** -/
theorem step_alike {w w' v : World} {a : WorldAction} (hw : w.Inv) (hw' : w'.Inv)
    (h : w.Alike w') (hs : step H w a = some v) : ∃ v', step H' w' a = some v' ∧ v.Alike v' := by
  have hphase := h.phase_eq
  have hsaved := h.getElem?_savestates
  obtain ⟨⟨m', r, hsys, hm⟩, htypes, hsvs⟩ := h
  obtain ⟨sys', eventTypes', savestates'⟩ := w'
  dsimp only at hsys htypes hphase hsaved
  subst hsys htypes
  cases a with
  | act a =>
    obtain ⟨s, hact, rfl⟩ := Option.map_eq_some_iff.mp hs
    obtain ⟨s', hact', halike⟩ :=
      System.step_alike H H' ⟨m', r, rfl, hm⟩ hw.isHeap hw'.isHeap hw.fresh hact
    exact ⟨_, Option.map_eq_some_iff.mpr ⟨s', hact', rfl⟩, halike, rfl, hsvs⟩
  | registerEvent name =>
    cases hs
    exact ⟨_, rfl, ⟨m', r, rfl, hm⟩, rfl, hsvs⟩
  | save =>
    obtain ⟨hg, ⟨⟩⟩ := Option.ite_none_left_eq_some.mp hs
    have hmove := hm.moveEvents H H' hw.isHeap hw'.isHeap
    refine ⟨_, if_neg hg, ⟨_, r, rfl, hmove⟩, rfl, ?_⟩
    refine List.rel_append hsvs (.cons ⟨_, ?_, hmove.perm⟩ .nil)
    obtain ⟨q, rfl, -⟩ := hm
    rfl
  | load i =>
    obtain ⟨hg, hs⟩ := Option.ite_none_left_eq_some.mp hs
    obtain ⟨sv, hsv, rfl⟩ := Option.map_eq_some_iff.mp hs
    have hrel := hsaved i
    rw [hsv] at hrel
    cases hsv' : savestates'[i]? with
    | none => rw [hsv'] at hrel; cases hrel
    | some sv' =>
      rw [hsv'] at hrel
      cases hrel with
      | some hrel =>
        have hread := doStateRead_alike H H' hm hw.isHeap hw'.isHeap hrel w.eventTypes
        exact ⟨_, (if_neg hg).trans (congrArg _ hsv'), ⟨_, r, rfl, hread⟩, rfl, hsvs⟩
  | restart factor =>
    obtain ⟨hg, ⟨⟩⟩ := Option.ite_none_right_eq_some.mp hs
    exact ⟨_, if_pos hg, ⟨_, r, rfl, [], rfl, List.Perm.refl _⟩, rfl, hsvs⟩

theorem run_alike {w w' v : World} {as : List WorldAction} (hw : w.Inv) (hw' : w'.Inv)
    (h : w.Alike w') (hr : run (step H) CounterKept w as = some v) :
    ∃ v', run (step H') CounterKept w' as = some v' ∧ v.Alike v' := by
  have hstep : ∀ s t a s', s.Inv ∧ t.Inv ∧ s.Alike t → s.CounterKept a → step H s a = some s' →
      t.CounterKept a ∧ ∃ t', step H' t a = some t' ∧ s'.Inv ∧ t'.Inv ∧ s'.Alike t' := by
    rintro s t a s' ⟨hs, ht, hst⟩ hok hstep
    obtain ⟨t', hstep', hst'⟩ := step_alike H H' hs ht hst hstep
    have hok' := hst.counterKept hok
    exact ⟨hok', t', hstep', step_inv H hs hok hstep, step_inv H' ht hok' hstep', hst'⟩
  obtain ⟨v', hr', -, -, hv⟩ := run_rel hstep ⟨hw, hw', h⟩ hr
  exact ⟨v', hr', hv⟩

theorem Inv.of_alike {w w' : World} (hw : w.Inv) (h : w.Alike w')
    (hh' : IsHeap Event.le w'.sys.mgr.eventQueue) : w'.Inv := by
  refine ⟨hh', ?_, fun sv' hsv' => ?_⟩
  · obtain ⟨m, r, hs, hm⟩ := h.sys
    rw [hs]
    exact hm.fresh hw.fresh
  · obtain ⟨i, hi⟩ := List.getElem?_of_mem hsv'
    have hrel := h.getElem?_savestates i
    rw [hi] at hrel
    cases hsv : w.savestates[i]? with
    | none => rw [hsv] at hrel; cases hrel
    | some sv =>
      rw [hsv] at hrel
      cases hrel with
      | some hrel =>
        obtain ⟨q, rfl, hp⟩ := hrel
        obtain ⟨hnodup, hlt, hlast⟩ := hw.saved sv (List.mem_of_getElem? hsv)
        refine ⟨(hp.map _).nodup_iff.mp hnodup, fun e he => hlt e (hp.symm.subset he), ?_⟩
        intro hpos
        obtain ⟨e, he, hkey⟩ := hlast hpos
        exact ⟨e, hp.subset he, hkey⟩

/-- **The tie-break keys survive savestates.** In a run whose steps all keep the counter, the events
in the queue have distinct fifo ids, all below the counter; an event that enters the queue later has
a larger fifo id than the events that are in it now, those of a load included; and any run goes on
to dispatch the same events when the heap vectors in memory and in the savestates are stored in
another order and the heap algorithms are other ones. -/
theorem keys_fresh {factor : OverclockFactor} {w : World} (hw : Reachable H factor w) :
    w.sys.mgr.Fresh ∧
    (∀ as w', run (step H) CounterKept w as = some w' → (∀ a ∈ as, KeepsQueue a) →
      ∀ old ∈ w.sys.mgr.eventQueue, ∀ new ∈ w'.sys.mgr.eventQueue, new ∉ w.sys.mgr.eventQueue →
        old.fifoOrder < new.fifoOrder) ∧
    (∀ w', w.Alike w' → IsHeap Event.le w'.sys.mgr.eventQueue →
      ∀ as v, run (step H) CounterKept w as = some v →
        ∃ v', run (step H') CounterKept w' as = some v' ∧ v'.sys.dispatched = v.sys.dispatched) := by
  have hinv := Reachable.inv H hw
  refine ⟨hinv.fresh, fun as w' hr ha old hold new hnew hne => ?_, fun w' halike hh' as v hr => ?_⟩
  · have hlt := hinv.fresh.2 old hold
    rcases (run_evolves H hinv ha hr).new new hnew with hmem | hle
    · exact absurd hmem hne
    · omega
  · obtain ⟨v', hr', hv⟩ := run_alike H H' hinv (hinv.of_alike halike hh') halike hr
    exact ⟨v', hr', hv.dispatched_eq⟩

/-- Two events, the second still in the off-thread queue when the savestate is written; one event
in that queue when it is loaded. -/
def pendingRun : List WorldAction :=
  [.act (.scheduleEvent true 10 "a" 0 .cpu), .act (.scheduleEvent false 10 "b" 0 .nonCpu), .save,
    .act (.scheduleEvent false 10 "c" 0 .nonCpu), .load 0]

theorem keys_fresh_pendingRun :
    ∃ w, Reachable (.ofSort Event.le) .one w ∧ w.sys.mgr.eventQueue.length = 2 ∧
      w.sys.mgr.Fresh := by
  obtain ⟨w, hrun, hlen⟩ := Option.map_eq_some_iff.mp
    (show (run (step (.ofSort Event.le)) CounterKept (init .one) pendingRun).map
      (fun w => w.sys.mgr.eventQueue.length) = some 2 by decide +kernel)
  have hw : Reachable (.ofSort Event.le) .one w := run_reach .refl hrun
  exact ⟨w, hw, hlen, (keys_fresh _ (.ofSort Event.le) hw).1⟩

/-- **A stale counter.** A savestate written while an event waits in the off-thread queue is loaded
with that queue empty: the counter is back at the restored event's key, and the next event scheduled
for the same time gets the same key. -/
theorem stale_counter :
    ∃ w w', Reach (step (.ofSort Event.le)) anyStep (init .one) w ∧ ¬ w.sys.mgr.Fresh ∧
      step (.ofSort Event.le) w (.act (.scheduleEvent true 10 "b" 0 .cpu)) = some w' ∧
      w'.sys.mgr.eventQueue.map (fun e => (e.time, e.fifoOrder)) = [(10, 0), (10, 0)] := by
  obtain ⟨w, hrun, hw⟩ := Option.map_eq_some_iff.mp
    (show (run (step (.ofSort Event.le)) anyStep (init .one)
        [.act (.scheduleEvent false 10 "a" 0 .nonCpu), .save, .load 0]).map
      (fun w => (decide w.sys.mgr.Fresh,
        (step (.ofSort Event.le) w (.act (.scheduleEvent true 10 "b" 0 .cpu))).map
          fun w' => w'.sys.mgr.eventQueue.map fun e => (e.time, e.fifoOrder))) =
      some (false, some [(10, 0), (10, 0)]) by decide +kernel)
  obtain ⟨hfresh, hnext⟩ := Prod.mk.inj hw
  obtain ⟨w', hstep, hkeys⟩ := Option.map_eq_some_iff.mp hnext
  exact ⟨w, w', run_reach .refl hrun, of_decide_eq_false hfresh, hstep, hkeys⟩

end World

end CoreTiming
