import PrimedSteam.CoreTiming.Dispatch

/-!
# The tie-break keys of the scheduler

* `Manager.Fresh`: the events in the queue have distinct fifo ids, all below the counter.
* `Manager.Evolves`: what an operation does to the keys; `step_evolves` proves it of every action
  that takes no more fifo ids than the counter has left.
* `Manager.Alike`: two managers that differ only in the layout of the heap; `step_alike` is the
  simulation between them.
-/

set_option autoImplicit false

namespace CoreTiming

open BinaryHeap Transition

namespace Manager

variable (H : HeapOps Event.le)

/-- The events in the queue have distinct fifo ids, all below the counter. -/
def Fresh (m : Manager) : Prop :=
  (m.eventQueue.map Event.fifoOrder).Nodup ∧ ∀ e ∈ m.eventQueue, e.fifoOrder < m.eventFifoId

instance (m : Manager) : Decidable m.Fresh := by unfold Fresh; infer_instance

theorem Fresh.of_perm {m m' : Manager} (h : m.Fresh) (hp : m'.eventQueue.Perm m.eventQueue)
    (hid : m'.eventFifoId = m.eventFifoId) : m'.Fresh :=
  ⟨(hp.map _).nodup_iff.mpr h.1, fun e he => hid ▸ h.2 e (hp.subset he)⟩

theorem Fresh.of_sublist {m m' : Manager} (h : m.Fresh) {l : List Event}
    (hp : m'.eventQueue.Perm l) (hl : l.Sublist m.eventQueue)
    (hid : m'.eventFifoId = m.eventFifoId) : m'.Fresh :=
  ⟨(hp.map _).nodup_iff.mpr (h.1.sublist (hl.map _)),
    fun e he => hid ▸ h.2 e (hl.subset (hp.subset he))⟩

theorem Fresh.no_tie {m : Manager} (h : m.Fresh) :
    ∀ x ∈ m.eventQueue, ∀ y ∈ m.eventQueue, x.le y → y.le x → x = y := by
  intro x hx y hy hxy hyx
  have hkey : x.fifoOrder = y.fifoOrder := by unfold Event.le at hxy hyx; omega
  exact List.inj_on_of_nodup_map h.1 hx hy hkey

/-- What an operation does to the keys: they stay fresh, the counter does not go back, and an event
that is new in the queue has a key that the counter had not reached. -/
structure Evolves (m m' : Manager) : Prop where
  isHeap : IsHeap Event.le m'.eventQueue
  fresh : m'.Fresh
  id_le : m.eventFifoId ≤ m'.eventFifoId
  new : ∀ e ∈ m'.eventQueue, e ∈ m.eventQueue ∨ m.eventFifoId ≤ e.fifoOrder

theorem Evolves.trans {m₁ m₂ m₃ : Manager} (h : Evolves m₁ m₂) (h' : Evolves m₂ m₃) :
    Evolves m₁ m₃ where
  isHeap := h'.isHeap
  fresh := h'.fresh
  id_le := h.id_le.trans h'.id_le
  new e he := by
    rcases h'.new e he with he' | hle
    · exact h.new e he'
    · exact Or.inr (h.id_le.trans hle)

/-- An operation that only takes events out of the queue. -/
theorem Evolves.of_sublist {m m' : Manager} (hf : m.Fresh) {l : List Event}
    (hh : IsHeap Event.le m'.eventQueue) (hp : m'.eventQueue.Perm l)
    (hl : l.Sublist m.eventQueue) (hid : m'.eventFifoId = m.eventFifoId) : Evolves m m' where
  isHeap := hh
  fresh := hf.of_sublist hp hl hid
  id_le := hid.ge
  new _ he := Or.inl (hl.subset (hp.subset he))

/-- An operation that does not touch the queue or the counter. -/
theorem Evolves.of_eq {m m' : Manager} (hh : IsHeap Event.le m.eventQueue) (hf : m.Fresh)
    (hq : m'.eventQueue = m.eventQueue) (hid : m'.eventFifoId = m.eventFifoId) : Evolves m m' :=
  .of_sublist hf (hq ▸ hh) (hq ▸ List.Perm.refl _) (List.Sublist.refl _) hid

theorem pushEvent_evolves {m : Manager} (hh : IsHeap Event.le m.eventQueue) (hf : m.Fresh)
    (hid : m.eventFifoId + 1 < 2 ^ 64) (time : ℤ) (ev : Event) :
    Evolves m (m.pushEvent H time ev) := by
  have hp := H.pushHeap_perm m.eventQueue { ev with time := time, fifoOrder := m.eventFifoId } hh
  have hnext : (m.pushEvent H time ev).eventFifoId = m.eventFifoId + 1 := Nat.mod_eq_of_lt hid
  have hmem : ∀ e ∈ (m.pushEvent H time ev).eventQueue,
      e ∈ m.eventQueue ∨ e.fifoOrder = m.eventFifoId := by
    intro e he
    rcases List.mem_append.mp (hp.subset he) with he' | he'
    · exact Or.inl he'
    · rw [List.mem_singleton.mp he']
      exact Or.inr rfl
  refine ⟨pushEvent_isHeap H hh time ev, ⟨?_, ?_⟩, by omega, ?_⟩
  · refine (hp.map _).nodup_iff.mpr ?_
    rw [List.map_append, List.nodup_append]
    refine ⟨hf.1, List.nodup_singleton _, ?_⟩
    rintro _ hmap _ hlast
    obtain ⟨e, he, rfl⟩ := List.mem_map.mp hmap
    rw [List.map_singleton, List.mem_singleton] at hlast
    have := hf.2 e he
    dsimp only at hlast
    omega
  · intro e he
    rcases hmem e he with he' | he'
    · have := hf.2 e he'
      omega
    · omega
  · intro e he
    rcases hmem e he with he' | he'
    · exact Or.inl he'
    · exact Or.inr he'.ge

/-- The loop of `MoveEvents` takes one fifo id for each event. -/
theorem foldl_moveEvent_eventFifoId (l : List Event) (m : Manager)
    (hid : m.eventFifoId + l.length < 2 ^ 64) :
    (l.foldl (fun m ev => m.moveEvent H ev) m).eventFifoId = m.eventFifoId + l.length := by
  induction l generalizing m with
  | nil => rfl
  | cons ev l ih =>
    rw [List.length_cons] at hid
    have hnext : (m.moveEvent H ev).eventFifoId = m.eventFifoId + 1 :=
      Nat.mod_eq_of_lt (by omega)
    rw [List.foldl_cons, ih _ (by omega), hnext, List.length_cons]
    omega

theorem moveEvents_eventFifoId {m : Manager} (hid : m.eventFifoId + m.tsQueue.length < 2 ^ 64) :
    (m.moveEvents H).eventFifoId = m.eventFifoId + m.tsQueue.length :=
  foldl_moveEvent_eventFifoId H m.tsQueue m hid

theorem foldl_moveEvent_evolves {m : Manager} (hh : IsHeap Event.le m.eventQueue) (hf : m.Fresh)
    (l : List Event) (hid : m.eventFifoId + l.length < 2 ^ 64) :
    Evolves m (l.foldl (fun m ev => m.moveEvent H ev) m) := by
  induction l generalizing m with
  | nil => exact .of_eq hh hf rfl rfl
  | cons ev l ih =>
    rw [List.length_cons] at hid
    have hstep : Evolves m (m.moveEvent H ev) := pushEvent_evolves H hh hf (by omega) _ _
    have hnext : (m.moveEvent H ev).eventFifoId = m.eventFifoId + 1 :=
      Nat.mod_eq_of_lt (by omega)
    exact hstep.trans (ih hstep.isHeap hstep.fresh (by omega))

theorem moveEvents_evolves {m : Manager} (hh : IsHeap Event.le m.eventQueue) (hf : m.Fresh)
    (hid : m.eventFifoId + m.tsQueue.length < 2 ^ 64) : Evolves m (m.moveEvents H) := by
  have h := foldl_moveEvent_evolves H hh hf m.tsQueue hid
  exact ⟨h.isHeap, h.fresh, h.id_le, h.new⟩

/-- The last event moved has the last key that the counter handed out. -/
theorem moveEvents_last {m : Manager} (hh : IsHeap Event.le m.eventQueue)
    (hid : m.eventFifoId + m.tsQueue.length < 2 ^ 64) (hpos : 0 < m.tsQueue.length) :
    ∃ e ∈ (m.moveEvents H).eventQueue, e.fifoOrder + 1 = (m.moveEvents H).eventFifoId := by
  rcases List.eq_nil_or_concat m.tsQueue with hnil | ⟨l, ev, hl⟩
  · rw [hnil] at hpos
    exact absurd hpos (by simp)
  · obtain ⟨hh₁, -⟩ := foldl_moveEvent H hh l
    have hid₁ := foldl_moveEvent_eventFifoId H l m (by rw [hl] at hid; simp at hid; omega)
    rw [moveEvents_eventFifoId H hid]
    simp only [moveEvents, hl, List.concat_eq_append, List.foldl_append]
    generalize l.foldl (fun m ev => m.moveEvent H ev) m = m₁ at hh₁ hid₁ ⊢
    refine ⟨{ ev with time := toS64 (ev.time + m₁.globalTimer), fifoOrder := m₁.eventFifoId },
      (H.pushHeap_perm _ _ hh₁).symm.subset (List.mem_append_right _ List.mem_cons_self), ?_⟩
    rw [List.length_append, List.length_singleton]
    dsimp only
    omega

theorem scheduleEvent_evolves {m : Manager} (hh : IsHeap Event.le m.eventQueue) (hf : m.Fresh)
    (isCpuThread : Bool) (cycles : ℤ) (type : EventType) (userdata : ℕ) (source : FromThread)
    (ticket : ℕ) (hid : source.fromCpuThread isCpuThread → m.eventFifoId + 1 < 2 ^ 64) :
    Evolves m (m.scheduleEvent H isCpuThread cycles type userdata source ticket) := by
  unfold scheduleEvent
  dsimp only
  split
  · next hcpu =>
    split
    · exact pushEvent_evolves H hh hf (hid hcpu) _ _
    · have hforce : Evolves m (m.forceExceptionCheck cycles) :=
        .of_eq hh hf (by simp) (by simp)
      exact hforce.trans (pushEvent_evolves H hforce.isHeap hforce.fresh
        (by simpa using hid hcpu) _ _)
  · exact .of_eq hh hf rfl rfl

@[simp] theorem removeEvent_eventFifoId (m : Manager) (type : EventType) :
    (m.removeEvent H type).eventFifoId = m.eventFifoId := by
  unfold removeEvent; dsimp only; split <;> rfl

theorem removeEvent_evolves {m : Manager} (hh : IsHeap Event.le m.eventQueue) (hf : m.Fresh)
    (type : EventType) : Evolves m (m.removeEvent H type) :=
  .of_sublist hf (removeEvent_isHeap H hh type) (m.removeEvent_perm H type) List.filter_sublist
    (m.removeEvent_eventFifoId H type)

theorem popFront_evolves {m : Manager} (hh : IsHeap Event.le m.eventQueue) (hf : m.Fresh)
    {e : Event} {l : List Event} (hq : m.eventQueue = e :: l) : Evolves m (m.popFront H) := by
  refine .of_sublist hf (popFront_isHeap H hh hq) (l := l) ?_ (hq ▸ List.sublist_cons_self e l) rfl
  simp only [popFront, hq]
  exact H.dropLast_popHeap_perm (hq ▸ hh)

/-! ## Managers that differ only in the layout of the heap -/

/-- `m'` is `m` with the events of the queue in another order. -/
def Alike (m m' : Manager) : Prop :=
  ∃ q, m' = { m with eventQueue := q } ∧ m.eventQueue.Perm q

theorem Alike.perm {m m' : Manager} (h : Alike m m') : m.eventQueue.Perm m'.eventQueue := by
  obtain ⟨q, rfl, hp⟩ := h
  exact hp

theorem Alike.fresh {m m' : Manager} (h : Alike m m') (hf : m.Fresh) : m'.Fresh := by
  obtain ⟨q, rfl, hp⟩ := h
  exact hf.of_perm hp.symm rfl

variable (H' : HeapOps Event.le) {m m' : Manager}

theorem Alike.pushEvent (h : Alike m m') (hh : IsHeap Event.le m.eventQueue)
    (hh' : IsHeap Event.le m'.eventQueue) (time : ℤ) (ev : Event) :
    Alike (m.pushEvent H time ev) (m'.pushEvent H' time ev) := by
  obtain ⟨q, rfl, hp⟩ := h
  refine ⟨_, rfl, ?_⟩
  exact (H.pushHeap_perm _ _ hh).trans ((hp.append_right _).trans (H'.pushHeap_perm _ _ hh').symm)

theorem Alike.forceExceptionCheck (h : Alike m m') (cycles : ℤ) :
    Alike (m.forceExceptionCheck cycles) (m'.forceExceptionCheck cycles) := by
  obtain ⟨q, rfl, hp⟩ := h
  refine ⟨q, ?_, by simpa using hp⟩
  by_cases hc : m.downcountToCycles > max 0 cycles
  · have hm : m.forceExceptionCheck cycles = _ := if_pos hc
    have hq : Manager.forceExceptionCheck { m with eventQueue := q } cycles = _ := if_pos hc
    rw [hm, hq]
    rfl
  · have hm : m.forceExceptionCheck cycles = _ := if_neg hc
    have hq : Manager.forceExceptionCheck { m with eventQueue := q } cycles = _ := if_neg hc
    rw [hm, hq]

theorem Alike.scheduleEvent (h : Alike m m') (hh : IsHeap Event.le m.eventQueue)
    (hh' : IsHeap Event.le m'.eventQueue) (isCpuThread : Bool) (cycles : ℤ) (type : EventType)
    (userdata : ℕ) (source : FromThread) (ticket : ℕ) :
    Alike (m.scheduleEvent H isCpuThread cycles type userdata source ticket)
      (m'.scheduleEvent H' isCpuThread cycles type userdata source ticket) := by
  have hticks : m'.getTicks = m.getTicks := by
    obtain ⟨q, rfl, -⟩ := h
    rfl
  have hsane : m'.isGlobalTimerSane = m.isGlobalTimerSane := by
    obtain ⟨q, rfl, -⟩ := h
    rfl
  unfold Manager.scheduleEvent
  dsimp only
  rw [hticks, hsane]
  split
  · split
    · exact h.pushEvent H H' hh hh' _ _
    · exact (h.forceExceptionCheck cycles).pushEvent H H' (by simpa using hh) (by simpa using hh')
        _ _
  · obtain ⟨q, rfl, hp⟩ := h
    exact ⟨q, rfl, hp⟩

theorem Alike.foldl_moveEvent (h : Alike m m') (hh : IsHeap Event.le m.eventQueue)
    (hh' : IsHeap Event.le m'.eventQueue) (l : List Event) :
    Alike (l.foldl (fun m ev => m.moveEvent H ev) m)
      (l.foldl (fun m ev => m.moveEvent H' ev) m') := by
  induction l generalizing m m' with
  | nil => exact h
  | cons ev l ih =>
    have htimer : m'.globalTimer = m.globalTimer := by
      obtain ⟨q, rfl, -⟩ := h
      rfl
    have hpush : Alike (m.moveEvent H ev) (m'.moveEvent H' ev) := by
      unfold moveEvent
      rw [htimer]
      exact h.pushEvent H H' hh hh' _ _
    exact ih hpush (pushEvent_isHeap H hh _ _) (pushEvent_isHeap H' hh' _ _)

theorem Alike.moveEvents (h : Alike m m') (hh : IsHeap Event.le m.eventQueue)
    (hh' : IsHeap Event.le m'.eventQueue) : Alike (m.moveEvents H) (m'.moveEvents H') := by
  have hts : m'.tsQueue = m.tsQueue := by
    obtain ⟨q, rfl, -⟩ := h
    rfl
  unfold Manager.moveEvents
  rw [hts]
  obtain ⟨q, hq, hp⟩ := h.foldl_moveEvent H H' hh hh' m.tsQueue
  exact ⟨q, by rw [hq], hp⟩

theorem Alike.erased_perm (h : Alike m m') (type : EventType) :
    (m.erased type).Perm (m'.erased type) :=
  h.perm.filter _

theorem Alike.removeEvent (h : Alike m m') (type : EventType) :
    Alike (m.removeEvent H type) (m'.removeEvent H' type) := by
  have hp := ((m.removeEvent_perm H type).trans (h.perm.filter _)).trans
    (m'.removeEvent_perm H' type).symm
  have hlen := (h.erased_perm type).length_eq
  obtain ⟨q, rfl, -⟩ := h
  refine ⟨_, ?_, hp⟩
  unfold Manager.removeEvent
  dsimp only
  rw [hlen]
  split <;> rfl

theorem Alike.advanceBegin (h : Alike m m') (hh : IsHeap Event.le m.eventQueue)
    (hh' : IsHeap Event.le m'.eventQueue) : Alike (m.advanceBegin H) (m'.advanceBegin H') := by
  obtain ⟨q, hq, hp⟩ := h.moveEvents H H' hh hh'
  exact ⟨q, by simp only [Manager.advanceBegin, hq, downcountToCycles], hp⟩

/-- The front of the queue does not depend on the layout of the heap. -/
theorem Alike.head?_eq (h : Alike m m') (hh : IsHeap Event.le m.eventQueue)
    (hh' : IsHeap Event.le m'.eventQueue) (hf : m.Fresh) :
    m'.eventQueue.head? = m.eventQueue.head? :=
  (IsHeap.head?_eq h.perm hh hh' hf.no_tie).symm

theorem Alike.dueFront_eq (h : Alike m m') (hh : IsHeap Event.le m.eventQueue)
    (hh' : IsHeap Event.le m'.eventQueue) (hf : m.Fresh) : m'.dueFront = m.dueFront := by
  have hhead := h.head?_eq hh hh' hf
  obtain ⟨q, rfl, -⟩ := h
  unfold dueFront
  dsimp only at hhead ⊢
  cases q <;> cases hq : m.eventQueue <;> simp_all

theorem Alike.popFront (h : Alike m m') (hh : IsHeap Event.le m.eventQueue)
    (hh' : IsHeap Event.le m'.eventQueue) {e e' : Event} {l l' : List Event}
    (hq : m.eventQueue = e :: l) (hq' : m'.eventQueue = e' :: l') (he : e' = e) :
    Alike (m.popFront H) (m'.popFront H') := by
  have hl : l.Perm l' := by
    have hp := h.perm
    rw [hq, hq', he] at hp
    exact hp.cons_inv
  have hpop := (H.dropLast_popHeap_perm (hq ▸ hh)).trans
    (hl.trans (H'.dropLast_popHeap_perm (hq' ▸ hh')).symm)
  obtain ⟨q, rfl, -⟩ := h
  refine ⟨_, rfl, ?_⟩
  simp only [Manager.popFront, hq]
  dsimp only at hq'
  rwa [hq']

theorem Alike.advanceEnd (h : Alike m m') (hh : IsHeap Event.le m.eventQueue)
    (hh' : IsHeap Event.le m'.eventQueue) (hf : m.Fresh) : Alike m.advanceEnd m'.advanceEnd := by
  have hhead := h.head?_eq hh hh' hf
  obtain ⟨q, rfl, hp⟩ := h
  refine ⟨q, ?_, hp⟩
  unfold Manager.advanceEnd
  dsimp only at hhead ⊢
  cases q <;> cases hq : m.eventQueue <;> simp_all

end Manager

/-! ## Actions -/

namespace System

variable (H H' : HeapOps Event.le) {s s' t : System} {a : Action}

/-- How many fifo ids an action takes. -/
def pushes (s : System) : Action → ℕ
  | .scheduleEvent isCpuThread _ _ _ source => if source.fromCpuThread isCpuThread then 1 else 0
  | .removeAllEvents _ | .moveEvents | .advance => s.mgr.tsQueue.length
  | _ => 0

/-- **Every action that does not exhaust the counter keeps the keys fresh.** -/
theorem step_evolves (hh : IsHeap Event.le s.mgr.eventQueue) (hf : s.mgr.Fresh)
    (hid : s.mgr.eventFifoId + s.pushes a < 2 ^ 64) (hs : step H s a = some s') :
    Manager.Evolves s.mgr s'.mgr := by
  cases a with
  | scheduleEvent isCpuThread cycles type userdata source =>
    obtain ⟨-, ⟨⟩⟩ := Option.ite_none_left_eq_some.mp hs
    refine Manager.scheduleEvent_evolves H hh hf _ _ _ _ _ _ fun hcpu => ?_
    simpa only [pushes, if_pos hcpu] using hid
  | removeEvent type =>
    obtain ⟨-, ⟨⟩⟩ := Option.ite_none_left_eq_some.mp hs
    exact Manager.removeEvent_evolves H hh hf type
  | removeAllEvents type =>
    obtain ⟨-, ⟨⟩⟩ := Option.ite_none_left_eq_some.mp hs
    have hmove := Manager.moveEvents_evolves H hh hf hid
    exact hmove.trans (Manager.removeEvent_evolves H hmove.isHeap hmove.fresh type)
  | moveEvents =>
    obtain ⟨-, ⟨⟩⟩ := Option.ite_none_left_eq_some.mp hs
    exact Manager.moveEvents_evolves H hh hf hid
  | execute downcount =>
    obtain ⟨-, ⟨⟩⟩ := Option.ite_none_right_eq_some.mp hs
    exact .of_eq hh hf rfl rfl
  | configure factor =>
    obtain ⟨-, ⟨⟩⟩ := Option.ite_none_left_eq_some.mp hs
    exact .of_eq hh hf rfl rfl
  | advance =>
    obtain ⟨-, ⟨⟩⟩ := Option.ite_none_right_eq_some.mp hs
    have hmove := Manager.moveEvents_evolves H hh hf hid
    exact hmove.trans (.of_eq hmove.isHeap hmove.fresh rfl rfl)
  | dispatch =>
    obtain ⟨-, hd⟩ := Option.ite_none_right_eq_some.mp hs
    obtain ⟨evt, he, ⟨⟩⟩ := Option.map_eq_some_iff.mp hd
    obtain ⟨l, hq, -⟩ := Manager.dueFront_eq_some he
    exact Manager.popFront_evolves H hh hf hq
  | callbackReturn =>
    obtain ⟨-, ⟨⟩⟩ := Option.ite_none_right_eq_some.mp hs
    exact .of_eq hh hf rfl rfl
  | advanceEnd =>
    obtain ⟨-, ⟨⟩⟩ := Option.ite_none_right_eq_some.mp hs
    exact .of_eq hh hf rfl rfl

/-- The two systems differ in the layout of the heap, and possibly in the events removed so far. -/
def Alike (s t : System) : Prop :=
  ∃ m r, t = { s with mgr := m, removed := r } ∧ s.mgr.Alike m

theorem Alike.pushes_eq (h : s.Alike t) (a : Action) : t.pushes a = s.pushes a := by
  obtain ⟨_, r, rfl, ⟨q, rfl, -⟩⟩ := h
  cases a <;> rfl

/-- **The layout of the heap makes no difference to what an action does.** -/
theorem step_alike (h : s.Alike t) (hh : IsHeap Event.le s.mgr.eventQueue)
    (hh' : IsHeap Event.le t.mgr.eventQueue) (hf : s.mgr.Fresh) (hs : step H s a = some s') :
    ∃ t', step H' t a = some t' ∧ s'.Alike t' := by
  obtain ⟨m, r, rfl, hm⟩ := h
  cases a with
  | scheduleEvent isCpuThread cycles type userdata source =>
    obtain ⟨hg, ⟨⟩⟩ := Option.ite_none_left_eq_some.mp hs
    exact ⟨_, if_neg hg, _, _, rfl, hm.scheduleEvent H H' hh hh' _ _ _ _ _ _⟩
  | removeEvent type =>
    obtain ⟨hg, ⟨⟩⟩ := Option.ite_none_left_eq_some.mp hs
    exact ⟨_, if_neg hg, _, _, rfl, hm.removeEvent H H' type⟩
  | removeAllEvents type =>
    obtain ⟨hg, ⟨⟩⟩ := Option.ite_none_left_eq_some.mp hs
    exact ⟨_, if_neg hg, _, _, rfl, (hm.moveEvents H H' hh hh').removeEvent H H' type⟩
  | moveEvents =>
    obtain ⟨hg, ⟨⟩⟩ := Option.ite_none_left_eq_some.mp hs
    exact ⟨_, if_neg hg, _, _, rfl, hm.moveEvents H H' hh hh'⟩
  | execute downcount =>
    obtain ⟨hg, ⟨⟩⟩ := Option.ite_none_right_eq_some.mp hs
    obtain ⟨q, rfl, hp⟩ := hm
    exact ⟨_, if_pos hg, _, _, rfl, q, rfl, hp⟩
  | configure factor =>
    obtain ⟨hg, ⟨⟩⟩ := Option.ite_none_left_eq_some.mp hs
    obtain ⟨q, rfl, hp⟩ := hm
    exact ⟨_, if_neg hg, _, _, rfl, q, rfl, hp⟩
  | advance =>
    obtain ⟨hg, ⟨⟩⟩ := Option.ite_none_right_eq_some.mp hs
    exact ⟨_, if_pos hg, _, _, rfl, hm.advanceBegin H H' hh hh'⟩
  | dispatch =>
    obtain ⟨hg, hd⟩ := Option.ite_none_right_eq_some.mp hs
    obtain ⟨evt, he, ⟨⟩⟩ := Option.map_eq_some_iff.mp hd
    have he' : m.dueFront = some evt := (hm.dueFront_eq hh hh' hf).trans he
    obtain ⟨l, hq, -⟩ := Manager.dueFront_eq_some he
    obtain ⟨l', hq', -⟩ := Manager.dueFront_eq_some he'
    refine ⟨_, (if_pos hg).trans (congrArg _ he'), _, r, rfl, ?_⟩
    exact hm.popFront H H' hh hh' hq hq' rfl
  | callbackReturn =>
    obtain ⟨hg, ⟨⟩⟩ := Option.ite_none_right_eq_some.mp hs
    exact ⟨_, if_pos hg, m, r, rfl, hm⟩
  | advanceEnd =>
    obtain ⟨⟨hphase, hnone⟩, ⟨⟩⟩ := Option.ite_none_right_eq_some.mp hs
    have hnone' : m.dueFront = none := (hm.dueFront_eq hh hh' hf).trans hnone
    exact ⟨_, if_pos ⟨hphase, hnone'⟩, _, r, rfl, hm.advanceEnd hh hh' hf⟩

end System

end CoreTiming
