import PrimedSteam.CoreTiming.Dispatch
import Mathlib.Algebra.Order.Ring.Int
import Mathlib.Tactic.Linarith

/-!
# Events under a change of the PPC clock

`AdjustEventQueueTimes` scales the distance of each event from the global timer, with a division that
truncates, and leaves the vector as it is laid out.

* `tdiv_lt_tdiv_iff`: two numbers have different quotients iff a multiple of the divisor other than
  zero lies between them.
* **`adjustEventQueueTimes_in_order_iff`**: the queue stays a heap, and is dispatched in order, iff
  such a multiple lies between each parent and child whose fifo orders are inverted.
-/

set_option autoImplicit false

namespace CoreTiming

open BinaryHeap

/-! ## The truncating division -/

/-- A multiple of `d` other than zero lies between `a` and `b`; it may be the one that is further from
zero. -/
def Separates (d : ℕ) (a b : ℤ) : Prop :=
  ∃ k : ℤ, (0 < k ∧ a < k * d ∧ k * d ≤ b) ∨ (k < 0 ∧ a ≤ k * d ∧ k * d < b)

section Division

variable {d : ℕ} {a b k : ℤ}

theorem le_tdiv_iff (hd : 0 < d) (hk : 0 < k) : k ≤ a.tdiv d ↔ k * d ≤ a := by
  have hd' : (0 : ℤ) < d := by exact_mod_cast hd
  rcases le_or_gt 0 a with ha | ha
  · rw [Int.tdiv_eq_ediv_of_nonneg ha, Int.le_ediv_iff_mul_le hd']
  · have hquot : a.tdiv d ≤ (0 : ℤ).tdiv d := Int.tdiv_le_tdiv hd' ha.le
    rw [Int.zero_tdiv] at hquot
    have hprod : 0 < k * d := mul_pos hk hd'
    exact iff_of_false (by omega) (by omega)

theorem tdiv_le_iff (hd : 0 < d) (hk : k < 0) : a.tdiv d ≤ k ↔ a ≤ k * d := by
  have h := le_tdiv_iff hd (neg_pos.mpr hk) (a := -a)
  rw [Int.neg_tdiv, neg_mul, neg_le_neg_iff, neg_le_neg_iff] at h
  exact h

theorem tdiv_lt_tdiv_iff (hd : 0 < d) : a.tdiv d < b.tdiv d ↔ Separates d a b := by
  constructor
  · intro hlt
    rcases lt_or_ge 0 (b.tdiv d) with hpos | hneg
    · exact ⟨b.tdiv d, Or.inl ⟨hpos, not_le.mp fun hle => hlt.not_ge ((le_tdiv_iff hd hpos).mpr hle),
        (le_tdiv_iff hd hpos).mp le_rfl⟩⟩
    · have hneg' : a.tdiv d < 0 := hlt.trans_le hneg
      exact ⟨a.tdiv d, Or.inr ⟨hneg', (tdiv_le_iff hd hneg').mp le_rfl,
        not_le.mp fun hle => hlt.not_ge ((tdiv_le_iff hd hneg').mpr hle)⟩⟩
  · rintro ⟨k, ⟨hk, ha, hb⟩ | ⟨hk, ha, hb⟩⟩
    · have hka : ¬ k ≤ a.tdiv d := fun hle => ha.not_ge ((le_tdiv_iff hd hk).mp hle)
      have hkb : k ≤ b.tdiv d := (le_tdiv_iff hd hk).mpr hb
      omega
    · have hka : a.tdiv d ≤ k := (tdiv_le_iff hd hk).mpr ha
      have hkb : ¬ b.tdiv d ≤ k := fun hle => hb.not_ge ((tdiv_le_iff hd hk).mp hle)
      omega

end Division

namespace Manager

variable (H : HeapOps Event.le) (m : Manager) (newPpcClock oldPpcClock : ℕ)

/-- The time that `AdjustEventQueueTimes` gives an event. -/
def adjustTime (time : ℤ) : ℤ :=
  let ticks := m.globalTimer
  let evTicks := toS64 ((toS64 (toS64 (time - ticks) * newPpcClock)).tdiv oldPpcClock)
  toS64 (ticks + evTicks)

def adjustEventQueueTimes : Manager :=
  { m with
    eventQueue := m.eventQueue.map fun ev =>
      { ev with time := m.adjustTime newPpcClock oldPpcClock ev.time } }

/-- The distance of a time from the global timer, in the new clock, before the division. -/
def scaled (time : ℤ) : ℤ := (time - m.globalTimer) * newPpcClock

/-- No computation of the loop overflows. -/
def NoOverflow : Prop := ∀ ev ∈ m.eventQueue,
  InS64 (ev.time - m.globalTimer) ∧ InS64 (m.scaled newPpcClock ev.time) ∧
    InS64 (m.globalTimer + (m.scaled newPpcClock ev.time).tdiv oldPpcClock)

/-- Where a child was added before its parent, their times are not scaled to the same time. -/
def InversionsSeparated : Prop :=
  ∀ i (hi : i < m.eventQueue.length) (hp : (i - 1) / 2 < m.eventQueue.length), 0 < i →
    m.eventQueue[i].fifoOrder < m.eventQueue[(i - 1) / 2].fifoOrder →
    Separates oldPpcClock (m.scaled newPpcClock m.eventQueue[(i - 1) / 2].time)
      (m.scaled newPpcClock m.eventQueue[i].time)

/-- What the loop of `Advance` dispatches in `n` iterations, for callbacks that schedule nothing. -/
def dispatched : ℕ → Manager → List Event
  | 0, _ => []
  | n + 1, m =>
    match m.dueFront with
    | none => []
    | some evt => evt :: dispatched n (m.popFront H)

variable {m newPpcClock oldPpcClock}

theorem adjustTime_eq (hold : 0 < oldPpcClock) (hno : m.NoOverflow newPpcClock oldPpcClock)
    {ev : Event} (hev : ev ∈ m.eventQueue) : m.adjustTime newPpcClock oldPpcClock ev.time =
      m.globalTimer + (m.scaled newPpcClock ev.time).tdiv oldPpcClock := by
  obtain ⟨hdist, hprod, hsum⟩ := hno ev hev
  have hquot : InS64 ((m.scaled newPpcClock ev.time).tdiv oldPpcClock) := by
    have hold' : (0 : ℤ) < oldPpcClock := by exact_mod_cast hold
    rcases le_or_gt 0 (m.scaled newPpcClock ev.time) with hpos | hneg
    · have hnonneg := Int.tdiv_nonneg hpos hold'.le
      have hself := Int.tdiv_le_self oldPpcClock hpos
      unfold InS64 at hprod ⊢
      omega
    · have hnonpos := Int.tdiv_le_tdiv hold' hneg.le
      have hself := Int.tdiv_le_self oldPpcClock (neg_nonneg.mpr hneg.le)
      rw [Int.zero_tdiv] at hnonpos
      rw [Int.neg_tdiv] at hself
      unfold InS64 at hprod ⊢
      omega
  unfold scaled at hprod hquot hsum ⊢
  simp only [adjustTime, toS64_of_inS64 hdist, toS64_of_inS64 hprod, toS64_of_inS64 hquot,
    toS64_of_inS64 hsum]

theorem length_adjustEventQueueTimes :
    (m.adjustEventQueueTimes newPpcClock oldPpcClock).eventQueue.length = m.eventQueue.length :=
  List.length_map _

/-- A parent and a child that are in order stay so iff their inversion is separated. -/
theorem le_adjusted_iff (hold : 0 < oldPpcClock) (hno : m.NoOverflow newPpcClock oldPpcClock)
    {p c : Event} (hp : p ∈ m.eventQueue) (hc : c ∈ m.eventQueue) (hle : p.le c) :
    Event.le { p with time := m.adjustTime newPpcClock oldPpcClock p.time }
        { c with time := m.adjustTime newPpcClock oldPpcClock c.time } ↔
      (c.fifoOrder < p.fifoOrder → Separates oldPpcClock (m.scaled newPpcClock p.time)
        (m.scaled newPpcClock c.time)) := by
  have hold' : (0 : ℤ) < oldPpcClock := by exact_mod_cast hold
  have htime : p.time ≤ c.time := by
    unfold Event.le at hle
    omega
  have hscaled : m.scaled newPpcClock p.time ≤ m.scaled newPpcClock c.time :=
    Int.mul_le_mul_of_nonneg_right (by omega) (Int.natCast_nonneg _)
  have hquot := Int.tdiv_le_tdiv hold' hscaled
  rw [← tdiv_lt_tdiv_iff hold, Event.le, adjustTime_eq hold hno hp, adjustTime_eq hold hno hc]
  dsimp only
  omega

theorem adjustEventQueueTimes_isHeap_iff (hold : 0 < oldPpcClock)
    (hno : m.NoOverflow newPpcClock oldPpcClock) (h : IsHeap Event.le m.eventQueue) :
    IsHeap Event.le (m.adjustEventQueueTimes newPpcClock oldPpcClock).eventQueue ↔
      m.InversionsSeparated newPpcClock oldPpcClock := by
  unfold IsHeap InversionsSeparated
  simp only [length_adjustEventQueueTimes]
  refine forall_congr' fun i => forall_congr' fun hi => forall_congr' fun hp =>
    forall_congr' fun hpos => ?_
  simp only [adjustEventQueueTimes, List.getElem_map]
  exact le_adjusted_iff hold hno (List.getElem_mem hp) (List.getElem_mem hi) (h i hi hp hpos)

/-! ## The dispatch after the change -/

theorem mem_of_mem_dispatched {e : Event} : ∀ (n : ℕ) {m : Manager},
    IsHeap Event.le m.eventQueue → e ∈ dispatched H n m → e ∈ m.eventQueue
  | 0, _, _, hmem => absurd hmem List.not_mem_nil
  | n + 1, m, h, hmem => by
    unfold dispatched at hmem
    cases hdue : m.dueFront with
    | none => simp [hdue] at hmem
    | some evt =>
      obtain ⟨l, hq, -⟩ := dueFront_eq_some hdue
      rw [hdue, List.mem_cons] at hmem
      rcases hmem with rfl | hmem
      · exact hq ▸ List.mem_cons_self
      · have hrest := mem_of_mem_dispatched n (popFront_isHeap H h hq) hmem
        simp only [popFront, hq] at hrest
        exact hq ▸ List.mem_cons_of_mem _ ((H.dropLast_popHeap_perm (hq ▸ h)).subset hrest)

theorem dispatched_pairwise : ∀ (n : ℕ) {m : Manager}, IsHeap Event.le m.eventQueue →
    (dispatched H n m).Pairwise Event.le
  | 0, _, _ => List.Pairwise.nil
  | n + 1, m, h => by
    unfold dispatched
    cases hdue : m.dueFront with
    | none => exact List.Pairwise.nil
    | some evt =>
      obtain ⟨l, hq, -⟩ := dueFront_eq_some hdue
      refine List.Pairwise.cons (fun e hmem => ?_) (dispatched_pairwise n (popFront_isHeap H h hq))
      have hin := mem_of_mem_dispatched H n (popFront_isHeap H h hq) hmem
      simp only [popFront, hq] at hin
      have hl := (H.dropLast_popHeap_perm (hq ▸ h)).subset hin
      exact (dueFront_least h hdue).2.2 e (hq ▸ List.mem_cons_of_mem _ hl)

/-- **The scheduler stays ordered iff no inversion collapses.** After the PPC clock has changed, the
queue is a heap, and the next `Advance` dispatches it in order, iff each child that was added before
its parent keeps a later time. -/
theorem adjustEventQueueTimes_in_order_iff (m : Manager) (hold : 0 < oldPpcClock)
    (hno : m.NoOverflow newPpcClock oldPpcClock) (h : IsHeap Event.le m.eventQueue) :
    (IsHeap Event.le (m.adjustEventQueueTimes newPpcClock oldPpcClock).eventQueue ∧
      ∀ n, (dispatched H n
        ((m.adjustEventQueueTimes newPpcClock oldPpcClock).advanceBegin H)).Pairwise Event.le) ↔
    m.InversionsSeparated newPpcClock oldPpcClock := by
  rw [← adjustEventQueueTimes_isHeap_iff hold hno h]
  constructor
  · exact fun hboth => hboth.1
  · exact fun hheap => ⟨hheap, fun n => dispatched_pairwise H n (advanceBegin_isHeap H hheap)⟩

/-- Two events that the slower clock cannot tell apart, the later one added first. -/
def twoEvents : Manager :=
  { init .one with
    globalTimer := 10
    eventQueue := [⟨13, 1, 0, "b", 1⟩, ⟨14, 0, 0, "a", 0⟩]
    eventFifoId := 2 }

theorem twoEvents_isHeap : IsHeap Event.le twoEvents.eventQueue :=
  isHeap_of_pairwise (by decide)

theorem twoEvents_noOverflow : twoEvents.NoOverflow 486000000 729000000 := by
  unfold NoOverflow
  decide

theorem adjustEventQueueTimes_in_order_iff_twoEvents :
    (IsHeap Event.le (twoEvents.adjustEventQueueTimes 486000000 729000000).eventQueue ∧
      ∀ n, (dispatched (.ofSort Event.le) n ((twoEvents.adjustEventQueueTimes 486000000
        729000000).advanceBegin (.ofSort Event.le))).Pairwise Event.le) ↔
    twoEvents.InversionsSeparated 486000000 729000000 :=
  adjustEventQueueTimes_in_order_iff (.ofSort Event.le) twoEvents (by decide) twoEvents_noOverflow
    twoEvents_isHeap

/-- Both events are moved to tick 12, and the one that was added first is below the other. -/
theorem twoEvents_inverted :
    0 < 729000000 ∧ twoEvents.NoOverflow 486000000 729000000 ∧ IsHeap Event.le twoEvents.eventQueue ∧
      ¬ IsHeap Event.le (twoEvents.adjustEventQueueTimes 486000000 729000000).eventQueue := by
  refine ⟨by decide, twoEvents_noOverflow, twoEvents_isHeap, fun hheap => ?_⟩
  have hle := hheap 1 (by decide) (by decide) (by decide)
  exact absurd hle (by decide)

end Manager

end CoreTiming
