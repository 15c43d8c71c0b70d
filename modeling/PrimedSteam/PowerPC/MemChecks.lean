import PrimedSteam.Lib.While

/-!
# Memory checks of the debugger

`MemChecks` keeps at most one check for each start address. A `z` packet removes checks of a start address as
long as some check overlaps its range.

* `MemChecks.add`, `MemChecks.remove`: what the stub and the user interface do.
* `removeBreakpoint`: the loop of the stub.
* `removes_iff`: when the loop ends and removes just the check of the packet.
-/

set_option autoImplicit false

namespace GDBStub

abbrev Word := BitVec 32

/-! ## Checks -/

/-- `TMemCheck`; a condition is the text of an expression. -/
structure TMemCheck where
  startAddress : Word
  endAddress : Word
  isEnabled : Bool
  isRanged : Bool
  isBreakOnRead : Bool
  isBreakOnWrite : Bool
  logOnHit : Bool
  breakOnHit : Bool
  numHits : Word
  condition : Option (List Char)
deriving DecidableEq

/-- The test of `GetMemCheck`, with sizes of 64 bits. -/
def TMemCheck.overlaps (mc : TMemCheck) (address : Word) (size : BitVec 64) : Bool :=
  address ≤ mc.endAddress ∧ mc.startAddress.setWidth 64 ≤ address.setWidth 64 + size - 1

/-- `MemChecks`: no two checks start at one address. -/
structure MemChecks where
  memChecks : List TMemCheck
  nodup : (memChecks.map TMemCheck.startAddress).Nodup

namespace MemChecks

variable (m : MemChecks)

/-- A check in the place of the one with its start address, which keeps whether it is enabled. -/
def replace (check : TMemCheck) (old : TMemCheck) : TMemCheck :=
  if old.startAddress = check.startAddress then { check with isEnabled := old.isEnabled, numHits := 0 }
  else old

/-- `GetMemCheck` -/
def getMemCheck (address : Word) (size : BitVec 64) : Option TMemCheck :=
  m.memChecks.find? fun mc => mc.overlaps address size

theorem map_startAddress_replace (check : TMemCheck) (l : List TMemCheck) :
    (l.map (replace check)).map TMemCheck.startAddress = l.map TMemCheck.startAddress := by
  rw [List.map_map]
  refine List.map_congr_left fun old _ => ?_
  rw [Function.comp_apply, replace]
  split
  · next h => exact h.symm
  · rfl

/-- `MemChecks::Add` -/
def add (check : TMemCheck) : MemChecks :=
  if h : check.startAddress ∈ m.memChecks.map TMemCheck.startAddress then
    ⟨m.memChecks.map (replace check), by
      rw [map_startAddress_replace]
      exact m.nodup⟩
  else
    ⟨m.memChecks ++ [check], by
      rw [List.map_append]
      exact m.nodup.append (List.nodup_singleton _) (List.disjoint_singleton.mpr h)⟩

/-- `MemChecks::Remove`: the first check that starts at the address. -/
def remove (address : Word) : MemChecks :=
  ⟨m.memChecks.eraseP fun mc => mc.startAddress = address,
    m.nodup.sublist ((List.eraseP_sublist).map _)⟩

end MemChecks

/-! ## The packet -/

inductive BreakpointType where
  | executeSoft
  | executeHard
  | write
  | read
  | access
deriving DecidableEq

/-- The check that `AddBreakpoint` adds. -/
def newMemcheck (type : BreakpointType) (addr len : Word) : TMemCheck where
  startAddress := addr
  endAddress := addr + len - 1
  isEnabled := true
  isRanged := 1 < len
  isBreakOnRead := type = .read ∨ type = .access
  isBreakOnWrite := type = .write ∨ type = .access
  logOnHit := false
  breakOnHit := true
  numHits := 0
  condition := none

/-- The loop of `RemoveBreakpoint` over the memory checks. `none` means that the fuel is used up. -/
def removeMemchecks (addr len : Word) (fuel : ℕ) (m : MemChecks) : Option (Except Unit MemChecks) :=
  While.whileLoop (fun m => (m.getMemCheck addr (len.setWidth 64)).isSome) (fun m => .ok (m.remove addr))
    fuel m

/-- `RemoveBreakpoint`: code breakpoints by their addresses, and memory checks. -/
def removeBreakpoint (type : BreakpointType) (addr len : Word) (fuel : ℕ) (breakpoints : List Word)
    (m : MemChecks) : Option (Except Unit (List Word × MemChecks)) :=
  if type = .executeHard ∨ type = .executeSoft then some (.ok (breakpoints.erase addr, m))
  else (removeMemchecks addr len fuel m).map fun r => r.map fun m => (breakpoints, m)

/-! ## The loop -/

section Loop

variable {addr len : Word} {m : MemChecks}

/-- The check overlaps the range of the packet. -/
def Overlaps (addr len : Word) (mc : TMemCheck) : Prop := mc.overlaps addr (len.setWidth 64) = true

theorem getMemCheck_isSome_iff :
    (m.getMemCheck addr (len.setWidth 64)).isSome = true ↔ ∃ mc ∈ m.memChecks, Overlaps addr len mc := by
  rw [MemChecks.getMemCheck, List.find?_isSome]
  rfl

theorem eraseP_eq_filter {α β : Type*} [DecidableEq β] {f : α → β} {l : List α} (a : β)
    (h : (l.map f).Nodup) : l.eraseP (fun x => f x = a) = l.filter fun x => f x ≠ a := by
  induction l with
  | nil => rfl
  | cons x l ih =>
    rw [List.map_cons, List.nodup_cons] at h
    by_cases hx : f x = a
    · rw [List.eraseP_cons_of_pos (by simpa using hx), List.filter_cons_of_neg (by simpa using hx),
        List.filter_eq_self.mpr]
      intro y hy
      refine decide_eq_true fun hfy => h.1 ?_
      rw [hx, ← hfy]
      exact List.mem_map_of_mem hy
    · rw [List.eraseP_cons_of_neg (by simpa using hx), List.filter_cons_of_pos (by simpa using hx),
        ih h.2]

theorem memChecks_remove :
    (m.remove addr).memChecks = m.memChecks.filter fun mc => mc.startAddress ≠ addr :=
  eraseP_eq_filter addr m.nodup

theorem mem_remove_iff {mc : TMemCheck} :
    mc ∈ (m.remove addr).memChecks ↔ mc ∈ m.memChecks ∧ mc.startAddress ≠ addr := by
  rw [memChecks_remove, List.mem_filter, decide_eq_true_iff]

theorem removeMemchecks_none {mc : TMemCheck} (hmem : mc ∈ m.memChecks) (hover : Overlaps addr len mc)
    (hstart : mc.startAddress ≠ addr) (fuel : ℕ) : removeMemchecks addr len fuel m = none := by
  induction fuel generalizing m with
  | zero => rfl
  | succ fuel ih =>
    rw [removeMemchecks, While.whileLoop, if_pos (getMemCheck_isSome_iff.mpr ⟨mc, hmem, hover⟩)]
    exact ih (mem_remove_iff.mpr ⟨hmem, hstart⟩)

theorem removeMemchecks_eq (h : ∀ mc ∈ m.memChecks, Overlaps addr len mc → mc.startAddress = addr) :
    ∃ m', removeMemchecks addr len 2 m = some (.ok m') ∧
      m'.memChecks = m.memChecks.filter fun mc =>
        !(decide (mc.startAddress = addr) && mc.overlaps addr (len.setWidth 64)) := by
  by_cases hsome : (m.getMemCheck addr (len.setWidth 64)).isSome = true
  · obtain ⟨mc, hmem, hover⟩ := getMemCheck_isSome_iff.mp hsome
    have hstart := h mc hmem hover
    have hend : ¬((m.remove addr).getMemCheck addr (len.setWidth 64)).isSome = true := by
      rw [getMemCheck_isSome_iff]
      rintro ⟨mc', hmem', hover'⟩
      obtain ⟨hold, hne⟩ := mem_remove_iff.mp hmem'
      exact hne (h mc' hold hover')
    refine ⟨m.remove addr, ?_, ?_⟩
    · rw [removeMemchecks, While.whileLoop, if_pos hsome]
      simp only [While.whileLoop]
      rw [if_neg hend]
    · -- a check that starts at the address is the one that overlaps
      rw [memChecks_remove]
      refine List.filter_congr fun mc' hmem' => ?_
      by_cases hstart' : mc'.startAddress = addr
      · obtain rfl : mc' = mc := List.inj_on_of_nodup_map m.nodup hmem' hmem (hstart'.trans hstart.symm)
        have hover' : mc'.overlaps addr (len.setWidth 64) = true := hover
        simp [hstart', hover']
      · simp [hstart']
  · refine ⟨m, ?_, ?_⟩
    · rw [removeMemchecks, While.whileLoop, if_neg hsome]
    · symm
      rw [List.filter_eq_self]
      intro mc hmem
      have hnot : ¬Overlaps addr len mc := fun hover =>
        hsome (getMemCheck_isSome_iff.mpr ⟨mc, hmem, hover⟩)
      simp [Bool.eq_false_iff.mpr hnot]

end Loop

/-- The loop ends, and only checks of the start address that overlap are gone. -/
def Removes (type : BreakpointType) (addr len : Word) (breakpoints : List Word) (m : MemChecks) : Prop :=
  ∃ fuel m', removeBreakpoint type addr len fuel breakpoints m = some (.ok (breakpoints, m')) ∧
    m'.memChecks = m.memChecks.filter fun mc =>
      !(decide (mc.startAddress = addr) && mc.overlaps addr (len.setWidth 64))

/-- **When a watchpoint is removed**: if and only if no other check overlaps. -/
theorem removes_iff {type : BreakpointType} (htype : type = .write ∨ type = .read ∨ type = .access)
    (addr len : Word) (breakpoints : List Word) (m : MemChecks) :
    Removes type addr len breakpoints m ↔
      ∀ mc ∈ m.memChecks, mc.overlaps addr (len.setWidth 64) = true → mc.startAddress = addr := by
  have hwatch : ¬(type = .executeHard ∨ type = .executeSoft) := by
    rcases htype with rfl | rfl | rfl
    · decide
    · decide
    · decide
  constructor
  · rintro ⟨fuel, m', hrun, -⟩ mc hmem hover
    by_contra hstart
    rw [removeBreakpoint, if_neg hwatch, removeMemchecks_none hmem hover hstart] at hrun
    cases hrun
  · intro h
    obtain ⟨m', hrun, hm'⟩ := removeMemchecks_eq h
    refine ⟨2, m', ?_, hm'⟩
    rw [removeBreakpoint, if_neg hwatch, hrun]
    rfl

/-- Two watchpoints that do not overlap. -/
def sampleChecks : MemChecks :=
  ((⟨[], List.nodup_nil⟩ : MemChecks).add (newMemcheck .write 0x80001000 4)).add
    (newMemcheck .read 0x80001004 4)

theorem removes_sample : Removes .write 0x80001000 4 [] sampleChecks :=
  (removes_iff (.inl rfl) 0x80001000 4 [] sampleChecks).mpr (by decide)

/-- A ranged check that starts before the address: the loop does not end. -/
theorem not_removes_ranged :
    ¬Removes .write 0x80001004 4 [] ((⟨[], List.nodup_nil⟩ : MemChecks).add (newMemcheck .write 0x80001000 16)) := by
  rintro ⟨fuel, m', hrun, -⟩
  have hnone := @removeMemchecks_none 0x80001004 4
    ((⟨[], List.nodup_nil⟩ : MemChecks).add (newMemcheck .write 0x80001000 16)) (newMemcheck .write 0x80001000 16)
    (by decide) (by unfold Overlaps; decide) (by decide) fuel
  rw [removeBreakpoint, if_neg (by decide), hnone] at hrun
  cases hrun

end GDBStub
