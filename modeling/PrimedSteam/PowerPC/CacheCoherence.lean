import PrimedSteam.Lib.Transition
import PrimedSteam.PowerPC.CacheInvariant

/-!
# Coherence of the emulated cache

The operations keep the invariant, and no write is lost but by `Invalidate`. `coherent_of_reach` is what
holds in every run that brings no line of FakeVMEM into the cache; `fakeVMem_incoherent` is a read that it
does not cover.
-/

set_option autoImplicit false

namespace PowerPC.Cache

open Transition

variable {layout : Layout}

/-! ## A way for a line -/

namespace State

variable (m : State) {s : ℕ}

@[simp] theorem setAt_setAt {α : Type*} (f : ℕ → ℕ → α) (s w : ℕ) (x y : α) :
    setAt (setAt f s w x) s w y = setAt f s w y := by
  funext s' w'
  simp only [setAt]
  split_ifs <;> rfl

theorem selectWay_lt : m.selectWay s < 8 := by
  rw [selectWay]
  cases hf : (List.range cacheWays).find? fun way => !m.valid s way with
  | none => exact wayFromPlru_lt _
  | some w => exact List.mem_range.mp (List.mem_of_find?_eq_some hf)

theorem selectWay_of_full (h : ∀ w < 8, m.valid s w = true) :
    m.selectWay s = wayFromPlru (m.plru s) := by
  have hnone : (List.range cacheWays).find? (fun way => !m.valid s way) = none := by
    rw [List.find?_eq_none]
    intro w hw
    simp [h w (List.mem_range.mp hw)]
  rw [selectWay, hnone, Option.getD_none]

/-- A modified line of a way is copied to the memory. -/
def writeBack (layout : Layout) (m : State) (s w : ℕ) : State :=
  if m.modified s w then m.copyToEmu layout (m.addrs s w) (m.data s w) else m

variable (s w : ℕ)

@[simp] theorem kept_writeBack : (m.writeBack layout s w).kept = m.kept := by
  rw [writeBack]
  split_ifs <;> simp

theorem copyToEmu_fields (addr : ℕ) (line : ℕ → Byte) :
    (m.copyToEmu layout addr line).data = m.data ∧ (m.copyToEmu layout addr line).addrs = m.addrs ∧
    (m.copyToEmu layout addr line).valid = m.valid ∧
    (m.copyToEmu layout addr line).modified = m.modified ∧
    (m.copyToEmu layout addr line).lookup = m.lookup := by
  rw [copyToEmu]
  split_ifs <;> simp

variable (layout) in
theorem writeBack_fields :
    (m.writeBack layout s w).data = m.data ∧ (m.writeBack layout s w).addrs = m.addrs ∧
    (m.writeBack layout s w).valid = m.valid ∧ (m.writeBack layout s w).modified = m.modified ∧
    (m.writeBack layout s w).lookup = m.lookup := by
  rw [writeBack]
  split_ifs
  · exact m.copyToEmu_fields _ _
  · simp

variable {m s w} in
theorem evict_of_valid (h : m.valid s w = true) :
    m.evict layout s w =
      (m.writeBack layout s w).clearLookup layout ((m.writeBack layout s w).addrs s w) := by
  rw [evict, if_pos h]
  rfl

theorem load_dropWay (addr : ℕ) :
    (m.dropWay layout s w).load layout addr s w =
      (m.clearLookup layout (m.addrs s w)).load layout addr s w := by
  simp only [load, dropWay, clearLookup, setAt_setAt]

theorem discard_eq_self {addr : ℕ} (h : ∀ a, lineAddr a = addr → m.unsaved a = []) :
    m.discard addr = m := by
  have hunsaved : (fun a => if lineAddr a = addr then [] else m.unsaved a) = m.unsaved := by
    funext a
    split_ifs with ha
    · exact (h a ha).symm
    · rfl
  rw [discard, hunsaved]

end State

namespace Inv

variable {init : ℕ → Byte} {m : State} {s w : ℕ}

theorem writeBack (h : Inv layout init m) (hv : m.valid s w = true) :
    Inv layout init (m.writeBack layout s w) := by
  rw [State.writeBack]
  split_ifs
  · exact h.copyToEmu hv
  · exact h

theorem unsaved_writeBack (h : Inv layout init m) (hv : m.valid s w = true) {a : ℕ}
    (ha : lineAddr a = m.addrs s w) : (m.writeBack layout s w).unsaved a = [] := by
  rw [State.writeBack]
  split_ifs with hm
  · simp [State.copyToEmu, mapped_of_inRam (h.inRam s w hv), ha]
  · exact h.unsaved_of_clean hv (by simpa using hm) ha

theorem memory_writeBack (h : Inv layout init m) (hv : m.valid s w = true) (a : ℕ) :
    (m.writeBack layout s w).memory a =
      if lineAddr a = m.addrs s w then m.newest init a else m.memory a := by
  split_ifs with ha
  · have hnew := (h.writeBack hv).newest_of_unsaved (h.unsaved_writeBack hv ha)
    rw [← hnew, State.newest, State.kept_writeBack]
    rfl
  · rw [State.writeBack]
    split_ifs
    · simp [State.copyToEmu, mapped_of_inRam (h.inRam s w hv), ha]
    · rfl

theorem drop_writeBack (h : Inv layout init m) (hv : m.valid s w = true) :
    Inv layout init ((m.writeBack layout s w).dropWay layout s w) := by
  have hf := m.writeBack_fields layout s w
  have hdrop := (h.writeBack hv).dropWay (s := s) (w := w)
    (by rw [hf.2.2.1]; exact hv)
  rw [State.discard_eq_self] at hdrop
  · exact hdrop
  · intro a ha
    rw [hf.2.1] at ha
    exact h.unsaved_writeBack hv ha

theorem free (h : Inv layout init m) (addr s w : ℕ) (hl : m.lookup (layout.key addr) = none) :
    ∃ m' : State, Inv layout init m' ∧ m'.kept = m.kept ∧ m'.valid s w = false ∧
      m'.lookup (layout.key addr) = none ∧
      (m.evict layout s w).load layout addr s w = m'.load layout addr s w := by
  by_cases hv : m.valid s w = true
  · have hf := m.writeBack_fields layout s w
    refine ⟨(m.writeBack layout s w).dropWay layout s w, h.drop_writeBack hv, ?_, ?_, ?_, ?_⟩
    · exact m.kept_writeBack s w
    · simp [State.dropWay, setAt]
    · simp only [State.dropWay, State.clearLookup, Function.update_apply, hf.2.2.2.2]
      rw [hl, ite_self]
    · rw [State.evict_of_valid hv, State.load_dropWay]
  · refine ⟨m, h, rfl, by simpa using hv, hl, ?_⟩
    rw [State.evict, if_neg hv]

end Inv

/-- What `GetCache` leaves: no write is lost, and the way holds the line. -/
structure Access (layout : Layout) (init : ℕ → Byte) (m : State) (addr : ℕ)
    (r : Option ℕ × State) : Prop where
  inv : Inv layout init r.2
  kept : r.2.kept = m.kept
  held : ∀ w, r.1 = some w →
    r.2.valid (setOf addr) w = true ∧ r.2.addrs (setOf addr) w = lineAddr addr
  absent : r.1 = none → r.2.lookup (layout.key (lineAddr addr)) = none

namespace Inv

variable {init : ℕ → Byte} {m : State} {addr : ℕ}

theorem getCache (h : Inv layout init m) (ha : layout.InRam addr) (locked : Bool) :
    Access layout init m addr (m.getCache layout addr locked) := by
  have hline : layout.InRam (lineAddr addr) := InRam_lineAddr.mpr ha
  simp only [State.getCache]
  cases hl : m.lookup (layout.key (lineAddr addr)) with
  | some way =>
    have hheld := (h.lookup_inRam hline (lineAddr_dvd addr)).mp hl
    rw [setOf_lineAddr] at hheld ⊢
    exact {
      inv := h.updatePlru (h.way_lt _ _ hheld.1)
      kept := rfl
      held := fun w hw => by
        rw [← Option.some_inj.mp hw]
        exact hheld
      absent := fun hnone => by simp at hnone }
  | none =>
    cases locked with
    | true =>
      exact {
        inv := h
        kept := rfl
        held := fun w hw => by simp at hw
        absent := fun _ => hl }
    | false =>
      obtain ⟨m', hinv, hkept, hfree, hl', heq⟩ :=
        h.free (lineAddr addr) (setOf (lineAddr addr)) (m.selectWay (setOf (lineAddr addr))) hl
      have hlt := m.selectWay_lt (s := setOf (lineAddr addr))
      simp only [Bool.false_eq_true, if_false, heq]
      exact {
        inv := (hinv.load hlt hline (lineAddr_dvd addr) hfree hl').updatePlru hlt
        kept := hkept
        held := fun w hw => by
          rw [← Option.some_inj.mp hw]
          simp [State.updatePlru, State.load, setAt]
        absent := fun hnone => by simp at hnone }

/-! ## `Read` and `Write` -/

theorem readLine (h : Inv layout init m) (ha : layout.InRam addr) {len : ℕ}
    (hlen : addr % 32 + len ≤ 32) (locked : Bool) :
    (m.readLine layout addr len locked).1 =
        (List.range len).map (fun i => m.newest init (addr + i)) ∧
      Inv layout init (m.readLine layout addr len locked).2 ∧
      (m.readLine layout addr len locked).2.kept = m.kept := by
  have hacc := h.getCache ha locked
  have hbyte : ∀ i < len, (addr + i) % 32 = addr % 32 + i ∧ lineAddr (addr + i) = lineAddr addr := by
    intro i hi
    exact ⟨by omega, lineAddr_add (by omega)⟩
  rw [State.readLine]
  cases hr : m.getCache layout addr locked with
  | mk r m' =>
    rw [hr] at hacc
    have hnew : m'.newest init = m.newest init := by
      funext a
      rw [State.newest, State.newest, hacc.kept]
    rw [← hnew]
    cases r with
    | some way =>
      have hheld := hacc.held way rfl
      refine ⟨?_, hacc.inv, hacc.kept⟩
      refine List.map_congr_left fun i hi => ?_
      have hi' := hbyte i (List.mem_range.mp hi)
      have hdata := hacc.inv.data _ _ hheld.1 (addr + i) (hi'.2.trans hheld.2.symm)
      rw [hi'.1] at hdata
      exact hdata
    | none =>
      refine ⟨?_, hacc.inv, hacc.kept⟩
      refine List.map_congr_left fun i hi => ?_
      have hi' := hbyte i (List.mem_range.mp hi)
      rw [if_pos (mapped_of_inRam ha)]
      refine (hacc.inv.newest_of_unsaved ?_).symm
      refine hacc.inv.unsaved_of_not_held fun s w hv => ?_
      rw [hi'.2]
      exact hacc.inv.not_held (hacc.absent rfl) hv

/-- **`Read` returns the newest writes that are kept.** -/
theorem read (h : Inv layout init m) {fuel len : ℕ} (hfuel : len ≤ fuel)
    (ha : ∀ i < len, layout.InRam (addr + i)) (locked : Bool) :
    (read layout fuel addr len locked m).1 =
        (List.range len).map (fun i => m.newest init (addr + i)) ∧
      Inv layout init (read layout fuel addr len locked m).2 ∧
      (read layout fuel addr len locked m).2.kept = m.kept := by
  induction fuel generalizing addr len m with
  | zero =>
    have hzero : len = 0 := Nat.le_zero.mp hfuel
    subst hzero
    exact ⟨rfl, h, rfl⟩
  | succ fuel ih =>
    rw [Cache.read]
    split_ifs with hzero
    · rw [hzero]
      exact ⟨rfl, h, rfl⟩
    · have hrest : 0 < restOfLine addr ∧ addr % 32 + restOfLine addr = 32 := by
        simp only [restOfLine, lineSize]
        omega
      obtain ⟨count, hcount⟩ : ∃ count, count = min len (restOfLine addr) := ⟨_, rfl⟩
      have hle : 0 < count ∧ count ≤ len ∧ addr % 32 + count ≤ 32 := by omega
      have hin : layout.InRam addr := by simpa using ha 0 (by omega)
      obtain ⟨hbytes, hinv, hkept⟩ := h.readLine hin hle.2.2 locked
      have hrestIn : ∀ i < len - count, layout.InRam (addr + count + i) := by
        intro i hi
        rw [Nat.add_assoc]
        exact ha (count + i) (by omega)
      obtain ⟨hbytes', hinv', hkept'⟩ := ih hinv (by omega) hrestIn
      rw [← hcount]
      refine ⟨?_, hinv', hkept'.trans hkept⟩
      have hnew : (m.readLine layout addr count locked).2.newest init = m.newest init := by
        funext a
        rw [State.newest, State.newest, hkept]
      have hsplit : List.range len =
          List.range count ++ (List.range (len - count)).map (count + ·) := by
        rw [← List.range_add, Nat.add_sub_cancel' hle.2.1]
      rw [hnew] at hbytes'
      rw [hsplit, List.map_append, List.map_map, ← hbytes]
      simp only [Nat.add_assoc] at hbytes'
      exact congrArg _ hbytes'

theorem writeLine (h : Inv layout init m) (ha : layout.InRam addr) {bytes : List Byte}
    (hlen : addr % 32 + bytes.length ≤ 32) (locked : Bool) :
    Inv layout init (m.writeLine layout addr bytes locked) ∧
      ∀ a, (m.writeLine layout addr bytes locked).kept a =
        if addr ≤ a ∧ a < addr + bytes.length then bytes.getD (a - addr) 0 :: m.kept a
        else m.kept a := by
  have hacc := h.getCache ha locked
  rw [State.writeLine]
  cases hr : m.getCache layout addr locked with
  | mk r m' =>
    rw [hr] at hacc
    rw [← hacc.kept]
    cases r with
    | some way =>
      have hheld := hacc.held way rfl
      exact ⟨hacc.inv.writeSlot hheld.1 hheld.2 hlen, m'.kept_writeSlot addr _ way bytes⟩
    | none =>
      have hl := hacc.absent rfl
      exact ⟨hacc.inv.writeMemory hl ha hlen, hacc.inv.kept_writeMemory hl ha hlen⟩

/-- **`Write` adds its bytes to the writes that are kept.** -/
theorem write (h : Inv layout init m) {fuel : ℕ} {bytes : List Byte} (hfuel : bytes.length ≤ fuel)
    (ha : ∀ i < bytes.length, layout.InRam (addr + i)) (locked : Bool) :
    Inv layout init (write layout fuel addr bytes locked m) ∧
      ∀ a, (write layout fuel addr bytes locked m).kept a =
        if addr ≤ a ∧ a < addr + bytes.length then bytes.getD (a - addr) 0 :: m.kept a
        else m.kept a := by
  induction fuel generalizing addr bytes m with
  | zero =>
    have hnil : bytes = [] := List.length_eq_zero_iff.mp (Nat.le_zero.mp hfuel)
    subst hnil
    refine ⟨h, fun a => ?_⟩
    rw [if_neg (by simp only [List.length_nil]; omega)]
    rfl
  | succ fuel ih =>
    rw [Cache.write]
    split_ifs with hnil
    · subst hnil
      refine ⟨h, fun a => ?_⟩
      rw [if_neg (by simp only [List.length_nil]; omega)]
    · have hpos : 0 < bytes.length := List.length_pos_iff.mpr hnil
      have hrest : 0 < restOfLine addr ∧ addr % 32 + restOfLine addr = 32 := by
        simp only [restOfLine, lineSize]
        omega
      obtain ⟨count, hcount⟩ : ∃ count, count = min bytes.length (restOfLine addr) := ⟨_, rfl⟩
      have hle : 0 < count ∧ count ≤ bytes.length ∧ addr % 32 + count ≤ 32 := by omega
      have hin : layout.InRam addr := by simpa using ha 0 hpos
      have htake : (bytes.take count).length = count := List.length_take_of_le hle.2.1
      have hdrop : (bytes.drop count).length = bytes.length - count := List.length_drop
      have hline : addr % 32 + (bytes.take count).length ≤ 32 := by
        rw [htake]
        exact hle.2.2
      have hrestIn : ∀ i < (bytes.drop count).length, layout.InRam (addr + count + i) := by
        intro i hi
        rw [Nat.add_assoc]
        exact ha (count + i) (by omega)
      obtain ⟨hinv, hkept⟩ := h.writeLine hin hline locked
      obtain ⟨hinv', hkept'⟩ := ih hinv (by omega) hrestIn
      rw [← hcount]
      refine ⟨hinv', fun a => ?_⟩
      rw [hkept', hkept, htake, hdrop]
      by_cases hfirst : addr ≤ a ∧ a < addr + count
      · have hget : (bytes.take count).getD (a - addr) 0 = bytes.getD (a - addr) 0 := by
          rw [List.getD_eq_getElem?_getD, List.getD_eq_getElem?_getD,
            List.getElem?_take_of_lt (by omega)]
        rw [if_neg (by omega), if_pos hfirst, if_pos (by omega), hget]
      · rw [if_neg hfirst]
        by_cases hsecond : addr + count ≤ a ∧ a < addr + bytes.length
        · have hget : (bytes.drop count).getD (a - (addr + count)) 0 = bytes.getD (a - addr) 0 := by
            have hadd : count + (a - (addr + count)) = a - addr := by omega
            rw [List.getD_eq_getElem?_getD, List.getD_eq_getElem?_getD, List.getElem?_drop, hadd]
          rw [if_pos (by omega), if_pos (by omega), hget]
        · rw [if_neg (by omega), if_neg (by omega)]

/-! ## The operations on one line -/

theorem getCache_locked (h : Inv layout init m) (ha : layout.InRam addr ∨ InFakeVMem addr) :
    (m.getCache layout addr true = (none, m) ∧
      ∀ s w, m.valid s w = true → m.addrs s w ≠ lineAddr addr) ∨
    ∃ way, m.getCache layout addr true = (some way, m.updatePlru (setOf addr) way) ∧
      m.valid (setOf addr) way = true ∧ m.addrs (setOf addr) way = lineAddr addr := by
  simp only [State.getCache]
  cases hl : m.lookup (layout.key (lineAddr addr)) with
  | none =>
    left
    exact ⟨rfl, fun s w hv => h.not_held hl hv⟩
  | some way =>
    right
    cases ha with
    | inl ha =>
      have hheld := (h.lookup_inRam (InRam_lineAddr.mpr ha) (lineAddr_dvd addr)).mp hl
      rw [setOf_lineAddr] at hheld
      exact ⟨way, by simp, hheld⟩
    | inr ha =>
      rw [h.lookup_fakeVMem ha] at hl
      simp at hl

end Inv

namespace State

/-- A way holds the line, with writes that are not in memory. -/
def Dirty (m : State) (line : ℕ) : Prop :=
  ∃ w, m.valid (setOf line) w = true ∧ m.modified (setOf line) w = true ∧
    m.addrs (setOf line) w = line

/-- The newest write to a byte that is kept, else the byte in memory. -/
def latest (m : State) (a : ℕ) : Byte := (m.kept a).headD (m.memory a)

/-- Exactly the modified lines that are covered get to the memory. -/
def WritesBack (m m' : State) (covered : ℕ → Prop) : Prop :=
  ∀ a, (covered (lineAddr a) ∧ m.Dirty (lineAddr a) → m'.memory a = m.latest a) ∧
    (¬(covered (lineAddr a) ∧ m.Dirty (lineAddr a)) → m'.memory a = m.memory a)

end State

namespace Inv

variable {init : ℕ → Byte} {m : State} {s w addr : ℕ}

theorem latest_eq (h : Inv layout init m) (a : ℕ) : m.latest a = m.newest init a :=
  h.newest_eq.symm

theorem unsaved_of_not_dirty (h : Inv layout init m) {a : ℕ} (ha : ¬m.Dirty (lineAddr a)) :
    m.unsaved a = [] := by
  by_contra hne
  obtain ⟨s, w, hm, haddr⟩ := h.unsaved a hne
  have hv := h.modified_valid s w hm
  have hset := h.setOf_addrs s w hv
  rw [haddr] at hset
  refine ha ⟨w, ?_, ?_, ?_⟩
  · rw [hset]
    exact hv
  · rw [hset]
    exact hm
  · rw [hset]
    exact haddr

theorem writesBack (h : Inv layout init m) (hv : m.valid s w = true) :
    m.WritesBack (m.writeBack layout s w) (· = m.addrs s w) := by
  intro a
  rw [h.memory_writeBack hv, h.latest_eq]
  constructor
  · rintro ⟨hline, -⟩
    rw [if_pos hline]
  · intro hnot
    split_ifs with hline
    · exact h.newest_of_unsaved (h.unsaved_of_not_dirty fun hdirty => hnot ⟨hline, hdirty⟩)
    · rfl

theorem writesBack_self (h : ∀ s w, m.valid s w = true → m.addrs s w ≠ lineAddr addr) :
    m.WritesBack m (· = lineAddr addr) := by
  intro a
  refine ⟨?_, fun _ => rfl⟩
  rintro ⟨hline, w, hv, -, haddr⟩
  exact absurd (haddr.trans hline) (h _ _ hv)

theorem store_eq {way : ℕ}
    (hacc : m.getCache layout addr true = (some way, m.updatePlru (setOf addr) way))
    (hv : m.valid (setOf addr) way = true) (haddr : m.addrs (setOf addr) way = lineAddr addr) :
    m.store layout addr =
      { (m.updatePlru (setOf addr) way).writeBack layout (setOf addr) way with
        modified := setAt ((m.updatePlru (setOf addr) way).writeBack layout (setOf addr) way).modified
          (setOf addr) way false } := by
  have hv' : (m.updatePlru (setOf addr) way).valid (setOf addr) way = true := hv
  have haddr' : (m.updatePlru (setOf addr) way).addrs (setOf addr) way = lineAddr addr := haddr
  simp only [State.store, hacc, hv', Bool.true_and, State.writeBack, haddr']

theorem flush_eq {way : ℕ}
    (hacc : m.getCache layout addr true = (some way, m.updatePlru (setOf addr) way))
    (hv : m.valid (setOf addr) way = true) (haddr : m.addrs (setOf addr) way = lineAddr addr) :
    m.flush layout addr =
      ((m.updatePlru (setOf addr) way).writeBack layout (setOf addr) way).dropWay layout
        (setOf addr) way := by
  have hv' : (m.updatePlru (setOf addr) way).valid (setOf addr) way = true := hv
  have haddr' : (m.updatePlru (setOf addr) way).addrs (setOf addr) way = lineAddr addr := haddr
  simp only [State.flush, hacc, hv', if_true, State.writeBack, haddr']

/-- **`Store` copies its line if it is modified.** -/
theorem store (h : Inv layout init m) (ha : layout.InRam addr ∨ InFakeVMem addr) :
    Inv layout init (m.store layout addr) ∧ (m.store layout addr).kept = m.kept ∧
      m.WritesBack (m.store layout addr) (· = lineAddr addr) := by
  obtain ⟨hacc, hnone⟩ | ⟨way, hacc, hv, haddr⟩ := h.getCache_locked ha
  · have heq : m.store layout addr = m := by
      rw [State.store]
      simp only [hacc]
    rw [heq]
    exact ⟨h, rfl, writesBack_self hnone⟩
  · rw [store_eq hacc hv haddr]
    have h' : Inv layout init (m.updatePlru (setOf addr) way) := h.updatePlru (h.way_lt _ _ hv)
    have hf := (m.updatePlru (setOf addr) way).writeBack_fields layout (setOf addr) way
    refine ⟨(h'.writeBack hv).clean ?_ fun a hline => ?_, ?_, ?_⟩
    · rw [hf.2.2.1]
      exact hv
    · rw [hf.2.1] at hline
      exact h'.unsaved_writeBack hv hline
    · exact State.kept_writeBack _ _ _
    · have hback := h'.writesBack hv
      rw [← haddr]
      exact hback

/-- **`Flush` copies its line if it is modified.** -/
theorem flush (h : Inv layout init m) (ha : layout.InRam addr ∨ InFakeVMem addr) :
    Inv layout init (m.flush layout addr) ∧ (m.flush layout addr).kept = m.kept ∧
      m.WritesBack (m.flush layout addr) (· = lineAddr addr) := by
  obtain ⟨hacc, hnone⟩ | ⟨way, hacc, hv, haddr⟩ := h.getCache_locked ha
  · have heq : m.flush layout addr = m := by
      rw [State.flush]
      simp only [hacc]
    rw [heq]
    exact ⟨h, rfl, writesBack_self hnone⟩
  · rw [flush_eq hacc hv haddr]
    have h' : Inv layout init (m.updatePlru (setOf addr) way) := h.updatePlru (h.way_lt _ _ hv)
    refine ⟨h'.drop_writeBack hv, State.kept_writeBack _ _ _, ?_⟩
    have hback := h'.writesBack hv
    rw [← haddr]
    exact hback

/-- **`Invalidate` loses the writes to its line that are only in the cache.** -/
theorem invalidate (h : Inv layout init m) (ha : layout.InRam addr ∨ InFakeVMem addr) :
    Inv layout init (m.invalidate layout addr) ∧
      ∀ a, (m.invalidate layout addr).kept a =
        if lineAddr a = lineAddr addr then m.saved a else m.kept a := by
  obtain ⟨hacc, hnone⟩ | ⟨way, hacc, hv, haddr⟩ := h.getCache_locked ha
  · have heq : m.invalidate layout addr = m := by
      rw [State.invalidate]
      simp only [hacc]
    rw [heq]
    refine ⟨h, fun a => ?_⟩
    split_ifs with hline
    · have hunsaved : m.unsaved a = [] := h.unsaved_of_not_held fun s w hv => by
        rw [hline]
        exact hnone s w hv
      rw [State.kept, hunsaved, List.nil_append]
    · rfl
  · have h' : Inv layout init (m.updatePlru (setOf addr) way) := h.updatePlru (h.way_lt _ _ hv)
    have hv' : (m.updatePlru (setOf addr) way).valid (setOf addr) way = true := hv
    have haddr' : (m.updatePlru (setOf addr) way).addrs (setOf addr) way = lineAddr addr := haddr
    simp only [State.invalidate, hacc, hv', if_true]
    refine ⟨h'.dropWay hv, fun a => ?_⟩
    rw [State.kept_discard, haddr']
    rfl

theorem touch (h : Inv layout init m) (ha : layout.InRam addr) :
    Inv layout init (m.touch layout addr) ∧ (m.touch layout addr).kept = m.kept :=
  ⟨(h.getCache ha false).inv, (h.getCache ha false).kept⟩

/-- **The way replaced in a full set is not the one used last.** -/
theorem replaced (h : Inv layout init m) (hl : m.lookup (layout.key (lineAddr addr)) = none)
    (hfull : ∀ w < 8, m.valid (setOf addr) w = true)
    (hw : (m.getCache layout addr false).1 = some w) : m.recent (setOf addr) ≠ some w := by
  intro hr
  have hne := h.recent _ _ hr
  simp only [State.getCache, hl, setOf_lineAddr, Bool.false_eq_true, if_false, Option.some_inj,
    m.selectWay_of_full hfull] at hw
  exact hne hw

/-! ## `FlushAll` -/

theorem mem_slots {slot : ℕ × ℕ} : slot ∈ State.slots ↔ slot.1 < cacheSets ∧ slot.2 < cacheWays := by
  simp [State.slots, Prod.ext_iff]

theorem slot_mem (h : Inv layout init m) (hv : m.valid s w = true) : (s, w) ∈ State.slots :=
  mem_slots.mpr ⟨h.set_lt s w hv, h.way_lt s w hv⟩

theorem flushSlot_eq (slot : ℕ × ℕ) :
    m.flushSlot layout slot =
      if m.valid slot.1 slot.2 = true then m.writeBack layout slot.1 slot.2 else m := by
  cases hv : m.valid slot.1 slot.2 <;> simp [State.flushSlot, State.writeBack, hv]

theorem flushSlots (h : Inv layout init m) (slots : List (ℕ × ℕ)) :
    Inv layout init (slots.foldl (State.flushSlot layout) m) ∧
      (slots.foldl (State.flushSlot layout) m).kept = m.kept ∧
      ∀ a, (m.unsaved a = [] ∨ ∃ slot ∈ slots, m.valid slot.1 slot.2 = true ∧
        m.addrs slot.1 slot.2 = lineAddr a) →
        (slots.foldl (State.flushSlot layout) m).unsaved a = [] := by
  induction slots generalizing m with
  | nil =>
    refine ⟨h, rfl, fun a ha => ?_⟩
    simpa using ha
  | cons slot slots ih =>
    rw [List.foldl_cons, flushSlot_eq]
    by_cases hv : m.valid slot.1 slot.2 = true
    · rw [if_pos hv]
      have hf := m.writeBack_fields layout slot.1 slot.2
      obtain ⟨hinv, hkept, hunsaved⟩ := ih (h.writeBack hv)
      refine ⟨hinv, hkept.trans (m.kept_writeBack _ _), fun a ha => hunsaved a ?_⟩
      rw [hf.2.1, hf.2.2.1]
      rcases ha with hnil | ⟨slot', hmem, hv', haddr⟩
      · left
        have hsub : (m.writeBack layout slot.1 slot.2).unsaved a = m.unsaved a ∨
            (m.writeBack layout slot.1 slot.2).unsaved a = [] := by
          by_cases hline : lineAddr a = m.addrs slot.1 slot.2
          · exact .inr (h.unsaved_writeBack hv hline)
          · left
            rw [State.writeBack]
            split_ifs
            · simp [State.copyToEmu, mapped_of_inRam (h.inRam _ _ hv), hline]
            · rfl
        rcases hsub with hsub | hsub
        · rw [hsub, hnil]
        · exact hsub
      · rcases List.mem_cons.mp hmem with rfl | hmem
        · exact .inl (h.unsaved_writeBack hv haddr.symm)
        · exact .inr ⟨slot', hmem, hv', haddr⟩
    · rw [if_neg hv]
      obtain ⟨hinv, hkept, hunsaved⟩ := ih h
      refine ⟨hinv, hkept, fun a ha => hunsaved a ?_⟩
      rcases ha with hnil | ⟨slot', hmem, hv', haddr⟩
      · exact .inl hnil
      · rcases List.mem_cons.mp hmem with rfl | hmem
        · exact absurd hv' hv
        · exact .inr ⟨slot', hmem, hv', haddr⟩

/-- **`FlushAll` copies all modified lines.** -/
theorem flushAll (h : Inv layout init m) :
    Inv layout init (m.flushAll layout) ∧ (m.flushAll layout).kept = m.kept ∧
      m.WritesBack (m.flushAll layout) fun _ => True := by
  obtain ⟨hinv, hkept, hunsaved⟩ := h.flushSlots State.slots
  have hnil : ∀ a, (State.slots.foldl (State.flushSlot layout) m).unsaved a = [] := by
    intro a
    refine hunsaved a ?_
    by_cases ha : m.unsaved a = []
    · exact .inl ha
    · obtain ⟨s, w, hm, haddr⟩ := h.unsaved a ha
      have hv := h.modified_valid s w hm
      exact .inr ⟨(s, w), h.slot_mem hv, hv, haddr⟩
  rw [State.flushAll]
  refine ⟨hinv.reset hnil, by rw [State.kept_reset, hkept], fun a => ?_⟩
  rw [State.memory_reset, ← hinv.newest_of_unsaved (hnil a), State.newest, hkept, h.latest_eq]
  refine ⟨fun _ => rfl, fun hnot => h.newest_of_unsaved (h.unsaved_of_not_dirty fun hdirty => ?_)⟩
  exact hnot ⟨trivial, hdirty⟩

end Inv

/-! ## `DoState` -/

theorem foldl_update_eq {α β ι : Type*} [DecidableEq α] {p : ι → Bool} {key : ι → α} {value : ι → β}
    {f : α → β} {x : α} {y : β} (slots : List ι)
    (hall : ∀ i ∈ slots, p i = true → key i = x → value i = y)
    (h : f x = y ∨ ∃ i ∈ slots, p i = true ∧ key i = x) :
    slots.foldl (fun f i => if p i = true then Function.update f (key i) (value i) else f) f x = y := by
  induction slots generalizing f with
  | nil => simpa using h
  | cons i slots ih =>
    rw [List.foldl_cons]
    refine ih (fun j hj => hall j (List.mem_cons_of_mem i hj)) ?_
    by_cases hi : p i = true ∧ key i = x
    · left
      rw [if_pos hi.1, ← hi.2, Function.update_self]
      exact hall i List.mem_cons_self hi.1 hi.2
    · rcases h with hf | ⟨j, hj, hj'⟩
      · left
        split_ifs with hp
        · have hne : x ≠ key i := fun heq => hi ⟨hp, heq.symm⟩
          rw [Function.update_of_ne hne, hf]
        · exact hf
      · rcases List.mem_cons.mp hj with rfl | hj
        · exact absurd hj' hi
        · exact .inr ⟨j, hj, hj'⟩

/-- **The tables made again are those that were saved.** -/
theorem loadState_eq {init : ℕ → Byte} {m saved : State} (h : Inv layout init m)
    (hsaved : Inv layout init saved) : loadState layout m saved = saved := by
  have hset : ∀ lookup, lookup = saved.lookup → ({ saved with lookup := lookup } : State) = saved := by
    rintro _ rfl
    rfl
  rw [loadState]
  refine hset _ (funext fun k => ?_)
  refine foldl_update_eq _ (fun slot _ hv hk => ?_) ?_
  · rw [← hk]
    exact (hsaved.lookup_addrs _ _ hv).symm
  · cases hl : saved.lookup k with
    | none =>
      left
      refine foldl_update_eq _ (fun slot _ _ _ => rfl) ?_
      cases hl' : m.lookup k with
      | none => exact .inl rfl
      | some w =>
        right
        obtain ⟨s, hv, hk⟩ := h.found k w hl'
        exact ⟨(s, w), h.slot_mem hv, hv, hk⟩
    | some w =>
      right
      obtain ⟨s, hv, hk⟩ := hsaved.found k w hl
      exact ⟨(s, w), hsaved.slot_mem hv, hv, hk⟩

/-! ## Runs -/

/-- What the cache promises. The addresses that may be brought into the cache are those `inside`. -/
structure Coherent (layout : Layout) (inside : ℕ → Prop) (m : State) : Prop where
  lookup_iff : ∀ a w, 32 ∣ a → layout.InRam a ∨ InFakeVMem a →
    (m.lookup (layout.key a) = some w ↔ m.valid (setOf a) w = true ∧ m.addrs (setOf a) w = a)
  one_way : ∀ s w s' w', m.valid s w = true → m.valid s' w' = true → m.addrs s w = m.addrs s' w' →
    s = s' ∧ w = w'
  modified_valid : ∀ s w, m.modified s w = true → m.valid s w = true
  read_latest : ∀ addr len locked, (∀ i < len, inside (addr + i)) →
    (read layout len addr len locked m).1 = (List.range len).map fun i => m.latest (addr + i)
  read_kept : ∀ addr len locked, (∀ i < len, inside (addr + i)) →
    (read layout len addr len locked m).2.kept = m.kept
  write_kept : ∀ addr bytes locked, (∀ i < bytes.length, inside (addr + i)) → ∀ a,
    (write layout bytes.length addr bytes locked m).kept a =
      if addr ≤ a ∧ a < addr + bytes.length then bytes.getD (a - addr) 0 :: m.kept a else m.kept a
  touch_kept : ∀ addr, inside addr → (m.touch layout addr).kept = m.kept
  invalidate_kept : ∀ addr, layout.InRam addr ∨ InFakeVMem addr → ∀ a,
    (m.invalidate layout addr).kept a = if lineAddr a = lineAddr addr then m.saved a else m.kept a
  store : ∀ addr, layout.InRam addr ∨ InFakeVMem addr → (m.store layout addr).kept = m.kept ∧
    m.WritesBack (m.store layout addr) (· = lineAddr addr)
  flush : ∀ addr, layout.InRam addr ∨ InFakeVMem addr → (m.flush layout addr).kept = m.kept ∧
    m.WritesBack (m.flush layout addr) (· = lineAddr addr)
  flushAll : (m.flushAll layout).kept = m.kept ∧ m.WritesBack (m.flushAll layout) fun _ => True
  replaced : ∀ addr w, m.lookup (layout.key (lineAddr addr)) = none →
    (∀ w' < 8, m.valid (setOf addr) w' = true) →
    (m.getCache layout addr false).1 = some w → m.recent (setOf addr) ≠ some w

theorem Inv.coherent {init : ℕ → Byte} {m : State} (h : Inv layout init m) :
    Coherent layout layout.InRam m where
  lookup_iff a w ha ha' := by
    cases ha' with
    | inl ha' => exact h.lookup_inRam ha' ha
    | inr ha' =>
      have hl := h.lookup_fakeVMem ha'
      rw [lineAddr_of_dvd ha] at hl
      simp only [hl, false_iff, reduceCtorEq, not_and]
      exact fun hv => h.not_held hl hv
  one_way _ _ _ _ hv hv' heq := h.slot_unique hv hv' heq
  modified_valid := h.modified_valid
  read_latest addr len locked ha := by
    rw [(h.read le_rfl ha locked).1]
    exact List.map_congr_left fun i _ => (h.latest_eq _).symm
  read_kept _ _ locked ha := (h.read le_rfl ha locked).2.2
  write_kept _ _ locked ha := (h.write le_rfl ha locked).2
  touch_kept _ ha := (h.touch ha).2
  invalidate_kept _ ha := (h.invalidate ha).2
  store _ ha := (h.store ha).2
  flush _ ha := (h.flush ha).2
  flushAll := h.flushAll.2
  replaced _ _ hl hfull hw := h.replaced hl hfull hw

theorem inv_start (memory : ℕ → Byte) : Inv layout memory (start memory).state where
  set_lt := by simp [start, State.reset]
  way_lt := by simp [start, State.reset]
  inRam := by simp [start, State.reset]
  aligned := by simp [start, State.reset]
  setOf_addrs := by simp [start, State.reset]
  lookup_addrs := by simp [start, State.reset]
  found := by simp [start, State.reset]
  modified_valid := by simp [start, State.reset]
  memory := by simp [start, State.reset]
  data := by simp [start, State.reset]
  unsaved := by simp [start, State.reset]
  recent := by simp [start, State.reset]

/-- The cache and the saved state meet the invariant. -/
def System.Inv (layout : Layout) (init : ℕ → Byte) (s : System) : Prop :=
  Cache.Inv layout init s.state ∧ ∀ saved, s.savedState = some saved → Cache.Inv layout init saved

theorem step_inv {init : ℕ → Byte} {s s' : System} {op : Operation} (h : s.Inv layout init)
    (hok : AvoidsFakeVMem layout s op) (hs : step layout s op = some s') : s'.Inv layout init := by
  obtain ⟨hinv, hsaved⟩ := h
  cases op with
  | read addr len locked =>
    cases hs
    exact ⟨(hinv.read le_rfl hok locked).2.1, hsaved⟩
  | write addr bytes locked =>
    cases hs
    exact ⟨(hinv.write le_rfl hok locked).1, hsaved⟩
  | store addr =>
    cases hs
    exact ⟨(hinv.store hok).1, hsaved⟩
  | flush addr =>
    cases hs
    exact ⟨(hinv.flush hok).1, hsaved⟩
  | invalidate addr =>
    cases hs
    exact ⟨(hinv.invalidate hok).1, hsaved⟩
  | touch addr =>
    cases hs
    exact ⟨(hinv.touch hok).1, hsaved⟩
  | flushAll =>
    rw [step, Option.some_inj] at hs
    rw [← hs]
    exact ⟨hinv.flushAll.1, hsaved⟩
  | saveState =>
    cases hs
    refine ⟨hinv, fun saved heq => ?_⟩
    rw [← Option.some_inj.mp heq]
    exact hinv
  | loadState =>
    obtain ⟨saved, hsome, heq⟩ := Option.map_eq_some_iff.mp hs
    have hload := loadState_eq hinv (hsaved saved hsome)
    rw [← heq, hload]
    exact ⟨hsaved saved hsome, hsaved⟩

/-- **The cache is coherent in every run that brings no line of FakeVMEM into it.** -/
theorem coherent_of_reach (memory : ℕ → Byte) {s : System}
    (h : Reach (step layout) (AvoidsFakeVMem layout) (start memory) s) :
    Coherent layout layout.InRam s.state := by
  have hinv : s.Inv layout memory :=
    h.invariant ⟨inv_start memory, fun _ hnone => by simp [start] at hnone⟩
      fun _ _ _ h hok hs => step_inv h hok hs
  exact hinv.1.coherent

/-- 24 MiB of RAM in 32, and 64 MiB of EXRAM. -/
def wiiLayout : Layout where
  ramSize := 0x1800000
  ramBits := 25
  exRamSize := 0x4000000
  exRamBits := 26
  ram_lines := by decide
  ram_le := by decide
  ramBits_le := by decide
  exRam_lines := by decide
  exRam_le := by decide
  exRamBits_le := by decide

theorem coherent_of_reach_write :
    Coherent wiiLayout wiiLayout.InRam (write wiiLayout 1 64 [7] false (start fun _ => 0).state) :=
  coherent_of_reach (fun _ => 0)
    (s := ⟨write wiiLayout 1 64 [7] false (start fun _ => 0).state, none⟩)
    (.tail (.write 64 [7] false) .refl
      (fun i hi => .inl (by simp only [List.length_singleton] at hi; simp only [wiiLayout]; omega)) rfl)

theorem fakeVMem_incoherent :
    ¬∀ (layout : Layout) (memory : ℕ → Byte) (s : System),
      Reach (step layout) (InsideMemory layout) (start memory) s →
        Coherent layout (fun a => layout.InRam a ∨ InFakeVMem a) s.state := by
  intro h
  have hread := (h wiiLayout (fun _ => 5) (start fun _ => 5) .refl).read_latest 0x7E000000 1 false
    (fun i hi => .inr (by simp only [InFakeVMem]; omega))
  revert hread
  decide +kernel

end PowerPC.Cache
