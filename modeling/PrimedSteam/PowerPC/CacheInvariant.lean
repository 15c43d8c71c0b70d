import PrimedSteam.PowerPC.Cache

/-!
# The invariant of the emulated cache

`Inv`: a valid way has its table entry, its line is in RAM or EXRAM, and its bytes are the newest writes.
Each part of an operation keeps it: a line is copied to the memory, dropped, loaded or written.
-/

set_option autoImplicit false

namespace PowerPC.Cache

variable {layout : Layout}

/-! ## Addresses -/

theorem lineAddr_dvd (a : ℕ) : 32 ∣ lineAddr a := ⟨a / 32, Nat.mul_comm ..⟩

theorem lineAddr_of_dvd {a : ℕ} (h : 32 ∣ a) : lineAddr a = a := Nat.div_mul_cancel h

@[simp] theorem setOf_lineAddr (a : ℕ) : setOf (lineAddr a) = setOf a := by
  simp only [setOf, lineAddr, lineSize, cacheSets]
  omega

theorem lineAddr_add_mod (a : ℕ) : lineAddr a + a % 32 = a := by
  simp only [lineAddr, lineSize]
  omega

theorem lineAddr_add {a i : ℕ} (h : a % 32 + i < 32) : lineAddr (a + i) = lineAddr a := by
  simp only [lineAddr, lineSize]
  omega

theorem setOf_lt (a : ℕ) : setOf a < 128 := Nat.mod_lt _ (by decide)

theorem Layout.ramSize_le (layout : Layout) : layout.ramSize ≤ 2 ^ 28 :=
  layout.ram_le.trans (Nat.pow_le_pow_right (by decide) layout.ramBits_le)

theorem Layout.exRamSize_le (layout : Layout) : layout.exRamSize ≤ 2 ^ 28 :=
  layout.exRam_le.trans (Nat.pow_le_pow_right (by decide) layout.exRamBits_le)

theorem InRam_lineAddr {a : ℕ} : layout.InRam (lineAddr a) ↔ layout.InRam a := by
  have h₁ := layout.ram_lines
  have h₂ := layout.exRam_lines
  simp only [Layout.InRam, lineAddr, lineSize]
  omega

theorem mapped_of_inRam {a : ℕ} (h : layout.InRam a) : layout.mapped a = true := by
  have h₁ := layout.ramSize_le
  have h₂ := layout.exRamSize_le
  simp only [Layout.InRam, Layout.mapped, Bool.or_eq_true, Bool.and_eq_true, decide_eq_true_eq,
    beq_iff_eq] at *
  omega

theorem key_ram {a : ℕ} (h : a < layout.ramSize) : layout.key a = (.ram, a / 32) := by
  have hsize := layout.ramSize_le
  have htable : tableOf a = .ram := by
    rw [tableOf, if_neg (by omega), if_neg (by omega)]
  simp only [Layout.key, htable, Layout.bits]
  rw [Nat.mod_eq_of_lt (h.trans_le layout.ram_le)]
  rfl

theorem key_exRam {a : ℕ} (h : a < layout.exRamSize) :
    layout.key (2 ^ 28 + a) = (.exRam, a / 32) := by
  have hsize := layout.exRamSize_le
  have htable : tableOf (2 ^ 28 + a) = .exRam := by
    rw [tableOf, if_neg (by omega), if_pos (by omega)]
  have hpow : 2 ^ 28 = 2 ^ layout.exRamBits * 2 ^ (28 - layout.exRamBits) := by
    rw [← pow_add, Nat.add_sub_cancel' layout.exRamBits_le]
  simp only [Layout.key, htable, Layout.bits]
  rw [hpow, Nat.mul_add_mod, Nat.mod_eq_of_lt (h.trans_le layout.exRam_le)]
  rfl

theorem key_fakeVMem {a : ℕ} (h : InFakeVMem a) : (layout.key (lineAddr a)).1 = .vMem := by
  have hbit : lineAddr a / 2 ^ 29 % 2 = 1 := by
    simp only [InFakeVMem, lineAddr, lineSize] at *
    omega
  simp only [Layout.key, tableOf, hbit, if_true]

theorem key_inRam {a : ℕ} (h : layout.InRam a) : (layout.key a).1 ≠ .vMem := by
  cases h with
  | inl h => simp [key_ram h]
  | inr h =>
    have hadd : a = 2 ^ 28 + (a - 2 ^ 28) := by omega
    have hlt : a - 2 ^ 28 < layout.exRamSize := by omega
    rw [hadd, key_exRam hlt]
    simp

/-- **The tables tell the lines of RAM and EXRAM apart.** -/
theorem key_injective {a b : ℕ} (ha : layout.InRam a) (hb : layout.InRam b) (ha' : 32 ∣ a)
    (hb' : 32 ∣ b) (h : layout.key a = layout.key b) : a = b := by
  have hram : ∀ c, 2 ^ 28 ≤ c ∧ c < 2 ^ 28 + layout.exRamSize →
      layout.key c = (.exRam, (c - 2 ^ 28) / 32) := by
    intro c hc
    have hadd : 2 ^ 28 + (c - 2 ^ 28) = c := by omega
    have hlt : c - 2 ^ 28 < layout.exRamSize := by omega
    rw [← key_exRam hlt, hadd]
  cases ha with
  | inl ha =>
    cases hb with
    | inl hb =>
      rw [key_ram ha, key_ram hb, Prod.mk.injEq] at h
      omega
    | inr hb =>
      rw [key_ram ha, hram b hb] at h
      simp at h
  | inr ha =>
    cases hb with
    | inl hb =>
      rw [hram a ha, key_ram hb] at h
      simp at h
    | inr hb =>
      rw [hram a ha, hram b hb, Prod.mk.injEq] at h
      omega

/-! ## Replacement -/

/-- The way used last is not the one that the pseudo-LRU bits name. -/
theorem wayFromPlru_nextPlru (plru : BitVec 8) {way : ℕ} (h : way < 8) :
    wayFromPlru (nextPlru plru way) ≠ way := by
  have hall : ∀ (way : Fin 8) (plru : BitVec 8), wayFromPlru (nextPlru plru way) ≠ way := by
    decide +kernel
  exact hall ⟨way, h⟩ plru

theorem wayFromPlru_lt (plru : BitVec 8) : wayFromPlru plru < 8 := by
  simp only [wayFromPlru]
  split_ifs <;> decide

/-! ## The invariant -/

namespace State

/-- The writes to a byte that are kept, newest first. -/
def kept (m : State) (a : ℕ) : List Byte := m.unsaved a ++ m.saved a

/-- The newest write to a byte that is kept, else what was there at first. -/
def newest (init : ℕ → Byte) (m : State) (a : ℕ) : Byte := (m.kept a).headD (init a)

end State

structure Inv (layout : Layout) (init : ℕ → Byte) (m : State) : Prop where
  set_lt : ∀ s w, m.valid s w = true → s < cacheSets
  way_lt : ∀ s w, m.valid s w = true → w < cacheWays
  inRam : ∀ s w, m.valid s w = true → layout.InRam (m.addrs s w)
  aligned : ∀ s w, m.valid s w = true → 32 ∣ m.addrs s w
  setOf_addrs : ∀ s w, m.valid s w = true → setOf (m.addrs s w) = s
  lookup_addrs : ∀ s w, m.valid s w = true → m.lookup (layout.key (m.addrs s w)) = some w
  found : ∀ k w, m.lookup k = some w → ∃ s, m.valid s w = true ∧ layout.key (m.addrs s w) = k
  modified_valid : ∀ s w, m.modified s w = true → m.valid s w = true
  memory : ∀ a, m.memory a = (m.saved a).headD (init a)
  data : ∀ s w, m.valid s w = true → ∀ a, lineAddr a = m.addrs s w →
    m.data s w (a % 32) = m.newest init a
  unsaved : ∀ a, m.unsaved a ≠ [] → ∃ s w, m.modified s w = true ∧ m.addrs s w = lineAddr a
  recent : ∀ s w, m.recent s = some w → wayFromPlru (m.plru s) ≠ w

namespace Inv

variable {init : ℕ → Byte} {m : State} {s w s' w' a : ℕ}

/-- **No line is held by two ways.** -/
theorem slot_unique (h : Inv layout init m) (hv : m.valid s w = true) (hv' : m.valid s' w' = true)
    (heq : m.addrs s w = m.addrs s' w') : s = s' ∧ w = w' := by
  constructor
  · rw [← h.setOf_addrs s w hv, heq, h.setOf_addrs s' w' hv']
  · have hw := h.lookup_addrs s w hv
    rw [heq, h.lookup_addrs s' w' hv', Option.some_inj] at hw
    exact hw.symm

theorem lookup_inRam (h : Inv layout init m) (ha : layout.InRam a) (ha' : 32 ∣ a) :
    m.lookup (layout.key a) = some w ↔ m.valid (setOf a) w = true ∧ m.addrs (setOf a) w = a := by
  constructor
  · intro hl
    obtain ⟨s, hv, hk⟩ := h.found _ _ hl
    have haddr : m.addrs s w = a := key_injective (h.inRam s w hv) ha (h.aligned s w hv) ha' hk
    have hset := h.setOf_addrs s w hv
    rw [haddr] at hset
    subst hset
    exact ⟨hv, haddr⟩
  · rintro ⟨hv, haddr⟩
    rw [← haddr]
    exact h.lookup_addrs _ _ hv

theorem lookup_fakeVMem (h : Inv layout init m) (ha : InFakeVMem a) :
    m.lookup (layout.key (lineAddr a)) = none := by
  rw [Option.eq_none_iff_forall_ne_some]
  intro w hl
  obtain ⟨s, hv, hk⟩ := h.found _ _ hl
  have hne := key_inRam (h.inRam s w hv)
  rw [hk] at hne
  exact hne (key_fakeVMem ha)

theorem not_held (h : Inv layout init m) (ha : m.lookup (layout.key a) = none)
    (hv : m.valid s w = true) : m.addrs s w ≠ a := by
  intro heq
  rw [← heq, h.lookup_addrs s w hv] at ha
  simp at ha

theorem unsaved_of_not_held (h : Inv layout init m) (ha : ∀ s w, m.valid s w = true →
    m.addrs s w ≠ lineAddr a) : m.unsaved a = [] := by
  by_contra hne
  obtain ⟨s, w, hmod, haddr⟩ := h.unsaved a hne
  exact ha s w (h.modified_valid s w hmod) haddr

/-- A way that is not modified has nothing that is only in the cache. -/
theorem unsaved_of_clean (h : Inv layout init m) (hv : m.valid s w = true)
    (hmod : m.modified s w = false) (ha : lineAddr a = m.addrs s w) : m.unsaved a = [] := by
  by_contra hne
  obtain ⟨s', w', hmod', haddr⟩ := h.unsaved a hne
  have heq := h.slot_unique (h.modified_valid s' w' hmod') hv (haddr.trans ha)
  rw [heq.1, heq.2, hmod] at hmod'
  simp at hmod'

theorem newest_of_unsaved (h : Inv layout init m) (ha : m.unsaved a = []) :
    m.newest init a = m.memory a := by
  rw [h.memory, State.newest, State.kept, ha, List.nil_append]

/-- What a read should return, in terms of the memory as it is. -/
theorem newest_eq (h : Inv layout init m) : m.newest init a = (m.kept a).headD (m.memory a) := by
  cases hu : m.unsaved a with
  | nil =>
    rw [h.newest_of_unsaved hu, State.kept, hu, List.nil_append, h.memory]
    cases m.saved a <;> rfl
  | cons x xs => simp [State.newest, State.kept, hu]

end Inv

/-! ## What the parts of an operation do to the writes that are kept -/

namespace State

variable (m : State) (addr s w : ℕ) (line : ℕ → Byte)

theorem kept_reset : m.reset.kept = m.kept := rfl

theorem memory_reset : m.reset.memory = m.memory := rfl

@[simp] theorem kept_copyToEmu : (m.copyToEmu layout addr line).kept = m.kept := by
  funext a
  simp only [kept, copyToEmu]
  split_ifs
  · by_cases ha : lineAddr a = addr <;> simp [ha]
  · rfl

theorem kept_discard (a : ℕ) :
    (m.discard addr).kept a = if lineAddr a = addr then m.saved a else m.kept a := by
  simp only [kept, discard]
  split_ifs <;> rfl

theorem kept_writeSlot (bytes : List Byte) (a : ℕ) :
    (m.writeSlot s w addr bytes).kept a =
      if addr ≤ a ∧ a < addr + bytes.length then bytes.getD (a - addr) 0 :: m.kept a
      else m.kept a := by
  simp only [kept, writeSlot]
  split_ifs <;> rfl

end State

/-! ## The invariant and the parts of an operation -/

namespace Inv

variable {init : ℕ → Byte} {m : State} {s w : ℕ}

theorem updatePlru (h : Inv layout init m) (hw : w < 8) : Inv layout init (m.updatePlru s w) where
  set_lt := h.set_lt
  way_lt := h.way_lt
  inRam := h.inRam
  aligned := h.aligned
  setOf_addrs := h.setOf_addrs
  lookup_addrs := h.lookup_addrs
  found := h.found
  modified_valid := h.modified_valid
  memory := h.memory
  data := h.data
  unsaved := h.unsaved
  recent s' w' hr := by
    by_cases hs : s' = s
    · simp only [State.updatePlru, hs, Function.update_self, Option.some_inj] at hr ⊢
      rw [← hr]
      exact wayFromPlru_nextPlru _ hw
    · simp only [State.updatePlru, Function.update_of_ne hs] at hr ⊢
      exact h.recent s' w' hr

theorem copyToEmu (h : Inv layout init m) (hv : m.valid s w = true) :
    Inv layout init (m.copyToEmu layout (m.addrs s w) (m.data s w)) := by
  have hkept : (m.copyToEmu layout (m.addrs s w) (m.data s w)).kept = m.kept := m.kept_copyToEmu _ _
  have hmem := h.memory
  have hdata := h.data s w hv
  have huns := h.unsaved
  simp only [State.copyToEmu, mapped_of_inRam (h.inRam s w hv), if_true] at hkept ⊢
  exact {
    set_lt := h.set_lt
    way_lt := h.way_lt
    inRam := h.inRam
    aligned := h.aligned
    setOf_addrs := h.setOf_addrs
    lookup_addrs := h.lookup_addrs
    found := h.found
    modified_valid := h.modified_valid
    recent := h.recent
    memory := fun a => by
      by_cases ha : lineAddr a = m.addrs s w
      · simp only [ha, if_true]
        exact hdata a ha
      · simpa [ha] using hmem a
    data := fun s' w' hv' a ha => by
      simp only [State.newest, hkept]
      exact h.data s' w' hv' a ha
    unsaved := fun a ha => by
      by_cases ha' : lineAddr a = m.addrs s w
      · simp [ha'] at ha
      · simp only [ha', if_false] at ha
        exact huns a ha }

/-- A way is no longer valid, and the writes that were only in it are lost. -/
theorem dropWay (h : Inv layout init m) (hv : m.valid s w = true) :
    Inv layout init ((m.dropWay layout s w).discard (m.addrs s w)) := by
  have hvalid : ∀ s' w', ((m.dropWay layout s w).discard (m.addrs s w)).valid s' w' = true →
      ¬(s' = s ∧ w' = w) ∧ m.valid s' w' = true := by
    intro s' w' hv'
    simp only [State.discard, State.dropWay, setAt] at hv'
    split_ifs at hv' with hslot
    exact ⟨hslot, hv'⟩
  have haddr : ∀ s' w', ¬(s' = s ∧ w' = w) → m.valid s' w' = true → m.addrs s' w' ≠ m.addrs s w :=
    fun s' w' hne hv' heq => hne (h.slot_unique hv' hv heq)
  exact {
    set_lt := fun s' w' hv' => h.set_lt s' w' (hvalid s' w' hv').2
    way_lt := fun s' w' hv' => h.way_lt s' w' (hvalid s' w' hv').2
    inRam := fun s' w' hv' => h.inRam s' w' (hvalid s' w' hv').2
    aligned := fun s' w' hv' => h.aligned s' w' (hvalid s' w' hv').2
    setOf_addrs := fun s' w' hv' => h.setOf_addrs s' w' (hvalid s' w' hv').2
    recent := h.recent
    memory := h.memory
    lookup_addrs := fun s' w' hv' => by
      have hv'' := hvalid s' w' hv'
      have hkey : layout.key (m.addrs s' w') ≠ layout.key (m.addrs s w) := fun heq =>
        haddr s' w' hv''.1 hv''.2
          (key_injective (h.inRam _ _ hv''.2) (h.inRam _ _ hv) (h.aligned _ _ hv''.2)
            (h.aligned _ _ hv) heq)
      simp only [State.discard, State.dropWay, State.clearLookup, Function.update_of_ne hkey]
      exact h.lookup_addrs s' w' hv''.2
    found := fun k w' hl => by
      by_cases hk : k = layout.key (m.addrs s w)
      · simp [State.discard, State.dropWay, State.clearLookup, hk] at hl
      · simp only [State.discard, State.dropWay, State.clearLookup, Function.update_of_ne hk] at hl
        obtain ⟨s', hv', hk'⟩ := h.found k w' hl
        refine ⟨s', ?_, hk'⟩
        have hne : ¬(s' = s ∧ w' = w) := by
          rintro ⟨rfl, rfl⟩
          exact hk hk'.symm
        simp [State.discard, State.dropWay, setAt, hne, hv']
    modified_valid := fun s' w' hm => by
      simp only [State.discard, State.dropWay, State.clearLookup, setAt] at hm ⊢
      by_cases hslot : s' = s ∧ w' = w
      · simp [hslot] at hm
      · simp only [hslot, if_false] at hm ⊢
        exact h.modified_valid s' w' hm
    data := fun s' w' hv' a ha => by
      have hv'' := hvalid s' w' hv'
      have hline : lineAddr a ≠ m.addrs s w := by
        rw [ha]
        exact haddr s' w' hv''.1 hv''.2
      rw [State.newest, State.kept_discard, if_neg hline]
      exact h.data s' w' hv''.2 a ha
    unsaved := fun a ha => by
      by_cases hline : lineAddr a = m.addrs s w
      · simp [State.discard, hline] at ha
      · simp only [State.discard, hline, if_false] at ha
        obtain ⟨s', w', hmod, ha'⟩ := h.unsaved a ha
        refine ⟨s', w', ?_, ha'⟩
        have hne : ¬(s' = s ∧ w' = w) := by
          rintro ⟨rfl, rfl⟩
          exact hline ha'.symm
        simp [State.discard, State.dropWay, setAt, hne, hmod] }

theorem load (h : Inv layout init m) {a : ℕ} (hw : w < 8) (ha : layout.InRam a) (ha' : 32 ∣ a)
    (hfree : m.valid (setOf a) w = false) (hl : m.lookup (layout.key a) = none) :
    Inv layout init (m.load layout a (setOf a) w) := by
  have hother : ∀ s' w', ¬(s' = setOf a ∧ w' = w) →
      (m.load layout a (setOf a) w).valid s' w' = true → m.valid s' w' = true := by
    intro s' w' hne hv
    simpa [State.load, setAt, hne] using hv
  have haddr : ∀ s' w', ¬(s' = setOf a ∧ w' = w) →
      (m.load layout a (setOf a) w).addrs s' w' = m.addrs s' w' := by
    intro s' w' hne
    simp [State.load, setAt, hne]
  have hself : (m.load layout a (setOf a) w).addrs (setOf a) w = a := by simp [State.load, setAt]
  exact {
    set_lt := fun s' w' hv => by
      by_cases hslot : s' = setOf a ∧ w' = w
      · rw [hslot.1]
        exact setOf_lt a
      · exact h.set_lt s' w' (hother s' w' hslot hv)
    way_lt := fun s' w' hv => by
      by_cases hslot : s' = setOf a ∧ w' = w
      · rw [hslot.2]
        exact hw
      · exact h.way_lt s' w' (hother s' w' hslot hv)
    inRam := fun s' w' hv => by
      by_cases hslot : s' = setOf a ∧ w' = w
      · rw [hslot.1, hslot.2, hself]
        exact ha
      · rw [haddr s' w' hslot]
        exact h.inRam s' w' (hother s' w' hslot hv)
    aligned := fun s' w' hv => by
      by_cases hslot : s' = setOf a ∧ w' = w
      · rw [hslot.1, hslot.2, hself]
        exact ha'
      · rw [haddr s' w' hslot]
        exact h.aligned s' w' (hother s' w' hslot hv)
    setOf_addrs := fun s' w' hv => by
      by_cases hslot : s' = setOf a ∧ w' = w
      · rw [hslot.1, hslot.2, hself]
      · rw [haddr s' w' hslot]
        exact h.setOf_addrs s' w' (hother s' w' hslot hv)
    lookup_addrs := fun s' w' hv => by
      by_cases hslot : s' = setOf a ∧ w' = w
      · rw [hslot.1, hslot.2, hself]
        simp [State.load]
      · have hv' := hother s' w' hslot hv
        have hkey : layout.key (m.addrs s' w') ≠ layout.key a := by
          intro heq
          have hl' := h.lookup_addrs s' w' hv'
          rw [heq, hl] at hl'
          simp at hl'
        rw [haddr s' w' hslot]
        simp only [State.load, Function.update_of_ne hkey]
        exact h.lookup_addrs s' w' hv'
    found := fun k w' hk => by
      by_cases hkey : k = layout.key a
      · simp only [State.load, hkey, Function.update_self, Option.some_inj] at hk
        refine ⟨setOf a, ?_, ?_⟩
        · simp [State.load, setAt, hk]
        · rw [← hk, hself, hkey]
      · simp only [State.load, Function.update_of_ne hkey] at hk
        obtain ⟨s', hv, hk'⟩ := h.found k w' hk
        have hslot : ¬(s' = setOf a ∧ w' = w) := by
          rintro ⟨rfl, rfl⟩
          simp [hfree] at hv
        refine ⟨s', ?_, ?_⟩
        · simp [State.load, setAt, hslot, hv]
        · rw [haddr s' w' hslot, hk']
    modified_valid := fun s' w' hm => by
      simp only [State.load, setAt] at hm ⊢
      by_cases hslot : s' = setOf a ∧ w' = w
      · simp [hslot]
      · simp only [hslot, if_false] at hm ⊢
        exact h.modified_valid s' w' hm
    memory := h.memory
    data := fun s' w' hv b hb => by
      by_cases hslot : s' = setOf a ∧ w' = w
      · rw [hslot.1, hslot.2, hself] at hb
        have hunsaved : m.unsaved b = [] := h.unsaved_of_not_held fun s'' w'' hv'' => by
          rw [hb]
          exact h.not_held hl hv''
        have hbyte : a + b % 32 = b := by
          rw [← hb]
          exact lineAddr_add_mod b
        have hdata : (m.load layout a (setOf a) w).data s' w' (b % 32) = m.memory b := by
          simp [State.load, setAt, hslot, mapped_of_inRam ha, hbyte]
        rw [hdata]
        exact (h.newest_of_unsaved hunsaved).symm
      · have hdata : (m.load layout a (setOf a) w).data s' w' = m.data s' w' := by
          simp [State.load, mapped_of_inRam ha, setAt, hslot]
        rw [haddr s' w' hslot] at hb
        rw [hdata]
        exact h.data s' w' (hother s' w' hslot hv) b hb
    unsaved := fun b hb => by
      obtain ⟨s', w', hm, hb'⟩ := h.unsaved b hb
      have hslot : ¬(s' = setOf a ∧ w' = w) := by
        rintro ⟨rfl, rfl⟩
        have hv := h.modified_valid _ _ hm
        simp [hfree] at hv
      refine ⟨s', w', ?_, ?_⟩
      · simp [State.load, setAt, hslot, hm]
      · rw [haddr s' w' hslot, hb']
    recent := h.recent }

theorem writeSlot (h : Inv layout init m) (hv : m.valid s w = true) {addr : ℕ} {bytes : List Byte}
    (haddr : m.addrs s w = lineAddr addr) (hlen : addr % 32 + bytes.length ≤ 32) :
    Inv layout init (m.writeSlot s w addr bytes) := by
  have hline : ∀ a, addr ≤ a ∧ a < addr + bytes.length → lineAddr a = m.addrs s w := by
    intro a ha
    rw [haddr]
    simp only [lineAddr, lineSize]
    omega
  exact {
    set_lt := h.set_lt
    way_lt := h.way_lt
    inRam := h.inRam
    aligned := h.aligned
    setOf_addrs := h.setOf_addrs
    lookup_addrs := h.lookup_addrs
    found := h.found
    memory := h.memory
    recent := h.recent
    modified_valid := fun s' w' hm => by
      by_cases hslot : s' = s ∧ w' = w
      · rw [hslot.1, hslot.2]
        exact hv
      · simp only [State.writeSlot, setAt, hslot, if_false] at hm
        exact h.modified_valid s' w' hm
    data := fun s' w' hv' a ha => by
      have hold := h.data s' w' hv' a ha
      rw [State.newest, State.kept_writeSlot]
      by_cases hslot : s' = s ∧ w' = w
      · rw [hslot.1, hslot.2] at ha hold
        have hoffset : addr % 32 ≤ a % 32 ∧ a % 32 < addr % 32 + bytes.length ↔
            addr ≤ a ∧ a < addr + bytes.length := by
          have ha' := ha.trans haddr
          simp only [lineAddr, lineSize] at ha'
          omega
        simp only [State.writeSlot, setAt, hslot, lineSize, and_self, if_true, hoffset]
        split_ifs with hin
        · have hsub : a % 32 - addr % 32 = a - addr := by
            have ha' := ha.trans haddr
            simp only [lineAddr, lineSize] at ha'
            omega
          rw [hsub]
          rfl
        · exact hold
      · have hout : ¬(addr ≤ a ∧ a < addr + bytes.length) := fun hin =>
          hslot (h.slot_unique hv' hv (ha.symm.trans (hline a hin)))
        simp only [State.writeSlot, setAt, hslot, if_false, hout]
        exact hold
    unsaved := fun a ha => by
      by_cases hin : addr ≤ a ∧ a < addr + bytes.length
      · exact ⟨s, w, by simp [State.writeSlot, setAt], (hline a hin).symm⟩
      · simp only [State.writeSlot, hin, if_false] at ha
        obtain ⟨s', w', hm, ha'⟩ := h.unsaved a ha
        refine ⟨s', w', ?_, ha'⟩
        simp [State.writeSlot, setAt, hm] }

theorem kept_writeMemory {addr : ℕ} {bytes : List Byte} (h : Inv layout init m)
    (hl : m.lookup (layout.key (lineAddr addr)) = none) (haddr : layout.InRam addr)
    (hlen : addr % 32 + bytes.length ≤ 32) (a : ℕ) :
    (m.writeMemory layout addr bytes).kept a =
      if addr ≤ a ∧ a < addr + bytes.length then bytes.getD (a - addr) 0 :: m.kept a
      else m.kept a := by
  simp only [State.kept, State.writeMemory, mapped_of_inRam haddr, if_true]
  split_ifs with hin
  · have hline : lineAddr a = lineAddr addr := by
      simp only [lineAddr, lineSize]
      omega
    have hunsaved : m.unsaved a = [] := h.unsaved_of_not_held fun s w hv => by
      rw [hline]
      exact h.not_held hl hv
    rw [hunsaved, List.nil_append, List.nil_append]
  · rfl

theorem writeMemory {addr : ℕ} {bytes : List Byte} (h : Inv layout init m)
    (hl : m.lookup (layout.key (lineAddr addr)) = none) (haddr : layout.InRam addr)
    (hlen : addr % 32 + bytes.length ≤ 32) : Inv layout init (m.writeMemory layout addr bytes) := by
  have hkept := h.kept_writeMemory hl haddr hlen
  simp only [State.writeMemory, mapped_of_inRam haddr, if_true] at hkept ⊢
  exact {
    set_lt := h.set_lt
    way_lt := h.way_lt
    inRam := h.inRam
    aligned := h.aligned
    setOf_addrs := h.setOf_addrs
    lookup_addrs := h.lookup_addrs
    found := h.found
    recent := h.recent
    modified_valid := h.modified_valid
    unsaved := h.unsaved
    memory := fun a => by
      by_cases hin : addr ≤ a ∧ a < addr + bytes.length
      · simp [hin]
      · simp only [hin, if_false]
        exact h.memory a
    data := fun s' w' hv a ha => by
      have hout : ¬(addr ≤ a ∧ a < addr + bytes.length) := by
        intro hin
        refine h.not_held hl hv (ha.symm.trans ?_)
        simp only [lineAddr, lineSize]
        omega
      rw [State.newest, hkept, if_neg hout]
      exact h.data s' w' hv a ha }

/-- A way whose line is in the memory is no longer modified. -/
theorem clean (h : Inv layout init m) (hv : m.valid s w = true)
    (hclean : ∀ a, lineAddr a = m.addrs s w → m.unsaved a = []) :
    Inv layout init { m with modified := setAt m.modified s w false } where
  set_lt := h.set_lt
  way_lt := h.way_lt
  inRam := h.inRam
  aligned := h.aligned
  setOf_addrs := h.setOf_addrs
  lookup_addrs := h.lookup_addrs
  found := h.found
  memory := h.memory
  recent := h.recent
  data := h.data
  modified_valid s' w' hm := by
    by_cases hslot : s' = s ∧ w' = w
    · rw [hslot.1, hslot.2]
      exact hv
    · simp only [setAt, hslot, if_false] at hm
      exact h.modified_valid s' w' hm
  unsaved a ha := by
    obtain ⟨s', w', hm, ha'⟩ := h.unsaved a ha
    refine ⟨s', w', ?_, ha'⟩
    have hslot : ¬(s' = s ∧ w' = w) := by
      rintro ⟨rfl, rfl⟩
      exact ha (hclean a ha'.symm)
    simp [setAt, hslot, hm]

/-- `Reset`, when nothing is only in the cache. -/
theorem reset (h : Inv layout init m) (hclean : ∀ a, m.unsaved a = []) :
    Inv layout init m.reset where
  set_lt := by simp [State.reset]
  way_lt := by simp [State.reset]
  inRam := by simp [State.reset]
  aligned := by simp [State.reset]
  setOf_addrs := by simp [State.reset]
  lookup_addrs := by simp [State.reset]
  found := by simp [State.reset]
  memory := h.memory
  recent := by simp [State.reset]
  data := by simp [State.reset]
  modified_valid := by simp [State.reset]
  unsaved a ha := absurd (hclean a) ha

end Inv

end PowerPC.Cache
