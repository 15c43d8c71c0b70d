import PrimedSteam.JitCache.Links
import PrimedSteam.JitCache.Ranges

/-!
# Which blocks `ErasePhysicalRange` destroys

* `ErasedExactly`: the blocks with an instruction in the range are gone, and the others are not.
* `eraseMacroBlocks_past`: a loop that starts after its end runs past the end of the map.
* **`erasePhysicalRange_exact_iff`**: a range that ends at the top of the address space has its end
  wrapped to 0, so nothing is erased, or the loop does not stop.
-/

set_option autoImplicit false

namespace JitCache

open Transition

/-- The block has a physical instruction address in the range. -/
def JitBlock.InRange (b : JitBlock) (address length : ℕ) : Prop :=
  ∃ a ∈ b.physicalAddresses, address ≤ a ∧ a < address + length

namespace Cache

variable {s s' : Cache} {entryPoints : Bool} {H : HashOrder} {address length : ℕ}

/-- `s'` is `s` without the blocks in the range. The blocks that are left may have been unlinked. -/
structure ErasedExactly (address length : ℕ) (s s' : Cache) : Prop where
  destroyed : ∀ b ∈ s.blockMap, b.InRange address length → ∀ b' ∈ s'.blockMap, b'.ptr ≠ b.ptr
  kept : ∀ b ∈ s.blockMap, ¬ b.InRange address length → ∃ b' ∈ s'.blockMap, Relinked b b'
  fewer : FewerBlocks s s'

theorem erasedExactly_self_iff :
    ErasedExactly address length s s ↔ ∀ b ∈ s.blockMap, ¬ b.InRange address length := by
  constructor
  · exact fun h b hb hin => h.destroyed b hb hin b hb rfl
  · intro hout
    exact ⟨fun b hb hin => absurd hin (hout b hb), fun b hb _ => ⟨b, hb, .refl b⟩, .refl s⟩

theorem IndexInv.erasedExactly (h : s.IndexInv entryPoints) (hfit : address + length < 2 ^ 32) :
    ∃ s', s.erasePhysicalRange entryPoints H address length = some s' ∧
      ErasedExactly address length s s' := by
  obtain ⟨s', hs', herased, hunmapped⟩ := h.erasePhysicalRange (H := H) (Or.inl hfit)
  refine ⟨s', hs', ⟨fun b hb hin b' hb' hptr => ?_, fun b hb hout => ?_, herased.fewer⟩⟩
  · obtain ⟨b₀, hb₀, hrel⟩ := herased.fewer b' hb'
    have heq : b₀ = b := h.links.distinctPtrs.eq hb₀ hb (hrel.ptr.symm.trans hptr)
    obtain ⟨a, ha, hbounds⟩ := hin
    rw [← heq, ← hrel.physicalAddresses] at ha
    exact hunmapped b' hb' a ha hbounds
  · refine herased.kept b hb ?_
    rw [← Bool.not_eq_true, JitBlock.overlapsPhysicalRange_iff (h.sorted b hb) hfit]
    exact hout

/-! ## The top of the address space -/

theorem eraseMacroBlocks_past {last : ℕ} : ∀ (fuel : ℕ) {s : Cache} {start : Option ℕ},
    (∀ key, start = some key → last < key) →
    eraseMacroBlocks entryPoints H address length (some last) fuel s start = none
  | 0, _, _, _ => rfl
  | fuel + 1, s, start, hpast => by
    have hne : start ≠ some last := fun heq => (hpast last heq).false
    rw [eraseMacroBlocks_succ, if_neg hne]
    cases hstart : start with
    | none => rfl
    | some key =>
      rw [Option.bind_some, Option.bind_eq_none_iff]
      intro s₁ _
      refine eraseMacroBlocks_past fuel fun key' hkey' => ?_
      have hnext := (OrderedMap.next_eq_some_iff _).mp hkey'
      exact (hpast key hstart).trans hnext.2.1

theorem lowerBound_zero_eq_iff :
    s.blockRangeMap.lowerBound (macroBlock address) = s.blockRangeMap.lowerBound 0 ↔
      ∀ k ∈ s.blockRangeMap.keys, macroBlock address ≤ k := by
  constructor
  · intro heq k hk
    cases hfirst : s.blockRangeMap.lowerBound 0 with
    | none => exact absurd (s.blockRangeMap.lowerBound_eq_none_iff.mp hfirst k hk) (Nat.not_lt_zero k)
    | some first =>
      have hleast := (s.blockRangeMap.lowerBound_eq_some_iff.mp hfirst).2.2 k hk (Nat.zero_le k)
      rw [hfirst] at heq
      exact (s.blockRangeMap.lowerBound_eq_some_iff.mp heq).2.1.trans hleast
  · intro hall
    exact List.find?_congr fun k hk => by simp [hall k hk]

theorem erasePhysicalRange_top (htop : address + length = 2 ^ 32) :
    s.erasePhysicalRange entryPoints H address length =
      if s.blockRangeMap.lowerBound (macroBlock address) = s.blockRangeMap.lowerBound 0 then some s
      else none := by
  have hwrap : wrap (address + length) = 0 := by
    rw [htop]
    rfl
  unfold erasePhysicalRange
  rw [hwrap]
  split
  · next heq => rw [eraseMacroBlocks_succ, if_pos heq]
  · next hne =>
    cases hfirst : s.blockRangeMap.lowerBound 0 with
    | none =>
      have hkeys := s.blockRangeMap.lowerBound_eq_none_iff.mp hfirst
      refine absurd (lowerBound_zero_eq_iff.mpr fun k hk => ?_) hne
      exact absurd (hkeys k hk) (Nat.not_lt_zero k)
    | some first =>
      refine eraseMacroBlocks_past _ fun key hkey => ?_
      obtain ⟨hmem, -, -⟩ := s.blockRangeMap.lowerBound_eq_some_iff.mp hkey
      have hle := (s.blockRangeMap.lowerBound_eq_some_iff.mp hfirst).2.2 key hmem (Nat.zero_le key)
      refine lt_of_le_of_ne hle fun heq => hne ?_
      rw [hkey, hfirst, heq]

/-- **Exactly the blocks in the range are destroyed** iff the range ends below the top of the address
space, or there is nothing to erase: no block is in the range, and no macro block is before it. -/
theorem erasePhysicalRange_exact_iff (h : s.IndexInv entryPoints)
    (hfit : address + length ≤ 2 ^ 32) :
    (∃ s', s.erasePhysicalRange entryPoints H address length = some s' ∧
      ErasedExactly address length s s') ↔
    address + length < 2 ^ 32 ∨
      (∀ k ∈ s.blockRangeMap.keys, macroBlock address ≤ k) ∧
        ∀ b ∈ s.blockMap, ¬ b.InRange address length := by
  rcases hfit.lt_or_eq with hlt | htop
  · exact iff_of_true (h.erasedExactly hlt) (Or.inl hlt)
  · rw [erasePhysicalRange_top htop, or_iff_right htop.not_lt, ← lowerBound_zero_eq_iff,
      ← erasedExactly_self_iff]
    constructor
    · rintro ⟨s', hs', hexact⟩
      obtain ⟨heq, ⟨⟩⟩ := Option.ite_none_right_eq_some.mp hs'
      exact ⟨heq, hexact⟩
    · rintro ⟨heq, hexact⟩
      exact ⟨s, if_pos heq, hexact⟩

/-- A block at the last line of the address space. -/
def lastLine : Action := .compile identity 0xFFFFFFE0 0 1 true ⟨0x90, [], [0xFFFFFFE0]⟩

theorem erasePhysicalRange_exact_iff_lastLine :
    ∃ s, step false ⟨id, fun _ => .refl _⟩ .init lastLine = some s ∧
      ((∃ s', s.erasePhysicalRange false ⟨id, fun _ => .refl _⟩ 0xFFFFFF00 0xF0 = some s' ∧
        ErasedExactly 0xFFFFFF00 0xF0 s s') ↔
      0xFFFFFF00 + 0xF0 < 2 ^ 32 ∨
        (∀ k ∈ s.blockRangeMap.keys, macroBlock 0xFFFFFF00 ≤ k) ∧
          ∀ b ∈ s.blockMap, ¬ b.InRange 0xFFFFFF00 0xF0) := by
  obtain ⟨s, hs, hinv, -⟩ : ∃ s, step false ⟨id, fun _ => .refl _⟩ .init lastLine = some s ∧
      s.IndexInv false ∧ s.ValidInv :=
    step_indexInv indexInv_init (fun _ hb => absurd hb List.not_mem_nil) (by decide) trivial
  exact ⟨s, hs, erasePhysicalRange_exact_iff hinv (by decide)⟩

/-- The last line is not erased, and a range that ends there makes the loop run past the end of the map
when all macro blocks are before it. -/
theorem top_range_not_erased :
    (∃ s s', step false ⟨id, fun _ => .refl _⟩ .init lastLine = some s ∧
      s.erasePhysicalRange false ⟨id, fun _ => .refl _⟩ 0xFFFFFFE0 0x20 = some s' ∧
      ∃ b ∈ s'.blockMap, b.InRange 0xFFFFFFE0 0x20) ∧
    ∃ s, step false ⟨id, fun _ => .refl _⟩ .init
        (.compile identity 0x1000 0 1 true ⟨0x90, [], [0x1000]⟩) = some s ∧
      s.erasePhysicalRange false ⟨id, fun _ => .refl _⟩ 0xFFFFFFE0 0x20 = none := by
  constructor
  · obtain ⟨s, hs, heq⟩ := Option.map_eq_some_iff.mp
      (show (step false ⟨id, fun _ => .refl _⟩ .init lastLine).map
          (fun s => ((s.erasePhysicalRange false ⟨id, fun _ => .refl _⟩ 0xFFFFFFE0 0x20).map
            fun s' => s'.blockMap.map JitBlock.physicalAddresses)) =
        some (some [[0xFFFFFFE0]]) by decide +kernel)
    obtain ⟨s', hs', hblocks⟩ := Option.map_eq_some_iff.mp heq
    obtain ⟨b, hb, haddrs⟩ := List.mem_map.mp
      (show [0xFFFFFFE0] ∈ s'.blockMap.map JitBlock.physicalAddresses by rw [hblocks]; decide)
    refine ⟨s, s', hs, hs', b, hb, 0xFFFFFFE0, ?_, by decide, by decide⟩
    rw [haddrs]
    exact List.mem_cons_self
  · obtain ⟨s, hs, heq⟩ := Option.map_eq_some_iff.mp
      (show (step false ⟨id, fun _ => .refl _⟩ .init
          (.compile identity 0x1000 0 1 true ⟨0x90, [], [0x1000]⟩)).map
          (fun s => (s.erasePhysicalRange false ⟨id, fun _ => .refl _⟩ 0xFFFFFFE0 0x20).isNone) =
        some true by decide +kernel)
    exact ⟨s, hs, Option.isNone_iff_eq_none.mp heq⟩

end Cache

end JitCache
