import PrimedSteam.JitCache.Index
import Mathlib.Data.Finset.Card
import Mathlib.Data.List.Find

/-!
# Erasing physical ranges

* `overlapsPhysicalRange_iff`: the two lower bounds differ when the block has an address in the range.
* `Erased`: what a part of `ErasePhysicalRange` does; `IndexInv.erasePhysicalRange` for the whole.
* `RangesFit`: the condition on a step under which no sum of an address and a length wraps.
* **`indexes_live`**: in a run of such steps the indexes hold live blocks only, an invalidated line
  has no live block left, and nothing is undefined.
-/

set_option autoImplicit false

namespace JitCache

open Transition

/-! ## Overlap -/

theorem JitBlock.overlapsPhysicalRange_iff {b : JitBlock} {address length : ℕ}
    (hsorted : b.physicalAddresses.Pairwise (· < ·)) (hfit : address + length < 2 ^ 32) :
    b.overlapsPhysicalRange address length = true ↔
      ∃ a ∈ b.physicalAddresses, address ≤ a ∧ a < address + length := by
  have hwrap : wrap (address + length) = address + length := Nat.mod_eq_of_lt hfit
  rw [overlapsPhysicalRange, hwrap, bne_iff_ne]
  constructor
  · intro hne
    by_contra hnone
    refine hne ?_
    have hsame : ∀ a ∈ b.physicalAddresses,
        decide (address ≤ a) = decide (address + length ≤ a) := by
      intro a ha
      have hout : ¬ (address ≤ a ∧ a < address + length) := fun h => hnone ⟨a, ha, h⟩
      exact decide_eq_decide.mpr (by omega)
    exact List.find?_congr hsame
  · rintro ⟨a, ha, hle, hlt⟩ heq
    cases hfind : b.lowerBound address with
    | none =>
      have hnone := List.find?_eq_none.mp hfind a ha
      exact hnone (decide_eq_true hle)
    | some x =>
      have hx := ((OrderedMap.find?_eq_some_iff hsorted).mp hfind).2.2 a ha hle
      rw [hfind] at heq
      have hx' := ((OrderedMap.find?_eq_some_iff hsorted).mp heq.symm).2.1
      omega

namespace Cache

variable {s s' : Cache} {b block : JitBlock} {p : BlockPtr} {entryPoints : Bool} {H : HashOrder}
  {address length key : ℕ}

theorem overlapsPhysicalRange_relinked (h : Relinked b block) :
    block.overlapsPhysicalRange address length = b.overlapsPhysicalRange address length := by
  obtain ⟨l, rfl, -⟩ := h
  rfl

/-! ## One macro block -/

/-- `s'` is `s` after some blocks that overlap the range have been erased. -/
structure Erased (entryPoints : Bool) (address length : ℕ) (s s' : Cache) : Prop where
  inv : s'.IndexInv entryPoints
  fewer : FewerBlocks s s'
  kept : ∀ b ∈ s.blockMap, b.overlapsPhysicalRange address length = false →
    ∃ b' ∈ s'.blockMap, Relinked b b'
  validBlock : s'.validBlock = s.validBlock
  keys : ∀ k ∈ s'.blockRangeMap.keys, k ∈ s.blockRangeMap.keys

theorem Erased.refl (h : s.IndexInv entryPoints) : Erased entryPoints address length s s where
  inv := h
  fewer := .refl s
  kept := fun b hb _ => ⟨b, hb, Relinked.refl b⟩
  validBlock := rfl
  keys := fun _ hk => hk

theorem Erased.trans {s₁ : Cache} (h : Erased entryPoints address length s s₁)
    (h' : Erased entryPoints address length s₁ s') : Erased entryPoints address length s s' where
  inv := h'.inv
  fewer := h.fewer.trans h'.fewer
  kept := by
    intro b hb hover
    obtain ⟨b₁, hb₁, hrel⟩ := h.kept b hb hover
    rw [← overlapsPhysicalRange_relinked hrel] at hover
    obtain ⟨b', hb', hrel'⟩ := h'.kept b₁ hb₁ hover
    exact ⟨b', hb', hrel.trans hrel'⟩
  validBlock := h'.validBlock.trans h.validBlock
  keys := fun k hk => h.keys k (h'.keys k hk)

/-- **One block of a macro block** is erased from everywhere, or left alone. -/
theorem IndexInv.eraseOverlapping (h : s.IndexInv entryPoints) (address length : ℕ)
    (hp : p ∈ s.blockRangeMap.get key) :
    ∃ s', eraseOverlapping entryPoints address length key s p = some s' ∧
      Erased entryPoints address length s s' ∧
      (∀ q ≠ p, q ∈ s.blockRangeMap.get key → q ∈ s'.blockRangeMap.get key) ∧
      (∀ k, k ∈ s'.blockRangeMap.keys ↔ k ∈ s.blockRangeMap.keys) ∧
      ∀ b ∈ s'.blockMap, b.ptr = p → b.overlapsPhysicalRange address length = false := by
  obtain ⟨block, hblock, rfl, hkey⟩ := h.range_live key p hp
  have hfind : s.block? block.ptr = some block := h.links.distinctPtrs.block? hblock
  cases hover : block.overlapsPhysicalRange address length with
  | false =>
    have heq : Cache.eraseOverlapping entryPoints address length key s block.ptr = some s := by
      rw [Cache.eraseOverlapping, hfind, Option.bind_eq_bind, Option.bind_some, hover]
      rfl
    refine ⟨s, heq, .refl h, fun q _ hq => hq, fun k => Iff.rfl, fun b hb hptr => ?_⟩
    rw [h.links.distinctPtrs.eq hb hblock hptr]
    exact hover
  | true =>
    set addrs := block.physicalAddresses.filter fun addr => macroBlock addr ≠ key with haddrs
    set s₀ := s.removeFromRangeMap block.ptr addrs with hs₀
    have hsources : ∀ p ∈ s₀.linksTo block.effectiveAddress, ∃ b ∈ s₀.blockMap, b.ptr = p :=
      h.links.sources_live block.effectiveAddress
    obtain ⟨s₁, hdestroy⟩ := Option.isSome_iff_exists.mp
      ((destroyBlock_isSome entryPoints).mpr hsources)
    have hremoved := destroyBlock_removed hdestroy
    set m := (s₁.eraseFromBlockMap block.ptr).blockRangeMap.modify key
      fun l => l.filter (· ≠ block.ptr) with hm
    have hr : Removed entryPoints s block
        { s₁.eraseFromBlockMap block.ptr with blockRangeMap := m } :=
      ⟨hremoved.1, hremoved.2, hremoved.3, hremoved.4, hremoved.5⟩
    have hrange : s₁.blockRangeMap = s₀.blockRangeMap := destroyBlock_blockRangeMap hdestroy
    have heq : Cache.eraseOverlapping entryPoints address length key s block.ptr =
        some { s₁.eraseFromBlockMap block.ptr with blockRangeMap := m } := by
      rw [Cache.eraseOverlapping, hfind, Option.bind_eq_bind, Option.bind_some, hover]
      exact Option.bind_eq_some_iff.mpr ⟨s₁, hdestroy, rfl⟩
    have hget : ∀ k q, q ∈ m.get k ↔ q ∈ s.blockRangeMap.get k ∧ q ≠ block.ptr := by
      intro k q
      have hget₀ : q ∈ s₁.blockRangeMap.get k ↔ q ∈ s.blockRangeMap.get k ∧
          ¬ (q = block.ptr ∧ ∃ a ∈ addrs, macroBlock a = k) := by
        rw [hrange]
        exact mem_get_removeFromRangeMap
      change q ∈ (s₁.blockRangeMap.modify key _).get k ↔ _
      rw [OrderedMap.get_modify]
      by_cases hk : k = key
      · subst hk
        rw [if_pos rfl, List.mem_filter, hget₀, decide_eq_true_eq]
        constructor
        · exact fun hq => ⟨hq.1.1, hq.2⟩
        · exact fun hq => ⟨⟨hq.1, fun h => hq.2 h.1⟩, hq.2⟩
      · rw [if_neg hk, hget₀]
        refine and_congr_right fun hq => ⟨?_, fun hne h => hne h.1⟩
        rintro hne rfl
        obtain ⟨b, hb, hptr, a, ha, rfl⟩ := h.range_live k _ hq
        rw [h.links.distinctPtrs.eq hb hblock hptr] at ha
        exact hne ⟨rfl, a, List.mem_filter.mpr ⟨ha, decide_eq_true hk⟩, rfl⟩
    have hkeys : ∀ k, k ∈ m.keys ↔ k ∈ s.blockRangeMap.keys := by
      intro k
      change k ∈ (s₁.blockRangeMap.modify key _).keys ↔ _
      rw [OrderedMap.mem_keys_modify, hrange, mem_keys_removeFromRangeMap]
      constructor
      · rintro (rfl | hk | ⟨a, ha, rfl⟩)
        · exact s.blockRangeMap.mem_keys_of_get (List.ne_nil_of_mem hp)
        · exact hk
        · exact h.mem_keys hblock (List.mem_filter.mp ha).1
      · exact fun hk => Or.inr (Or.inl hk)
    have hnodup : ∀ k, (m.get k).Nodup := by
      intro k
      have hnodup₁ : ∀ k, (s₁.blockRangeMap.get k).Nodup := by
        rw [hrange]
        exact fun k => nodup_get_removeFromRangeMap h.range_nodup
      change ((s₁.blockRangeMap.modify key _).get k).Nodup
      rw [OrderedMap.get_modify]
      split
      · exact (hnodup₁ key).filter _
      · exact hnodup₁ k
    refine ⟨_, heq, ⟨h.removed hblock hr hget hnodup, hr.fewerBlocks, ?_, hremoved.validBlock,
      fun k => (hkeys k).mp⟩, fun q hq hmem => (hget key q).mpr ⟨hmem, hq⟩, hkeys, ?_⟩
    · intro b hb hb_over
      have hne : b.ptr ≠ block.ptr := by
        intro hptr
        rw [h.links.distinctPtrs.eq hb hblock hptr, hover] at hb_over
        cases hb_over
      exact ⟨_, (hr.mem_blockMap _).mpr ⟨b, hb, hne, rfl⟩, relinked_unlinkSource block b⟩
    · intro b' hb' hptr
      obtain ⟨b, -, hne, rfl⟩ := (hr.mem_blockMap b').mp hb'
      rw [unlinkSource_ptr] at hptr
      exact absurd hptr hne

theorem IndexInv.eraseBlocks {l : List BlockPtr} (h : s.IndexInv entryPoints)
    (address length : ℕ)
    (hl : ∀ p ∈ l, p ∈ s.blockRangeMap.get key) (hnodup : l.Nodup) :
    ∃ s', l.foldlM (Cache.eraseOverlapping entryPoints address length key) s = some s' ∧
      Erased entryPoints address length s s' ∧
      (∀ k, k ∈ s'.blockRangeMap.keys ↔ k ∈ s.blockRangeMap.keys) ∧
      ∀ b ∈ s'.blockMap, b.ptr ∈ l → b.overlapsPhysicalRange address length = false := by
  induction l generalizing s with
  | nil => exact ⟨s, rfl, .refl h, fun _ => Iff.rfl, fun _ _ h => absurd h List.not_mem_nil⟩
  | cons p l ih =>
    obtain ⟨hp, hnodup⟩ := List.nodup_cons.mp hnodup
    obtain ⟨s₁, hs₁, herased₁, hothers, hkeys₁, hdone₁⟩ :=
      h.eraseOverlapping address length (hl p List.mem_cons_self)
    have hl₁ : ∀ q ∈ l, q ∈ s₁.blockRangeMap.get key := by
      intro q hq
      have hne : q ≠ p := fun hqp => hp (hqp ▸ hq)
      exact hothers q hne (hl q (List.mem_cons_of_mem p hq))
    obtain ⟨s', hs', herased, hkeys, hdone⟩ := ih herased₁.inv hl₁ hnodup
    refine ⟨s', Option.bind_eq_some_iff.mpr ⟨s₁, hs₁, hs'⟩, herased₁.trans herased,
      fun k => (hkeys k).trans (hkeys₁ k), fun b hb hmem => ?_⟩
    rcases List.mem_cons.mp hmem with hptr | hmem
    · obtain ⟨b₁, hb₁, hrel⟩ := herased.fewer b hb
      rw [overlapsPhysicalRange_relinked hrel]
      exact hdone₁ b₁ hb₁ (hrel.ptr ▸ hptr)
    · exact hdone b hb hmem

/-- **One macro block**: afterwards none of its blocks overlaps the range. -/
theorem IndexInv.eraseMacroBlock (h : s.IndexInv entryPoints) (address length key : ℕ) :
    ∃ s', s.eraseMacroBlock entryPoints H address length key = some s' ∧
      Erased entryPoints address length s s' ∧
      (∀ k ≠ key, k ∈ s'.blockRangeMap.keys ↔ k ∈ s.blockRangeMap.keys) ∧
      ∀ b ∈ s'.blockMap, (∃ a ∈ b.physicalAddresses, macroBlock a = key) →
        b.overlapsPhysicalRange address length = false := by
  have hperm := H.perm (s.blockRangeMap.get key)
  obtain ⟨s₁, hs₁, herased, hkeys, hdone⟩ := h.eraseBlocks address length
    (fun p hp => hperm.subset hp) (hperm.nodup_iff.mpr (h.range_nodup key))
  have hdone' : ∀ b ∈ s₁.blockMap, (∃ a ∈ b.physicalAddresses, macroBlock a = key) →
      b.overlapsPhysicalRange address length = false := by
    rintro b hb ⟨a, ha, rfl⟩
    obtain ⟨b₀, hb₀, hrel⟩ := herased.fewer b hb
    rw [hrel.physicalAddresses] at ha
    refine hdone b hb (hperm.symm.subset ?_)
    rw [hrel.ptr]
    exact h.range_mem b₀ hb₀ a ha
  refine ⟨_, Option.map_eq_some_iff.mpr ⟨s₁, hs₁, rfl⟩, ?_⟩
  by_cases hempty : s₁.blockRangeMap.get key = []
  · rw [if_pos hempty]
    have hget : ∀ k, (s₁.blockRangeMap.erase key).get k = s₁.blockRangeMap.get k := by
      intro k
      rw [OrderedMap.get_erase]
      split
      · next hk => rw [hk, hempty]; rfl
      · rfl
    refine ⟨⟨herased.inv.congr rfl rfl rfl hget, herased.fewer, herased.kept, herased.validBlock,
      fun k hk => ?_⟩, fun k hne => ?_, hdone'⟩
    · exact herased.keys k (((OrderedMap.mem_keys_erase _ key k).mp hk).1)
    · rw [← hkeys k]
      exact (OrderedMap.mem_keys_erase _ key k).trans (and_iff_left hne)
  · rw [if_neg hempty]
    exact ⟨herased, fun k _ => hkeys k, hdone'⟩

/-! ## The whole range -/

theorem macroBlock_le (a : ℕ) : macroBlock a ≤ a := by
  unfold macroBlock
  omega

theorem macroBlock_mono {a a' : ℕ} (h : a ≤ a') : macroBlock a ≤ macroBlock a' := by
  unfold macroBlock
  omega

theorem IndexInv.eraseMacroBlocks {t fuel : ℕ} (h : s.IndexInv entryPoints)
    (hfit : address + length < 2 ^ 32) (ht : t ≤ address + length)
    (hpending : ∀ b ∈ s.blockMap, b.overlapsPhysicalRange address length = true →
      ∀ a ∈ b.physicalAddresses, address ≤ a → t ≤ macroBlock a)
    (hfuel : (s.blockRangeMap.keys.toFinset.filter (t ≤ ·)).card < fuel) :
    ∃ s', Cache.eraseMacroBlocks entryPoints H address length
        (s.blockRangeMap.lowerBound (address + length)) fuel s (s.blockRangeMap.lowerBound t) =
          some s' ∧
      Erased entryPoints address length s s' ∧
      ∀ b ∈ s'.blockMap, b.overlapsPhysicalRange address length = false := by
  induction fuel generalizing s t with
  | zero => exact absurd hfuel (Nat.not_lt_zero _)
  | succ fuel ih =>
    rw [eraseMacroBlocks_succ]
    by_cases hend : s.blockRangeMap.lowerBound t = s.blockRangeMap.lowerBound (address + length)
    · rw [if_pos hend]
      refine ⟨s, rfl, .refl h, fun b hb => ?_⟩
      by_contra hover
      have hover : b.overlapsPhysicalRange address length = true := by simpa using hover
      obtain ⟨a, ha, hle, hlt⟩ :=
        (JitBlock.overlapsPhysicalRange_iff (h.sorted b hb) hfit).mp hover
      have hkey := h.mem_keys hb ha
      have hta := hpending b hb hover a ha hle
      cases hstart : s.blockRangeMap.lowerBound t with
      | none =>
        have hnone := s.blockRangeMap.lowerBound_eq_none_iff.mp hstart _ hkey
        omega
      | some x =>
        have hx := (s.blockRangeMap.lowerBound_eq_some_iff.mp hstart).2.2 _ hkey hta
        rw [hstart] at hend
        have hx' := (s.blockRangeMap.lowerBound_eq_some_iff.mp hend.symm).2.1
        have := macroBlock_le a
        omega
    · rw [if_neg hend]
      cases hstart : s.blockRangeMap.lowerBound t with
      | none =>
        -- no macro block is left from `t` on, so there is none at the end of the range
        have hnone := s.blockRangeMap.lowerBound_eq_none_iff.mp hstart
        have hlast : s.blockRangeMap.lowerBound (address + length) = none :=
          s.blockRangeMap.lowerBound_eq_none_iff.mpr fun x hx => (hnone x hx).trans_le ht
        exact absurd (hstart.trans hlast.symm) hend
      | some key =>
        obtain ⟨hkey, htkey, hleast⟩ := s.blockRangeMap.lowerBound_eq_some_iff.mp hstart
        have hlt : key < address + length := by
          by_contra hge
          refine hend (hstart.trans (Eq.symm ?_))
          refine s.blockRangeMap.lowerBound_eq_some_iff.mpr ⟨hkey, by omega, fun y hy hle => ?_⟩
          exact hleast y hy (by omega)
        obtain ⟨s₁, hs₁, herased₁, hkeys₁, hdone₁⟩ := h.eraseMacroBlock (H := H) address length key
        have hlast : s₁.blockRangeMap.lowerBound (address + length) =
            s.blockRangeMap.lowerBound (address + length) :=
          s.blockRangeMap.lowerBound_congr fun x hx => hkeys₁ x (by omega)
        have hpending₁ : ∀ b ∈ s₁.blockMap, b.overlapsPhysicalRange address length = true →
            ∀ a ∈ b.physicalAddresses, address ≤ a → key + 1 ≤ macroBlock a := by
          intro b hb hover a ha hle
          obtain ⟨b₀, hb₀, hrel⟩ := herased₁.fewer b hb
          have hne : macroBlock a ≠ key := by
            intro heq
            rw [hdone₁ b hb ⟨a, ha, heq⟩] at hover
            cases hover
          rw [overlapsPhysicalRange_relinked hrel] at hover
          rw [hrel.physicalAddresses] at ha
          have := hleast _ (h.mem_keys hb₀ ha) (hpending b₀ hb₀ hover a ha hle)
          omega
        have hfuel₁ : (s₁.blockRangeMap.keys.toFinset.filter (key + 1 ≤ ·)).card < fuel := by
          have hsub : s₁.blockRangeMap.keys.toFinset.filter (key + 1 ≤ ·) ⊂
              s.blockRangeMap.keys.toFinset.filter (t ≤ ·) := by
            refine Finset.ssubset_iff_subset_ne.mpr ⟨fun x hx => ?_, fun heq => ?_⟩
            · simp only [Finset.mem_filter, List.mem_toFinset] at hx ⊢
              exact ⟨(hkeys₁ x (by omega)).mp hx.1, by omega⟩
            · have hmem : key ∈ s.blockRangeMap.keys.toFinset.filter (t ≤ ·) := by
                simpa using ⟨hkey, htkey⟩
              rw [← heq] at hmem
              simp only [Finset.mem_filter] at hmem
              omega
          have := Finset.card_lt_card hsub
          omega
        obtain ⟨s', hs', herased, hdone⟩ := ih herased₁.inv hlt hpending₁ hfuel₁
        rw [hlast] at hs'
        refine ⟨s', ?_, herased₁.trans herased, hdone⟩
        rw [Option.bind_some, hs₁, Option.bind_some]
        exact hs'

theorem IndexInv.erasePhysicalRange (h : s.IndexInv entryPoints)
    (hfit : address + length < 2 ^ 32 ∨ s.blockRangeMap.keys = []) :
    ∃ s', s.erasePhysicalRange entryPoints H address length = some s' ∧
      Erased entryPoints address length s s' ∧
      ∀ b ∈ s'.blockMap, ∀ a ∈ b.physicalAddresses, ¬ (address ≤ a ∧ a < address + length) := by
  unfold Cache.erasePhysicalRange
  by_cases hfit' : address + length < 2 ^ 32
  · have hwrap : wrap (address + length) = address + length := Nat.mod_eq_of_lt hfit'
    have hfuel : (s.blockRangeMap.keys.toFinset.filter (macroBlock address ≤ ·)).card <
        s.blockRangeMap.keys.length + 1 :=
      Nat.lt_succ_of_le ((Finset.card_filter_le _ _).trans (List.toFinset_card_le _))
    obtain ⟨s', hs', herased, hdone⟩ := h.eraseMacroBlocks (H := H) (t := macroBlock address) hfit'
      ((macroBlock_le address).trans (Nat.le_add_right _ _))
      (fun _ _ _ _ _ hle => macroBlock_mono hle) hfuel
    rw [hwrap]
    refine ⟨s', hs', herased, fun b hb a ha hin => ?_⟩
    have hover := (JitBlock.overlapsPhysicalRange_iff (herased.inv.sorted b hb) hfit').mpr ⟨a, ha, hin⟩
    rw [hdone b hb] at hover
    cases hover
  · have hkeys := hfit.resolve_left hfit'
    have hnone : ∀ x, s.blockRangeMap.lowerBound x = none := by
      intro x
      rw [OrderedMap.lowerBound, hkeys]
      rfl
    refine ⟨s, by rw [hnone, hnone, eraseMacroBlocks_succ, if_pos rfl], .refl h, ?_⟩
    intro b hb a ha
    have hmem := h.mem_keys hb ha
    rw [hkeys] at hmem
    exact absurd hmem List.not_mem_nil

/-! ## Invalidation -/

/-- The end of the range does not wrap to 0, or nothing is looked up from it: there are no macro
blocks, or the range is one line whose valid bit is clear. -/
def RangeFits (s : Cache) (r : ℕ × ℕ) : Prop :=
  r.1 + r.2 < 2 ^ 32 ∨ s.blockRangeMap.keys = [] ∨
    r.2 = 32 ∧ r.1 % 32 = 0 ∧ s.validBlock (r.1 / 32) = false

instance (s : Cache) (r : ℕ × ℕ) : Decidable (s.RangeFits r) := by
  unfold RangeFits
  infer_instance

/-- No block has an address in the range. -/
def Unmapped (s : Cache) (r : ℕ × ℕ) : Prop :=
  ∀ b ∈ s.blockMap, ∀ a ∈ b.physicalAddresses, ¬ (r.1 ≤ a ∧ a < r.1 + r.2)

theorem Unmapped.fewerBlocks {r : ℕ × ℕ} (h : s.Unmapped r) (hf : FewerBlocks s s') :
    s'.Unmapped r := by
  intro b' hb' a ha
  obtain ⟨b, hb, hrel⟩ := hf b' hb'
  rw [hrel.physicalAddresses] at ha
  exact h b hb a ha

/-- What an invalidation leaves as it was. -/
structure Invalidated (entryPoints : Bool) (s s' : Cache) : Prop where
  inv : s'.IndexInv entryPoints
  valid : s'.ValidInv
  fewer : FewerBlocks s s'
  fits : ∀ r, s.RangeFits r → s'.RangeFits r

theorem Invalidated.refl (h : s.IndexInv entryPoints) (hv : s.ValidInv) :
    Invalidated entryPoints s s :=
  ⟨h, hv, .refl s, fun _ hr => hr⟩

theorem Invalidated.trans {s₁ : Cache} (h : Invalidated entryPoints s s₁)
    (h' : Invalidated entryPoints s₁ s') : Invalidated entryPoints s s' :=
  ⟨h'.inv, h'.valid, h.fewer.trans h'.fewer, fun r hr => h'.fits r (h.fits r hr)⟩

theorem IndexInv.clearAndErase {v : ℕ → Bool} (h : s.IndexInv entryPoints) (hv : s.ValidInv)
    (hfit : address + length < 2 ^ 32 ∨ s.blockRangeMap.keys = [])
    (hclear : ∀ i, s.validBlock i = false → v i = false)
    (hkept : address + length < 2 ^ 32 → ∀ a, ¬ (address ≤ a ∧ a < address + length) →
      v (a / 32) = s.validBlock (a / 32)) :
    ∃ s', ({ s with validBlock := v }).erasePhysicalRange entryPoints H address length = some s' ∧
      Invalidated entryPoints s s' ∧ s'.Unmapped (address, length) := by
  have h₀ : ({ s with validBlock := v } : Cache).IndexInv entryPoints :=
    h.congr rfl rfl rfl fun _ => rfl
  obtain ⟨s', hs', herased, hunmapped⟩ := h₀.erasePhysicalRange (H := H) hfit
  refine ⟨s', hs', ⟨herased.inv, ?_, herased.fewer, ?_⟩, hunmapped⟩
  · intro b hb a ha
    obtain ⟨b₀, hb₀, hrel⟩ := herased.fewer b hb
    have hout := hunmapped b hb a ha
    rw [hrel.physicalAddresses] at ha
    rw [herased.validBlock]
    rcases hfit with hfit | hkeys
    · exact (hkept hfit a hout).trans (hv b₀ hb₀ a ha)
    · have hmem := h.mem_keys hb₀ ha
      rw [hkeys] at hmem
      exact absurd hmem List.not_mem_nil
  · rintro r (hr | hr | ⟨hlen, halign, hbit⟩)
    · exact Or.inl hr
    · refine Or.inr (Or.inl (List.eq_nil_iff_forall_not_mem.mpr fun k hk => ?_))
      have hmem := herased.keys k hk
      rw [hr] at hmem
      exact absurd hmem List.not_mem_nil
    · refine Or.inr (Or.inr ⟨hlen, halign, ?_⟩)
      rw [herased.validBlock]
      exact hclear _ hbit

/-- **`InvalidateICacheInternal`** leaves no block in its range. Where it takes the shortcut, the clear
bit says that there is none. -/
theorem IndexInv.invalidateICacheInternal (h : s.IndexInv entryPoints) (hv : s.ValidInv)
    (hfit : s.RangeFits (address, length)) :
    ∃ s', s.invalidateICacheInternal entryPoints H address length = some s' ∧
      Invalidated entryPoints s s' ∧ s'.Unmapped (address, length) := by
  unfold Cache.invalidateICacheInternal
  by_cases hline : length = 32 ∧ address % 32 = 0
  · rw [if_pos hline]
    have hsame : ∀ a, address ≤ a ∧ a < address + length ↔ a / 32 = address / 32 := by omega
    by_cases hbit : s.validBlock (address / 32) = false
    · rw [if_pos hbit]
      refine ⟨s, rfl, .refl h hv, fun b hb a ha hin => ?_⟩
      have hset := hv b hb a ha
      rw [(hsame a).mp hin, hbit] at hset
      cases hset
    · rw [if_neg hbit]
      have hfit' : address + length < 2 ^ 32 ∨ s.blockRangeMap.keys = [] :=
        hfit.imp_right fun hr => hr.resolve_right fun hr => hbit hr.2.2
      refine h.clearAndErase hv hfit' (fun i hi => ?_) fun _ a hout => ?_
      · rw [Function.update_apply]
        split
        · rfl
        · exact hi
      · exact Function.update_of_ne (fun heq => hout ((hsame a).mpr heq)) _ _
  · rw [if_neg hline]
    have hfit' : address + length < 2 ^ 32 ∨ s.blockRangeMap.keys = [] :=
      hfit.imp_right fun hr => hr.resolve_right fun hr => hline ⟨hr.1, hr.2.1⟩
    by_cases hlong : 32 < length
    · rw [if_pos hlong]
      refine h.clearAndErase hv hfit' (fun i hi => ?_) fun hlt a hout => ?_
      · split
        · rfl
        · exact hi
      · have hstart : wrap (address + 0x1f) = address + 0x1f := Nat.mod_eq_of_lt (by omega)
        have hend : wrap (address + length) = address + length := Nat.mod_eq_of_lt hlt
        have hcond : ¬ ((address + 0x1f) / 32 ≤ a / 32 ∧ a / 32 < (address + length) / 32) := by omega
        rw [hstart, hend, if_neg hcond]
    · rw [if_neg hlong]
      exact h.clearAndErase hv hfit' (fun _ hi => hi) fun _ _ _ => rfl

theorem IndexInv.invalidateRanges {rs : List (ℕ × ℕ)} (h : s.IndexInv entryPoints)
    (hv : s.ValidInv) (hfit : ∀ r ∈ rs, s.RangeFits r) :
    ∃ s', rs.foldlM (fun (s : Cache) r => s.invalidateICacheInternal entryPoints H r.1 r.2) s =
        some s' ∧
      Invalidated entryPoints s s' ∧ ∀ r ∈ rs, s'.Unmapped r := by
  induction rs generalizing s with
  | nil => exact ⟨s, rfl, .refl h hv, fun _ hr => absurd hr List.not_mem_nil⟩
  | cons r rs ih =>
    obtain ⟨s₁, hs₁, hinv₁, hunmapped₁⟩ :=
      h.invalidateICacheInternal (H := H) hv (hfit r List.mem_cons_self)
    obtain ⟨s', hs', hinv, hunmapped⟩ := ih hinv₁.inv hinv₁.valid
      fun r' hr' => hinv₁.fits r' (hfit r' (List.mem_cons_of_mem r hr'))
    refine ⟨s', Option.bind_eq_some_iff.mpr ⟨s₁, hs₁, hs'⟩, hinv₁.trans hinv, fun r' hr' => ?_⟩
    rcases List.mem_cons.mp hr' with rfl | hr'
    · exact hunmapped₁.fewerBlocks hinv.fewer
    · exact hunmapped r' hr'

end Cache

/-! ## Runs -/

/-- The physical ranges that the action erases fit below the top of the address space. -/
def RangesFit (s : Cache) : Action → Prop
  | .invalidateICache tr address length => ∀ r ∈ Cache.icacheRanges tr address length, s.RangeFits r
  | .invalidateICacheLine tr address => ∀ r ∈ Cache.lineRange tr address, s.RangeFits r
  | .erasePhysicalRange address length =>
    address + length < 2 ^ 32 ∨ s.blockRangeMap.keys = []
  | _ => True

instance (s : Cache) (a : Action) : Decidable (RangesFit s a) :=
  match a with
  | .invalidateICache tr address length =>
    List.decidableBAll s.RangeFits (Cache.icacheRanges tr address length)
  | .invalidateICacheLine tr address => List.decidableBAll s.RangeFits (Cache.lineRange tr address)
  | .erasePhysicalRange _ _ => instDecidableOr
  | .compile .. | .dispatch .. | .eraseSingleBlock .. | .clear => instDecidableTrue

variable {entryPoints : Bool} {H : HashOrder} {s s' : Cache}

/-- **A step whose ranges fit is defined and keeps the indexes right.** -/
theorem step_indexInv {a : Action} (h : s.IndexInv entryPoints) (hv : s.ValidInv)
    (hpossible : Possible s a) (hfit : RangesFit s a) :
    ∃ s', step entryPoints H s a = some s' ∧ s'.IndexInv entryPoints ∧ s'.ValidInv := by
  unfold step
  rw [if_pos hpossible]
  cases a with
  | compile tr emAddress featureFlags ptr blockLink code =>
    exact h.compile hv hpossible.1 hpossible.2
  | invalidateICache tr address length =>
    obtain ⟨s', hs', hinv, -⟩ := h.invalidateRanges (H := H) hv hfit
    exact ⟨s', hs', hinv.inv, hinv.valid⟩
  | invalidateICacheLine tr address =>
    obtain ⟨s', hs', hinv, -⟩ := h.invalidateRanges (H := H) hv hfit
    exact ⟨s', hs', hinv.inv, hinv.valid⟩
  | erasePhysicalRange address length =>
    obtain ⟨s', hs', herased, -⟩ := h.erasePhysicalRange (H := H) hfit
    exact ⟨s', hs', herased.inv, hv.fewerBlocks herased.fewer herased.validBlock⟩
  | eraseSingleBlock ptr =>
    obtain ⟨block, hblock⟩ := Option.isSome_iff_exists.mp hpossible
    obtain ⟨s', hs', hinv, hr⟩ := h.eraseSingleBlock (Cache.block?_eq_some hblock).1
    exact ⟨s', Option.bind_eq_some_iff.mpr ⟨block, hblock, hs'⟩, hinv,
      hv.fewerBlocks hr.fewerBlocks hr.validBlock⟩
  | dispatch tr pc featureFlags =>
    obtain ⟨s', r, hs', hstate, -⟩ := h.dispatch tr pc featureFlags
    refine ⟨s', Option.map_eq_some_iff.mpr ⟨_, hs', rfl⟩, ?_⟩
    rcases hstate with rfl | rfl
    · exact ⟨h, hv⟩
    · exact ⟨h.moveBlockIntoFastCache tr pc featureFlags,
        hv.moveBlockIntoFastCache tr pc featureFlags⟩
  | clear => exact h.clear

/-- **The indexes of the cache.** In a run whose ranges fit below the top of the address space,
* each block is in the macro blocks of its addresses and their lines have the valid bit set;
* each pointer in `block_range_map`, in `links_to` and in the fast map is that of a live block;
* `InvalidateICacheLine` leaves no block in the line, whether it takes the shortcut or not;
* `Dispatch` returns the entry of a live block, if any;
* no action runs into undefined behaviour. -/
theorem indexes_live (hs : Reach (step entryPoints H) RangesFit .init s) :
    (∀ b ∈ s.blockMap, ∀ a ∈ b.physicalAddresses,
      b.ptr ∈ s.blockRangeMap.get (macroBlock a) ∧ s.validBlock (a / 32) = true) ∧
    (∀ k, ∀ p ∈ s.blockRangeMap.get k, ∃ b ∈ s.blockMap, b.ptr = p) ∧
    (∀ addr, ∀ p ∈ s.linksTo addr, ∃ b ∈ s.blockMap, b.ptr = p) ∧
    (∀ i v, s.fastBlockMap i = some v → ∃ b ∈ s.blockMap, Cache.slot entryPoints b = v) ∧
    (∀ tr address s', RangesFit s (.invalidateICacheLine tr address) →
      s.invalidateICacheLine entryPoints H tr address = some s' →
      (tr (address / 32 * 32)).valid = true →
      s'.Unmapped ((tr (address / 32 * 32)).address, 32)) ∧
    (∀ tr pc featureFlags s' entry,
      s.dispatch entryPoints tr pc featureFlags = some (s', some entry) →
      ∃ b ∈ s.blockMap, b.normalEntry = entry) ∧
    (∀ a, Possible s a → RangesFit s a → (step entryPoints H s a).isSome) := by
  have hinv : s.IndexInv entryPoints ∧ s.ValidInv := by
    refine hs.invariant (P := fun s => s.IndexInv entryPoints ∧ s.ValidInv)
      ⟨Cache.indexInv_init, fun _ h => absurd h List.not_mem_nil⟩ ?_
    intro s a s' hinv hfit hs'
    obtain ⟨hpossible, -⟩ := Option.ite_none_right_eq_some.mp hs'
    obtain ⟨s₁, hs₁, hinv₁⟩ := step_indexInv (H := H) hinv.1 hinv.2 hpossible hfit
    rw [hs'] at hs₁
    cases hs₁
    exact hinv₁
  obtain ⟨h, hv⟩ := hinv
  refine ⟨fun b hb a ha => ⟨h.range_mem b hb a ha, hv b hb a ha⟩, ?_, h.links.sources_live, ?_, ?_,
    ?_, ?_⟩
  · intro k p hp
    obtain ⟨b, hb, hptr, -⟩ := h.range_live k p hp
    exact ⟨b, hb, hptr⟩
  · intro i v hiv
    obtain ⟨b, hb, hslot, -⟩ := h.fast_live i v hiv
    exact ⟨b, hb, hslot⟩
  · intro tr address s' hfit hs' hvalid
    obtain ⟨s₁, hs₁, -, hunmapped⟩ := h.invalidateRanges (H := H) hv hfit
    change s.invalidateICacheLine entryPoints H tr address = some s₁ at hs₁
    rw [hs'] at hs₁
    cases hs₁
    refine hunmapped _ ?_
    rw [Cache.lineRange, if_pos hvalid]
    exact List.mem_cons_self
  · intro tr pc featureFlags s' entry hs'
    obtain ⟨s₁, r, hs₁, -, hlive⟩ := h.dispatch tr pc featureFlags
    rw [hs'] at hs₁
    cases hs₁
    exact hlive entry rfl
  · intro a hpossible hfit
    obtain ⟨s', hs', -⟩ := step_indexInv (H := H) h hv hpossible hfit
    rw [hs']
    rfl

/-- A block over two macro blocks survives the invalidation of another one, and is looked up. -/
def rangeRun : List Action :=
  [.compile identity 0x10FC 0 1 true ⟨0x90, [0x2000], [0x10FC, 0x1100]⟩,
    .compile identity 0x2000 0 2 true ⟨0x91, [], [0x2000]⟩,
    .dispatch identity 0x10FC 0,
    .invalidateICacheLine identity 0x2010,
    .invalidateICache identity 0xFFFF0000 0x1000]

theorem indexes_live_rangeRun :
    ∃ s, Reach (step false ⟨id, fun _ => .refl _⟩) RangesFit .init s ∧ ∃ b ∈ s.blockMap,
      b.ptr ∈ s.blockRangeMap.get 0x1000 ∧ b.ptr ∈ s.blockRangeMap.get 0x1100 ∧
      s.linksTo 0x2000 = [1] ∧ s.blockRangeMap.keys = [0x1000, 0x1100] := by
  obtain ⟨s, hrun, hs⟩ := Option.map_eq_some_iff.mp
    (show (run (step false ⟨id, fun _ => .refl _⟩) RangesFit .init rangeRun).map
        (fun s => (s.blockMap.head?, s.linksTo 0x2000, s.blockRangeMap.keys)) =
      some (some ⟨1, 0x90, 0, 0x10FC, 0x10FC, 0x43F, [⟨0x2000, false, none⟩], [0x10FC, 0x1100]⟩,
        [1], [0x1000, 0x1100]) by decide +kernel)
  obtain ⟨hblock, hlinks, hkeys⟩ : _ ∧ _ ∧ _ := by simpa only [Prod.mk.injEq] using hs
  have hmem := List.mem_of_mem_head? hblock
  have hranges := (indexes_live (run_reach .refl hrun)).1 _ hmem
  refine ⟨s, run_reach .refl hrun, _, hmem, (hranges 0x10FC ?_).1, (hranges 0x1100 ?_).1, hlinks,
    hkeys⟩
  · exact List.mem_cons_self
  · exact List.mem_cons_of_mem _ List.mem_cons_self

/-- **The last line of the address space.** Its end wraps to 0, so `ErasePhysicalRange` looks for macro
blocks before the first one: a block in the line stays while its valid bit is cleared. With a range
of more than a line the loop starts after its end and runs past the end of the map. -/
theorem last_line_not_erased :
    (∃ s, Reach (step false ⟨id, fun _ => .refl _⟩) anyStep .init s ∧ ∃ b ∈ s.blockMap,
      0xFFFFFFE0 ∈ b.physicalAddresses ∧ s.validBlock (0xFFFFFFE0 / 32) = false) ∧
    (run (step false ⟨id, fun _ => .refl _⟩) anyStep .init
      [.compile identity 0x1000 0 1 true ⟨0x90, [], [0x1000]⟩,
        .invalidateICache identity 0xFFFFFFC0 0x40]).isNone = true := by
  constructor
  · obtain ⟨s, hrun, hs⟩ := Option.map_eq_some_iff.mp
      (show (run (step false ⟨id, fun _ => .refl _⟩) anyStep .init
          [.compile identity 0xFFFFFFE0 0 1 true ⟨0x90, [], [0xFFFFFFE0]⟩,
            .invalidateICacheLine identity 0xFFFFFFE0]).map
          (fun s => (s.blockMap.head?, s.validBlock (0xFFFFFFE0 / 32))) =
        some (some ⟨1, 0x90, 0, 0xFFFFFFE0, 0xFFFFFFE0, 0xFFF8, [], [0xFFFFFFE0]⟩, false)
          by decide +kernel)
    obtain ⟨hblock, hbit⟩ : _ ∧ _ := by simpa only [Prod.mk.injEq] using hs
    exact ⟨s, run_reach .refl hrun, _, List.mem_of_mem_head? hblock, List.mem_cons_self, hbit⟩
  · decide +kernel

end JitCache
