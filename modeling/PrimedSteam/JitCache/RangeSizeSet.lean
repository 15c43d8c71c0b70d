import Mathlib.Order.Interval.Set.Defs
import PrimedSteam.Lib.OrderedMap

/-!
# Sets of ranges

A set of values is kept as ranges that do not touch, by their starts, with an index of the ranges by their sizes.

* `insert`, `erase`, `contains`: the operations.
* `Apart`: the ranges are not empty and do not touch. `Indexed`: the index has every range under its size.
* `insert_spec`, `erase_spec`: the values that the ranges cover afterwards.
* **`run_spec`**: any sequence of operations is the same sequence of operations on sets of values.
* **`run_map_eq_iff`**: equal sets of values have equal ranges.
-/

set_option autoImplicit false

namespace OrderedMap

variable {κ ν : Type*} [LinearOrder κ] [Inhabited ν] (m : OrderedMap κ ν)

/-- The last key that is not above `k`. -/
def prev (k : κ) : Option κ := (m.keys.filter (· ≤ k)).getLast?

variable {m}

theorem prev_eq_some {k x : κ} (h : m.prev k = some x) : x ∈ m.keys ∧ x ≤ k ∧ ∀ y ∈ m.keys, y ≤ k → y ≤ x := by
  obtain ⟨before, hfilter⟩ := List.getLast?_eq_some_iff.mp h
  have hx : x ∈ m.keys.filter (· ≤ k) := by
    rw [hfilter]
    exact List.mem_append_right before List.mem_cons_self
  have hsorted := m.sorted.filter (· ≤ k)
  rw [hfilter] at hsorted
  refine ⟨(List.mem_filter.mp hx).1, by simpa using (List.mem_filter.mp hx).2, fun y hy hyk => ?_⟩
  have hmem : y ∈ before ++ [x] := by
    rw [← hfilter]
    exact List.mem_filter.mpr ⟨hy, by simpa using hyk⟩
  rcases List.mem_append.mp hmem with hbefore | hlast
  · exact ((List.pairwise_append.mp hsorted).2.2 y hbefore x List.mem_cons_self).le
  · exact (List.mem_singleton.mp hlast).le

theorem prev_eq_none {k : κ} (h : m.prev k = none) : ∀ y ∈ m.keys, k < y := by
  intro y hy
  by_contra hle
  rw [prev, List.getLast?_eq_none_iff] at h
  have hmem : y ∈ m.keys.filter (· ≤ k) := List.mem_filter.mpr ⟨hy, by simpa using hle⟩
  rw [h] at hmem
  cases hmem

end OrderedMap

namespace HyoutaUtilities

/-- The ends of the ranges by their starts, and the sizes with the starts, the largest one first. -/
structure RangeSizeSet (α : Type*) [LinearOrder α] [Inhabited α] where
  map : OrderedMap α α
  sizes : List (ℕ × α)

namespace RangeSizeSet

variable {α : Type*} [LinearOrder α] [Inhabited α]

/-! ## Operations -/

/-- An entry of the index, behind those of its size. -/
def emplaceSize (size : ℕ) (start : α) (sizes : List (ℕ × α)) : List (ℕ × α) :=
  sizes.takeWhile (size ≤ ·.1) ++ (size, start) :: sizes.dropWhile (size ≤ ·.1)

/-- The entry that a range points to is removed. -/
def eraseSize (start : α) (sizes : List (ℕ × α)) : List (ℕ × α) := sizes.filter (·.2 ≠ start)

def empty : RangeSizeSet α := ⟨.empty, []⟩

section Operations

variable (calcSize : α → α → ℕ) (s : RangeSizeSet α)

def insertRange (start stop : α) : RangeSizeSet α :=
  ⟨s.map.emplace start stop, emplaceSize (calcSize start stop) start s.sizes⟩

def eraseRange (it : α) : RangeSizeSet α := ⟨s.map.erase it, eraseSize it s.sizes⟩

/-- `expand_to` and `reduce_to` -/
def setTo (it stop : α) : RangeSizeSet α :=
  ⟨s.map.modify it fun _ => stop, emplaceSize (calcSize it stop) it (eraseSize it s.sizes)⟩

def maybeExpandTo (it stop : α) : RangeSizeSet α := if stop ≤ s.map.get it then s else s.setTo calcSize it stop

def reduceFrom (it start : α) : RangeSizeSet α := (s.eraseRange it).insertRange calcSize start (s.map.get it)

def bisectRange (it start stop : α) : RangeSizeSet α :=
  (s.setTo calcSize it start).insertRange calcSize stop (s.map.get it)

/-- `merge_from_iterator_to_value`, with the starts from the iterator on. -/
def mergeFrom (inserted stop : α) : List α → RangeSizeSet α → RangeSizeSet α
  | [], s => s
  | bound :: bounds, s =>
    if bound ≤ stop then
      mergeFrom inserted stop bounds ((s.maybeExpandTo calcSize inserted (s.map.get bound)).eraseRange bound)
    else s

/-- `erase_from_iterator_to_value`, with the starts from the iterator on. -/
def eraseFrom (stop : α) : List α → RangeSizeSet α → RangeSizeSet α
  | [], s => s
  | bound :: bounds, s =>
    if stop ≤ bound then s
    else if stop < s.map.get bound then s.reduceFrom calcSize bound stop
    else if stop = s.map.get bound then s.eraseRange bound
    else eraseFrom stop bounds (s.eraseRange bound)

/-- The starts from `upper_bound` on. -/
def after (start : α) : List α := s.map.keys.filter (start < ·)

/-- `insert` -/
def insert (start stop : α) : RangeSizeSet α :=
  if stop ≤ start then s
  else
    match s.map.prev start, s.after start with
    | none, [] => s.insertRange calcSize start stop
    | some bound, [] =>
      if s.map.get bound < start then s.insertRange calcSize start stop else s.maybeExpandTo calcSize bound stop
    | none, abound :: rest => mergeFrom calcSize start stop (abound :: rest) (s.insertRange calcSize start stop)
    | some bound, abound :: rest =>
      if start ≤ s.map.get bound then
        mergeFrom calcSize bound stop (abound :: rest) (s.maybeExpandTo calcSize bound stop)
      else if abound ≤ stop then
        mergeFrom calcSize start stop rest
          ((s.insertRange calcSize start
            (if s.map.get abound ≤ stop then stop else s.map.get abound)).eraseRange abound)
      else s.insertRange calcSize start stop

/-- `erase` -/
def erase (start stop : α) : RangeSizeSet α :=
  if stop ≤ start then s
  else
    match s.map.prev start, s.after start with
    | none, [] => s
    | some bound, [] =>
      if s.map.get bound ≤ start then s
      else if s.map.get bound ≤ stop then
        if start = bound then s.eraseRange bound else s.setTo calcSize bound start
      else if start = bound then s.reduceFrom calcSize bound stop
      else s.bisectRange calcSize bound start stop
    | none, abound :: rest => eraseFrom calcSize stop (abound :: rest) s
    | some bound, abound :: rest =>
      if start = bound then eraseFrom calcSize stop (bound :: abound :: rest) s
      else if start < s.map.get bound then
        if stop < s.map.get bound then s.bisectRange calcSize bound start stop
        else eraseFrom calcSize stop (abound :: rest) (s.setTo calcSize bound start)
      else eraseFrom calcSize stop (abound :: rest) s

/-- `contains` -/
def contains (value : α) : Bool :=
  match s.map.prev value with
  | none => false
  | some it => decide (it ≤ value ∧ value < s.map.get it)

end Operations

/-! ## Values -/

/-- A range has the value. -/
def Covers (m : OrderedMap α α) (v : α) : Prop := ∃ k ∈ m.keys, k ≤ v ∧ v < m.get k

/-- The ranges are not empty and do not touch. -/
structure Apart (m : OrderedMap α α) : Prop where
  nonempty : ∀ k ∈ m.keys, k < m.get k
  apart : ∀ k ∈ m.keys, ∀ k' ∈ m.keys, k < k' → m.get k < k'

/-- One range may reach others up to `stop`. -/
structure Opened (m : OrderedMap α α) (it stop : α) : Prop where
  mem : it ∈ m.keys
  nonempty : ∀ k ∈ m.keys, k < m.get k
  apart : ∀ k ∈ m.keys, k ≠ it → ∀ k' ∈ m.keys, k < k' → m.get k < k'
  stop_le : stop ≤ m.get it
  beyond : stop < m.get it → ∀ k ∈ m.keys, it < k → m.get it < k

/-- The range at `b` is taken into the one at `it`. -/
structure Absorbed (m : OrderedMap α α) (it b : α) (m' : OrderedMap α α) : Prop where
  keys : ∀ x, x ∈ m'.keys ↔ x ∈ m.keys ∧ x ≠ b
  get_it : m'.get it = max (m.get it) (m.get b)
  get_of_ne : ∀ x, x ≠ it → x ≠ b → m'.get x = m.get x

section Spec

variable {m m' : OrderedMap α α} {it b start stop : α}

theorem Opened.to_apart (h : Opened m it stop) (hbeyond : ∀ k ∈ m.keys, it < k → stop < k) : Apart m where
  nonempty := h.nonempty
  apart := by
    intro k hk k' hk' hlt
    by_cases hkit : k = it
    · rw [hkit] at hlt ⊢
      rcases h.stop_le.eq_or_lt with heq | hgt
      · rw [← heq]
        exact hbeyond k' hk' hlt
      · exact h.beyond hgt k' hk' hlt
    · exact h.apart k hk hkit k' hk' hlt

/-- The first range that is reached is taken in. -/
theorem Absorbed.opened (habsorbed : Absorbed m it b m') (h : Opened m it stop) (hb : b ∈ m.keys) (hit : it < b)
    (hfirst : ∀ k ∈ m.keys, it < k → b ≤ k) (hstop : b ≤ stop) : Opened m' it stop where
  mem := (habsorbed.keys it).mpr ⟨h.mem, hit.ne⟩
  nonempty := by
    intro k hk
    obtain ⟨hkm, hkb⟩ := (habsorbed.keys k).mp hk
    by_cases hkit : k = it
    · rw [hkit, habsorbed.get_it]
      exact lt_max_of_lt_left (h.nonempty it h.mem)
    · rw [habsorbed.get_of_ne k hkit hkb]
      exact h.nonempty k hkm
  apart := by
    intro k hk hkit k' hk' hlt
    obtain ⟨hkm, hkb⟩ := (habsorbed.keys k).mp hk
    rw [habsorbed.get_of_ne k hkit hkb]
    exact h.apart k hkm hkit k' ((habsorbed.keys k').mp hk').1 hlt
  stop_le := by
    rw [habsorbed.get_it]
    exact h.stop_le.trans (le_max_left _ _)
  beyond := by
    intro hgt k hk hlt
    obtain ⟨hkm, hkb⟩ := (habsorbed.keys k).mp hk
    -- a range that already reaches beyond `stop` does not meet `b`
    have hget : m.get it = stop := by
      rcases h.stop_le.eq_or_lt with heq | hmore
      · exact heq.symm
      · exact absurd (h.beyond hmore b hb hit) (not_lt.mpr (hstop.trans h.stop_le))
    rw [habsorbed.get_it, hget] at hgt ⊢
    have hgetb : stop < m.get b := (lt_max_iff.mp hgt).resolve_left (lt_irrefl stop)
    rw [max_eq_right hgetb.le]
    exact h.apart b hb hit.ne' k hkm (lt_of_le_of_ne (hfirst k hkm hlt) (Ne.symm hkb))

theorem Absorbed.covers (habsorbed : Absorbed m it b m') (h : Opened m it stop) (hb : b ∈ m.keys) (hit : it < b)
    (hstop : b ≤ stop) (v : α) : Covers m' v ↔ Covers m v := by
  have hreach : b ≤ m.get it := hstop.trans h.stop_le
  constructor
  · rintro ⟨k, hk, hle, hlt⟩
    obtain ⟨hkm, hkb⟩ := (habsorbed.keys k).mp hk
    by_cases hkit : k = it
    · rw [hkit, habsorbed.get_it] at hlt
      rw [hkit] at hle
      rcases lt_or_ge v (m.get it) with hinside | houtside
      · exact ⟨it, h.mem, hle, hinside⟩
      · exact ⟨b, hb, hreach.trans houtside, (lt_max_iff.mp hlt).resolve_left (not_lt.mpr houtside)⟩
    · rw [habsorbed.get_of_ne k hkit hkb] at hlt
      exact ⟨k, hkm, hle, hlt⟩
  · rintro ⟨k, hk, hle, hlt⟩
    by_cases hkb : k = b
    · rw [hkb] at hle hlt
      refine ⟨it, (habsorbed.keys it).mpr ⟨h.mem, hit.ne⟩, hit.le.trans hle, ?_⟩
      rw [habsorbed.get_it]
      exact lt_max_of_lt_right hlt
    · refine ⟨k, (habsorbed.keys k).mpr ⟨hk, hkb⟩, hle, ?_⟩
      by_cases hkit : k = it
      · rw [hkit] at hlt ⊢
        rw [habsorbed.get_it]
        exact lt_max_of_lt_left hlt
      · rwa [habsorbed.get_of_ne k hkit hkb]

end Spec

/-! ## The index -/

section Index

variable (calcSize : α → α → ℕ)

/-- Every range is in the index once, under its size, and the largest ones are first. -/
structure Indexed (s : RangeSizeSet α) : Prop where
  mem_iff : ∀ n k, (n, k) ∈ s.sizes ↔ k ∈ s.map.keys ∧ n = calcSize k (s.map.get k)
  nodup : (s.sizes.map Prod.snd).Nodup
  sorted : s.sizes.Pairwise fun x y => y.1 ≤ x.1

omit [LinearOrder α] [Inhabited α] in
theorem perm_emplaceSize (n : ℕ) (k : α) (sizes : List (ℕ × α)) :
    (emplaceSize n k sizes).Perm ((n, k) :: sizes) := by
  rw [emplaceSize]
  refine List.perm_middle.trans ?_
  rw [List.takeWhile_append_dropWhile]

omit [LinearOrder α] [Inhabited α] in
theorem sorted_emplaceSize (n : ℕ) (k : α) {sizes : List (ℕ × α)}
    (h : sizes.Pairwise fun x y => y.1 ≤ x.1) : (emplaceSize n k sizes).Pairwise fun x y => y.1 ≤ x.1 := by
  induction sizes with
  | nil => exact List.pairwise_singleton _ _
  | cons x sizes ih =>
    obtain ⟨hx, hrest⟩ := List.pairwise_cons.mp h
    rw [emplaceSize]
    by_cases hle : n ≤ x.1
    · rw [List.takeWhile_cons_of_pos (by simpa using hle), List.dropWhile_cons_of_pos (by simpa using hle),
        List.cons_append]
      refine List.Pairwise.cons (fun y hy => ?_) (ih hrest)
      rcases List.mem_cons.mp ((perm_emplaceSize n k sizes).mem_iff.mp hy) with rfl | hmem
      · exact hle
      · exact hx y hmem
    · rw [List.takeWhile_cons_of_neg (by simpa using hle), List.dropWhile_cons_of_neg (by simpa using hle),
        List.nil_append]
      refine List.Pairwise.cons (fun y hy => ?_) h
      rcases List.mem_cons.mp hy with rfl | hmem
      · exact (not_le.mp hle).le
      · exact (hx y hmem).trans (not_le.mp hle).le

theorem indexed_empty : Indexed calcSize (empty : RangeSizeSet α) where
  mem_iff _ _ := iff_of_false List.not_mem_nil fun h => List.not_mem_nil h.1
  nodup := List.nodup_nil
  sorted := List.Pairwise.nil

variable {calcSize} {s : RangeSizeSet α}

theorem Indexed.eraseRange (h : Indexed calcSize s) (it : α) : Indexed calcSize (s.eraseRange it) where
  mem_iff n k := by
    change (n, k) ∈ s.sizes.filter (·.2 ≠ it) ↔ k ∈ (s.map.erase it).keys ∧ n = calcSize k ((s.map.erase it).get k)
    rw [List.mem_filter, h.mem_iff, OrderedMap.mem_keys_erase, OrderedMap.get_erase, decide_eq_true_eq]
    constructor
    · rintro ⟨⟨hk, hn⟩, hne⟩
      exact ⟨⟨hk, hne⟩, by rwa [if_neg hne]⟩
    · rintro ⟨⟨hk, hne⟩, hn⟩
      rw [if_neg hne] at hn
      exact ⟨⟨hk, hn⟩, hne⟩
  nodup := (List.filter_sublist.map Prod.snd).nodup h.nodup
  sorted := h.sorted.filter _

theorem Indexed.emplace (h : Indexed calcSize s) {map : OrderedMap α α} {it stop : α} (hnew : it ∉ s.map.keys)
    (hkeys : ∀ x, x ∈ map.keys ↔ x = it ∨ x ∈ s.map.keys)
    (hget : ∀ x, map.get x = if x = it then stop else s.map.get x) :
    Indexed calcSize ⟨map, emplaceSize (calcSize it stop) it s.sizes⟩ where
  mem_iff n k := by
    change (n, k) ∈ emplaceSize (calcSize it stop) it s.sizes ↔ k ∈ map.keys ∧ n = calcSize k (map.get k)
    rw [(perm_emplaceSize _ _ _).mem_iff, List.mem_cons, Prod.mk.injEq, h.mem_iff, hkeys, hget]
    constructor
    · rintro (⟨hn, hk⟩ | ⟨hk, hn⟩)
      · exact ⟨Or.inl hk, by rw [if_pos hk, hk, hn]⟩
      · exact ⟨Or.inr hk, by rwa [if_neg fun heq : k = it => hnew (heq ▸ hk)]⟩
    · rintro ⟨hk, hn⟩
      by_cases heq : k = it
      · rw [if_pos heq, heq] at hn
        exact Or.inl ⟨hn, heq⟩
      · rw [if_neg heq] at hn
        exact Or.inr ⟨hk.resolve_left heq, hn⟩
  nodup := by
    change ((emplaceSize (calcSize it stop) it s.sizes).map Prod.snd).Nodup
    rw [((perm_emplaceSize _ _ _).map Prod.snd).nodup_iff, List.map_cons, List.nodup_cons]
    refine ⟨fun hmem => hnew ?_, h.nodup⟩
    obtain ⟨⟨n, k⟩, hentry, rfl⟩ := List.mem_map.mp hmem
    exact ((h.mem_iff n k).mp hentry).1
  sorted := sorted_emplaceSize _ _ h.sorted

theorem Indexed.insertRange (h : Indexed calcSize s) {start : α} (hnew : start ∉ s.map.keys) (stop : α) :
    Indexed calcSize (s.insertRange calcSize start stop) := by
  refine h.emplace hnew (fun x => OrderedMap.mem_keys_emplace _ _ _ _) fun x => ?_
  rw [OrderedMap.get_emplace]
  simp only [hnew, not_false_eq_true, and_true]

theorem Indexed.setTo (h : Indexed calcSize s) (it stop : α) :
    Indexed calcSize (s.setTo calcSize it stop) := by
  refine (h.eraseRange it).emplace ?_ (fun x => ?_) fun x => ?_
  · exact fun hmem => ((OrderedMap.mem_keys_erase _ _ _).mp hmem).2 rfl
  · change _ ↔ x = it ∨ x ∈ (s.map.erase it).keys
    rw [OrderedMap.mem_keys_modify, OrderedMap.mem_keys_erase]
    by_cases hx : x = it
    · exact iff_of_true (Or.inl hx) (Or.inl hx)
    · exact or_congr_right (iff_of_eq (by simp [hx]))
  · change _ = if x = it then stop else (s.map.erase it).get x
    rw [OrderedMap.get_modify, OrderedMap.get_erase]
    by_cases hx : x = it
    · rw [if_pos hx, if_pos hx]
    · rw [if_neg hx, if_neg hx, if_neg hx]

theorem Indexed.maybeExpandTo (h : Indexed calcSize s) (it stop : α) :
    Indexed calcSize (s.maybeExpandTo calcSize it stop) := by
  rw [RangeSizeSet.maybeExpandTo]
  split_ifs
  · exact h
  · exact h.setTo it stop

end Index

/-! ## Inserting -/

section Maps

variable (calcSize : α → α → ℕ) {s : RangeSizeSet α} {it b start stop : α}

theorem mem_keys_setTo (hit : it ∈ s.map.keys) (x : α) :
    x ∈ (s.setTo calcSize it stop).map.keys ↔ x ∈ s.map.keys := by
  change x ∈ (s.map.modify it _).keys ↔ _
  rw [OrderedMap.mem_keys_modify]
  exact ⟨fun h => h.elim (fun heq => heq ▸ hit) id, Or.inr⟩

theorem mem_keys_maybeExpandTo (hit : it ∈ s.map.keys) (x : α) :
    x ∈ (s.maybeExpandTo calcSize it stop).map.keys ↔ x ∈ s.map.keys := by
  rw [maybeExpandTo]
  split_ifs
  · rfl
  · exact mem_keys_setTo calcSize hit x

theorem get_maybeExpandTo (x : α) :
    (s.maybeExpandTo calcSize it stop).map.get x = if x = it then max (s.map.get it) stop else s.map.get x := by
  rw [maybeExpandTo]
  split_ifs with hle hx hx
  · rw [hx, max_eq_left hle]
  · rfl
  · change (s.map.modify it fun _ => stop).get x = _
    rw [OrderedMap.get_modify, if_pos hx, max_eq_right (le_of_not_ge hle)]
  · change (s.map.modify it fun _ => stop).get x = _
    rw [OrderedMap.get_modify, if_neg hx]

theorem absorbed_mergeStep (hit : it ∈ s.map.keys) (hlt : it < b) : Absorbed s.map it b
    ((s.maybeExpandTo calcSize it (s.map.get b)).eraseRange b).map where
  keys x := by
    change x ∈ ((s.maybeExpandTo calcSize it (s.map.get b)).map.erase b).keys ↔ _
    rw [OrderedMap.mem_keys_erase, mem_keys_maybeExpandTo calcSize hit]
  get_it := by
    change ((s.maybeExpandTo calcSize it (s.map.get b)).map.erase b).get it = _
    rw [OrderedMap.get_erase, if_neg hlt.ne, get_maybeExpandTo, if_pos rfl]
  get_of_ne x hxit hxb := by
    change ((s.maybeExpandTo calcSize it (s.map.get b)).map.erase b).get x = _
    rw [OrderedMap.get_erase, if_neg hxb, get_maybeExpandTo, if_neg hxit]

/-- The starts of a list are those after `it`, in their order. -/
structure Following (m : OrderedMap α α) (it : α) (bounds : List α) : Prop where
  sorted : bounds.Pairwise (· < ·)
  mem_iff : ∀ k, k ∈ bounds ↔ k ∈ m.keys ∧ it < k

theorem following_after (s : RangeSizeSet α) (start : α) : Following s.map start (s.after start) where
  sorted := s.map.sorted.filter _
  mem_iff k := by
    rw [after, List.mem_filter, decide_eq_true_eq]

theorem Following.tail {m m' : OrderedMap α α} {bounds : List α} (h : Following m it (b :: bounds))
    (hkeys : ∀ x, x ∈ m'.keys ↔ x ∈ m.keys ∧ x ≠ b) : Following m' it bounds where
  sorted := (List.pairwise_cons.mp h.sorted).2
  mem_iff k := by
    rw [hkeys]
    constructor
    · intro hk
      obtain ⟨hmem, hlt⟩ := (h.mem_iff k).mp (List.mem_cons_of_mem b hk)
      exact ⟨⟨hmem, ((List.pairwise_cons.mp h.sorted).1 k hk).ne'⟩, hlt⟩
    · rintro ⟨⟨hmem, hne⟩, hlt⟩
      exact (List.mem_cons.mp ((h.mem_iff k).mpr ⟨hmem, hlt⟩)).resolve_left hne

theorem Following.first {m : OrderedMap α α} {bounds : List α} (h : Following m it (b :: bounds)) :
    b ∈ m.keys ∧ it < b ∧ ∀ k ∈ m.keys, it < k → b ≤ k := by
  obtain ⟨hmem, hlt⟩ := (h.mem_iff b).mp List.mem_cons_self
  refine ⟨hmem, hlt, fun k hk hitk => ?_⟩
  rcases List.mem_cons.mp ((h.mem_iff k).mpr ⟨hk, hitk⟩) with rfl | htail
  · exact le_rfl
  · exact ((List.pairwise_cons.mp h.sorted).1 k htail).le

/-- **Merging** closes an opened range. -/
theorem mergeFrom_spec {bounds : List α} (h : Opened s.map it stop) (hbounds : Following s.map it bounds)
    (hindexed : Indexed calcSize s) :
    Apart (mergeFrom calcSize it stop bounds s).map ∧ Indexed calcSize (mergeFrom calcSize it stop bounds s) ∧
      ∀ v, Covers (mergeFrom calcSize it stop bounds s).map v ↔ Covers s.map v := by
  induction bounds generalizing s with
  | nil =>
    refine ⟨h.to_apart fun k hk hlt => ?_, hindexed, fun v => Iff.rfl⟩
    exact absurd ((hbounds.mem_iff k).mpr ⟨hk, hlt⟩) List.not_mem_nil
  | cons b bounds ih =>
    obtain ⟨hb, hit, hfirst⟩ := hbounds.first
    rw [mergeFrom]
    by_cases hle : b ≤ stop
    · rw [if_pos hle]
      have habsorbed := absorbed_mergeStep calcSize h.mem hit
      obtain ⟨hapart, hindexed', hcovers⟩ := ih (habsorbed.opened h hb hit hfirst hle)
        (hbounds.tail habsorbed.keys) ((hindexed.maybeExpandTo it _).eraseRange b)
      exact ⟨hapart, hindexed', fun v => (hcovers v).trans (habsorbed.covers h hb hit hle v)⟩
    · rw [if_neg hle]
      exact ⟨h.to_apart fun k hk hlt => (not_le.mp hle).trans_le (hfirst k hk hlt), hindexed, fun v => Iff.rfl⟩

theorem opened_emplace (h : Apart s.map) (hlt : start < stop)
    (hbelow : ∀ k ∈ s.map.keys, k ≤ start → s.map.get k < start) :
    start ∉ s.map.keys ∧ Opened (s.map.emplace start stop) start stop ∧
      ∀ v, Covers (s.map.emplace start stop) v ↔ Covers s.map v ∨ (start ≤ v ∧ v < stop) := by
  have hnew : start ∉ s.map.keys := fun hmem =>
    lt_asymm (h.nonempty start hmem) (hbelow start hmem le_rfl)
  have hget : ∀ x, (s.map.emplace start stop).get x = if x = start then stop else s.map.get x := by
    intro x
    rw [OrderedMap.get_emplace]
    simp only [hnew, not_false_eq_true, and_true]
  refine ⟨hnew, ⟨?_, ?_, ?_, ?_, ?_⟩, fun v => ⟨?_, ?_⟩⟩
  · exact (OrderedMap.mem_keys_emplace _ _ _ _).mpr (Or.inl rfl)
  · intro k hk
    rw [hget]
    split_ifs with hks
    · rwa [hks]
    · exact h.nonempty k (((OrderedMap.mem_keys_emplace _ _ _ _).mp hk).resolve_left hks)
  · intro k hk hks k' hk' hkk'
    have hkm := ((OrderedMap.mem_keys_emplace _ _ _ _).mp hk).resolve_left hks
    rw [hget, if_neg hks]
    rcases (OrderedMap.mem_keys_emplace _ _ _ _).mp hk' with rfl | hkm'
    · exact hbelow k hkm hkk'.le
    · exact h.apart k hkm k' hkm' hkk'
  · rw [hget, if_pos rfl]
  · intro hmore
    rw [hget, if_pos rfl] at hmore
    exact absurd hmore (lt_irrefl stop)
  · rintro ⟨k, hk, hle, hkv⟩
    rw [hget] at hkv
    split_ifs at hkv with hks
    · exact Or.inr ⟨hks ▸ hle, hkv⟩
    · exact Or.inl ⟨k, ((OrderedMap.mem_keys_emplace _ _ _ _).mp hk).resolve_left hks, hle, hkv⟩
  · rintro (⟨k, hk, hle, hkv⟩ | ⟨hle, hv⟩)
    · refine ⟨k, (OrderedMap.mem_keys_emplace _ _ _ _).mpr (Or.inr hk), hle, ?_⟩
      rwa [hget, if_neg fun hks : k = start => hnew (hks ▸ hk)]
    · refine ⟨start, (OrderedMap.mem_keys_emplace _ _ _ _).mpr (Or.inl rfl), hle, ?_⟩
      rwa [hget, if_pos rfl]

/-- The range that reaches the new one is expanded. -/
theorem opened_expand (h : Apart s.map) (hit : it ∈ s.map.keys) (hle : it ≤ start) (hreach : start ≤ s.map.get it) :
    Opened (s.maybeExpandTo calcSize it stop).map it stop ∧
      ∀ v, Covers (s.maybeExpandTo calcSize it stop).map v ↔ Covers s.map v ∨ (start ≤ v ∧ v < stop) := by
  have hkeys : ∀ x, x ∈ (s.maybeExpandTo calcSize it stop).map.keys ↔ x ∈ s.map.keys :=
    mem_keys_maybeExpandTo calcSize hit
  have hget : ∀ x, (s.maybeExpandTo calcSize it stop).map.get x =
      if x = it then max (s.map.get it) stop else s.map.get x := get_maybeExpandTo calcSize
  refine ⟨⟨(hkeys it).mpr hit, ?_, ?_, ?_, ?_⟩, fun v => ⟨?_, ?_⟩⟩
  · intro k hk
    rw [hget]
    split_ifs with hki
    · rw [hki]
      exact lt_max_of_lt_left (h.nonempty it hit)
    · exact h.nonempty k ((hkeys k).mp hk)
  · intro k hk hki k' hk' hlt
    rw [hget, if_neg hki]
    exact h.apart k ((hkeys k).mp hk) k' ((hkeys k').mp hk') hlt
  · rw [hget, if_pos rfl]
    exact le_max_right _ _
  · intro hmore k hk hlt
    rw [hget, if_pos rfl] at hmore ⊢
    have hless : stop < s.map.get it := (lt_max_iff.mp hmore).resolve_right (lt_irrefl stop)
    rw [max_eq_left hless.le]
    exact h.apart it hit k ((hkeys k).mp hk) hlt
  · rintro ⟨k, hk, hkle, hkv⟩
    rw [hget] at hkv
    split_ifs at hkv with hki
    · rw [hki] at hkle
      rcases lt_or_ge v (s.map.get it) with hinside | houtside
      · exact Or.inl ⟨it, hit, hkle, hinside⟩
      · exact Or.inr ⟨hreach.trans houtside, (lt_max_iff.mp hkv).resolve_left (not_lt.mpr houtside)⟩
    · exact Or.inl ⟨k, (hkeys k).mp hk, hkle, hkv⟩
  · rintro (⟨k, hk, hkle, hkv⟩ | ⟨hsv, hv⟩)
    · refine ⟨k, (hkeys k).mpr hk, hkle, ?_⟩
      rw [hget]
      split_ifs with hki
      · exact lt_max_of_lt_left (hki ▸ hkv)
      · exact hkv
    · refine ⟨it, (hkeys it).mpr hit, hle.trans hsv, ?_⟩
      rw [hget, if_pos rfl]
      exact lt_max_of_lt_right hv

/-- The values from `start` up to `stop` are added. -/
structure Adds (s s' : RangeSizeSet α) (start stop : α) : Prop where
  apart : Apart s'.map
  indexed : Indexed calcSize s'
  covers_iff : ∀ v, Covers s'.map v ↔ Covers s.map v ∨ (start ≤ v ∧ v < stop)

theorem Following.of_keys {m m' : OrderedMap α α} {bounds : List α} (h : Following m start bounds)
    (hkeys : ∀ x, start < x → (x ∈ m'.keys ↔ x ∈ m.keys)) (hgap : ∀ x ∈ m'.keys, it < x → start < x)
    (hle : it ≤ start) : Following m' it bounds where
  sorted := h.sorted
  mem_iff k := by
    rw [h.mem_iff]
    constructor
    · rintro ⟨hk, hlt⟩
      exact ⟨(hkeys k hlt).mpr hk, hle.trans_lt hlt⟩
    · rintro ⟨hk, hlt⟩
      have hstart := hgap k hk hlt
      exact ⟨(hkeys k hstart).mp hk, hstart⟩

theorem get_lt_of_prev {m : OrderedMap α α} (h : Apart m) (hprev : m.prev start = some it) (hlt : m.get it < start) :
    ∀ k ∈ m.keys, k ≤ start → m.get k < start := by
  obtain ⟨hit, -, hmax⟩ := OrderedMap.prev_eq_some hprev
  intro k hk hle
  rcases (hmax k hk hle).eq_or_lt with rfl | hless
  · exact hlt
  · exact (h.apart k hk it hit hless).trans ((h.nonempty it hit).trans hlt)

theorem Following.emplace {m : OrderedMap α α} {bounds : List α} (h : Following m start bounds) (stop : α) :
    Following (m.emplace start stop) start bounds := by
  refine h.of_keys (fun x hx => ?_) (fun x _ hx => hx) le_rfl
  rw [OrderedMap.mem_keys_emplace]
  exact or_iff_right hx.ne'

/-- A range that is not reached from before. -/
theorem insertMerge_adds (h : Apart s.map) (hindexed : Indexed calcSize s) (hlt : start < stop)
    (hbelow : ∀ k ∈ s.map.keys, k ≤ start → s.map.get k < start) {bounds : List α}
    (hbounds : Following s.map start bounds) :
    Adds calcSize s (mergeFrom calcSize start stop bounds (s.insertRange calcSize start stop)) start stop := by
  obtain ⟨hnew, hopened, hcovers⟩ := opened_emplace h hlt hbelow
  obtain ⟨hapart, hindexed', hmerged⟩ := mergeFrom_spec calcSize (s := s.insertRange calcSize start stop) hopened
    (hbounds.emplace stop) (hindexed.insertRange hnew stop)
  exact ⟨hapart, hindexed', fun v => (hmerged v).trans (hcovers v)⟩

/-- The range before is reached. -/
theorem expandMerge_adds (h : Apart s.map) (hindexed : Indexed calcSize s) {bound : α}
    (hprev : s.map.prev start = some bound) {bounds : List α} (hbounds : Following s.map start bounds)
    (hreach : start ≤ s.map.get bound) :
    Adds calcSize s (mergeFrom calcSize bound stop bounds (s.maybeExpandTo calcSize bound stop)) start stop := by
  obtain ⟨hbound, hle, hmax⟩ := OrderedMap.prev_eq_some hprev
  obtain ⟨hopened, hcovers⟩ : Opened (s.maybeExpandTo calcSize bound stop).map bound stop ∧ _ :=
    opened_expand calcSize h hbound hle hreach
  have hbounds' : Following (s.maybeExpandTo calcSize bound stop).map bound bounds := by
    refine hbounds.of_keys (fun x _ => mem_keys_maybeExpandTo calcSize hbound x) (fun x hx hbx => ?_) hle
    have hmem := (mem_keys_maybeExpandTo calcSize hbound x).mp hx
    exact lt_of_not_ge fun hxs => absurd hbx (not_lt.mpr (hmax x hmem hxs))
  obtain ⟨hapart, hindexed', hmerged⟩ :=
    mergeFrom_spec calcSize hopened hbounds' (hindexed.maybeExpandTo bound stop)
  exact ⟨hapart, hindexed', fun v => (hmerged v).trans (hcovers v)⟩

/-- The first range after `start` is taken in when the new one is made. -/
theorem absorbed_insertRange (hnew : start ∉ s.map.keys) (hstart : start < b) :
    Absorbed (s.map.emplace start stop) start b ((s.insertRange calcSize start
      (if s.map.get b ≤ stop then stop else s.map.get b)).eraseRange b).map := by
  have hgetAbound : (s.map.emplace start stop).get b = s.map.get b := by
    rw [OrderedMap.get_emplace, if_neg fun heq => hstart.ne' heq.1]
  have hgetStart : ∀ w, (s.map.emplace start w).get start = w := fun w => by
    rw [OrderedMap.get_emplace, if_pos ⟨rfl, hnew⟩]
  refine ⟨fun x => ?_, ?_, fun x hxs hxa => ?_⟩
  · change x ∈ ((s.map.emplace start _).erase b).keys ↔ _
    rw [OrderedMap.mem_keys_erase, OrderedMap.mem_keys_emplace, OrderedMap.mem_keys_emplace]
  · change ((s.map.emplace start _).erase b).get start = _
    rw [OrderedMap.get_erase, if_neg hstart.ne, hgetStart, hgetStart, hgetAbound]
    split_ifs with hcase
    · exact (max_eq_left hcase).symm
    · exact (max_eq_right (le_of_not_ge hcase)).symm
  · change ((s.map.emplace start _).erase b).get x = _
    rw [OrderedMap.get_erase, if_neg hxa, OrderedMap.get_emplace, if_neg fun heq => hxs heq.1,
      OrderedMap.get_emplace, if_neg fun heq => hxs heq.1]

theorem takeInMerge_adds (h : Apart s.map) (hindexed : Indexed calcSize s) (hlt : start < stop)
    (hbelow : ∀ k ∈ s.map.keys, k ≤ start → s.map.get k < start) {bounds : List α}
    (hbounds : Following s.map start (b :: bounds)) (hmeets : b ≤ stop) :
    Adds calcSize s (mergeFrom calcSize start stop bounds ((s.insertRange calcSize start
      (if s.map.get b ≤ stop then stop else s.map.get b)).eraseRange b)) start stop := by
  obtain ⟨hb, hstart, hfirst⟩ := hbounds.first
  obtain ⟨hnew, hopened, hcovers⟩ := opened_emplace h hlt hbelow
  have habsorbed : Absorbed (s.map.emplace start stop) start b _ := absorbed_insertRange calcSize hnew hstart
  have hmem : b ∈ (s.map.emplace start stop).keys := (OrderedMap.mem_keys_emplace _ _ _ _).mpr (Or.inr hb)
  have hfirst' : ∀ k ∈ (s.map.emplace start stop).keys, start < k → b ≤ k := fun k hk hsk =>
    hfirst k (((OrderedMap.mem_keys_emplace _ _ _ _).mp hk).resolve_left hsk.ne') hsk
  obtain ⟨hapart, hindexed', hmerged⟩ := mergeFrom_spec calcSize
    (habsorbed.opened hopened hmem hstart hfirst' hmeets) ((hbounds.emplace stop).tail habsorbed.keys)
    ((hindexed.insertRange hnew _).eraseRange b)
  refine ⟨hapart, hindexed', fun v => ?_⟩
  exact (hmerged v).trans ((habsorbed.covers hopened hmem hstart hmeets v).trans (hcovers v))

/-- **Inserting** adds the values. -/
theorem insert_spec (h : Apart s.map) (hindexed : Indexed calcSize s) (start stop : α) :
    Adds calcSize s (s.insert calcSize start stop) start stop := by
  rw [insert]
  by_cases hempty : stop ≤ start
  · rw [if_pos hempty]
    refine ⟨h, hindexed, fun v => ⟨Or.inl, fun hv => hv.resolve_right fun hin => ?_⟩⟩
    exact absurd (hin.1.trans_lt hin.2) (not_lt.mpr hempty)
  rw [if_neg hempty]
  have hlt : start < stop := not_le.mp hempty
  have hfollowing := following_after s start
  cases hprev : s.map.prev start with
  | none =>
    have hall := OrderedMap.prev_eq_none hprev
    have hadds := insertMerge_adds calcSize h hindexed hlt
      (fun k hk hle => absurd (hall k hk) (not_lt.mpr hle)) hfollowing
    cases hafter : s.after start with
    | nil =>
      rw [hafter] at hadds
      exact hadds
    | cons abound rest =>
      rw [hafter] at hadds
      exact hadds
  | some bound =>
    cases hafter : s.after start with
    | nil =>
      rw [hafter] at hfollowing
      dsimp only
      by_cases hreach : s.map.get bound < start
      · rw [if_pos hreach]
        exact insertMerge_adds calcSize h hindexed hlt (get_lt_of_prev h hprev hreach) hfollowing
      · rw [if_neg hreach]
        exact expandMerge_adds calcSize h hindexed hprev hfollowing (not_lt.mp hreach)
    | cons abound rest =>
      rw [hafter] at hfollowing
      dsimp only
      by_cases hreach : start ≤ s.map.get bound
      · rw [if_pos hreach]
        exact expandMerge_adds calcSize h hindexed hprev hfollowing hreach
      rw [if_neg hreach]
      have hbelow := get_lt_of_prev h hprev (not_le.mp hreach)
      by_cases hmeets : abound ≤ stop
      · rw [if_pos hmeets]
        exact takeInMerge_adds calcSize h hindexed hlt hbelow hfollowing hmeets
      · rw [if_neg hmeets]
        have hadds := insertMerge_adds calcSize h hindexed hlt hbelow hfollowing
        rw [mergeFrom, if_neg hmeets] at hadds
        exact hadds

/-! ## Erasing -/

/-- The values from `start` up to `stop` are removed. -/
structure Removes (s s' : RangeSizeSet α) (start stop : α) : Prop where
  apart : Apart s'.map
  indexed : Indexed calcSize s'
  covers_iff : ∀ v, Covers s'.map v ↔ Covers s.map v ∧ ¬(start ≤ v ∧ v < stop)

variable {calcSize} {t u : RangeSizeSet α} {start' stop' : α}

theorem Removes.refl (h : Apart s.map) (hindexed : Indexed calcSize s)
    (hnone : ∀ v, Covers s.map v → ¬(start ≤ v ∧ v < stop)) : Removes calcSize s s start stop :=
  ⟨h, hindexed, fun v => ⟨fun hv => ⟨hv, hnone v hv⟩, And.left⟩⟩

/-- The values between the bounds are the same ones. -/
theorem Removes.congr (h : Removes calcSize s t start stop)
    (hsame : ∀ v, Covers s.map v → (start ≤ v ∧ v < stop ↔ start' ≤ v ∧ v < stop')) :
    Removes calcSize s t start' stop' :=
  ⟨h.apart, h.indexed, fun v => (h.covers_iff v).trans (and_congr_right fun hv => not_congr (hsame v hv))⟩

/-- The second step removes more. -/
theorem Removes.trans (h : Removes calcSize s t start stop) (h' : Removes calcSize t u start' stop')
    (hmore : ∀ v, Covers s.map v → start ≤ v ∧ v < stop → start' ≤ v ∧ v < stop') :
    Removes calcSize s u start' stop' := by
  refine ⟨h'.apart, h'.indexed, fun v => ?_⟩
  rw [h'.covers_iff, h.covers_iff]
  constructor
  · rintro ⟨⟨hv, -⟩, hnot⟩
    exact ⟨hv, hnot⟩
  · rintro ⟨hv, hnot⟩
    exact ⟨⟨hv, fun hin => hnot (hmore v hv hin)⟩, hnot⟩

theorem Apart.unique {m : OrderedMap α α} (h : Apart m) {k k' v : α} (hk : k ∈ m.keys) (hk' : k' ∈ m.keys)
    (hv : k ≤ v ∧ v < m.get k) (hv' : k' ≤ v ∧ v < m.get k') : k = k' := by
  rcases lt_trichotomy k k' with hlt | heq | hgt
  · exact absurd ((h.apart k hk k' hk' hlt).trans_le hv'.1) (not_lt.mpr hv.2.le)
  · exact heq
  · exact absurd ((h.apart k' hk' k hk hgt).trans_le hv.1) (not_lt.mpr hv'.2.le)

theorem eraseRange_removes (h : Apart s.map) (hindexed : Indexed calcSize s) (hit : it ∈ s.map.keys) :
    Removes calcSize s (s.eraseRange it) it (s.map.get it) where
  apart := by
    have hkeys := fun x => OrderedMap.mem_keys_erase s.map it x
    refine ⟨fun k hk => ?_, fun k hk k' hk' hlt => ?_⟩
    · change k < (s.map.erase it).get k
      rw [OrderedMap.get_erase, if_neg ((hkeys k).mp hk).2]
      exact h.nonempty k ((hkeys k).mp hk).1
    · change (s.map.erase it).get k < k'
      rw [OrderedMap.get_erase, if_neg ((hkeys k).mp hk).2]
      exact h.apart k ((hkeys k).mp hk).1 k' ((hkeys k').mp hk').1 hlt
  indexed := hindexed.eraseRange it
  covers_iff v := by
    constructor
    · rintro ⟨k, hk, hle, hlt⟩
      obtain ⟨hmem, hne⟩ := (OrderedMap.mem_keys_erase _ _ _).mp hk
      change v < (s.map.erase it).get k at hlt
      rw [OrderedMap.get_erase, if_neg hne] at hlt
      exact ⟨⟨k, hmem, hle, hlt⟩, fun hv => hne (h.unique hmem hit ⟨hle, hlt⟩ hv)⟩
    · rintro ⟨⟨k, hk, hle, hlt⟩, hnot⟩
      have hne : k ≠ it := fun heq => hnot (heq ▸ ⟨hle, hlt⟩)
      refine ⟨k, (OrderedMap.mem_keys_erase _ _ _).mpr ⟨hk, hne⟩, hle, ?_⟩
      change v < (s.map.erase it).get k
      rwa [OrderedMap.get_erase, if_neg hne]

theorem setTo_removes (h : Apart s.map) (hindexed : Indexed calcSize s) (hit : it ∈ s.map.keys) (hlt : it < stop)
    (hle : stop ≤ s.map.get it) : Removes calcSize s (s.setTo calcSize it stop) stop (s.map.get it) := by
  have hkeys : ∀ x, x ∈ (s.setTo calcSize it stop).map.keys ↔ x ∈ s.map.keys := mem_keys_setTo calcSize hit
  have hget : ∀ x, (s.setTo calcSize it stop).map.get x = if x = it then stop else s.map.get x := fun x =>
    OrderedMap.get_modify _ _ _ fun _ => stop
  refine ⟨⟨fun k hk => ?_, fun k hk k' hk' hkk' => ?_⟩, hindexed.setTo it stop, fun v => ⟨?_, ?_⟩⟩
  · rw [hget]
    split_ifs with hki
    · rwa [hki]
    · exact h.nonempty k ((hkeys k).mp hk)
  · have hapart := h.apart k ((hkeys k).mp hk) k' ((hkeys k').mp hk') hkk'
    rw [hget]
    split_ifs with hki
    · exact hle.trans_lt (hki ▸ hapart)
    · exact hapart
  · rintro ⟨k, hk, hkle, hkv⟩
    rw [hget] at hkv
    split_ifs at hkv with hki
    · rw [hki] at hkle
      exact ⟨⟨it, hit, hkle, hkv.trans_le hle⟩, fun hv => absurd hkv (not_lt.mpr hv.1)⟩
    · have hmem := (hkeys k).mp hk
      refine ⟨⟨k, hmem, hkle, hkv⟩, fun hv => hki ?_⟩
      exact h.unique hmem hit ⟨hkle, hkv⟩ ⟨hlt.le.trans hv.1, hv.2⟩
  · rintro ⟨⟨k, hk, hkle, hkv⟩, hnot⟩
    refine ⟨k, (hkeys k).mpr hk, hkle, ?_⟩
    rw [hget]
    split_ifs with hki
    · rw [hki] at hkv
      exact lt_of_not_ge fun hsv => hnot ⟨hsv, hkv⟩
    · exact hkv

theorem insertRange_adds (h : Apart s.map) (hindexed : Indexed calcSize s) (hlt : start < stop)
    (hbelow : ∀ k ∈ s.map.keys, k ≤ start → s.map.get k < start) (habove : ∀ k ∈ s.map.keys, start < k → stop < k) :
    Adds calcSize s (s.insertRange calcSize start stop) start stop := by
  obtain ⟨hnew, hopened, hcovers⟩ := opened_emplace h hlt hbelow
  refine ⟨hopened.to_apart fun k hk hsk => ?_, hindexed.insertRange hnew stop, hcovers⟩
  exact habove k (((OrderedMap.mem_keys_emplace _ _ _ _).mp hk).resolve_left hsk.ne') hsk

theorem reduceFrom_removes (h : Apart s.map) (hindexed : Indexed calcSize s) (hit : it ∈ s.map.keys)
    (hlt : it < stop)
    (hget : stop < s.map.get it) : Removes calcSize s (s.reduceFrom calcSize it stop) it stop := by
  have herase := eraseRange_removes h hindexed hit
  have hkeys : ∀ k ∈ (s.eraseRange it).map.keys, k ∈ s.map.keys ∧ k ≠ it := fun k hk =>
    (OrderedMap.mem_keys_erase _ _ _).mp hk
  have hadds := insertRange_adds herase.apart herase.indexed hget
    (fun k hk hle => by
      obtain ⟨hmem, hne⟩ := hkeys k hk
      change (s.map.erase it).get k < stop
      rw [OrderedMap.get_erase, if_neg hne]
      rcases lt_or_gt_of_ne hne with hbefore | hafter
      · exact (h.apart k hmem it hit hbefore).trans hlt
      · exact absurd (h.apart it hit k hmem hafter) (not_lt.mpr (hle.trans hget.le)))
    (fun k hk hsk => by
      obtain ⟨hmem, hne⟩ := hkeys k hk
      exact h.apart it hit k hmem (hlt.trans hsk))
  refine ⟨hadds.apart, hadds.indexed, fun v => ?_⟩
  rw [reduceFrom, hadds.covers_iff, herase.covers_iff]
  constructor
  · rintro (⟨hv, hnot⟩ | ⟨hle, hv⟩)
    · exact ⟨hv, fun hin => hnot ⟨hin.1, hin.2.trans hget⟩⟩
    · exact ⟨⟨it, hit, hlt.le.trans hle, hv⟩, fun hin => absurd hin.2 (not_lt.mpr hle)⟩
  · rintro ⟨hv, hnot⟩
    by_cases hin : it ≤ v ∧ v < s.map.get it
    · exact Or.inr ⟨le_of_not_gt fun hvs => hnot ⟨hin.1, hvs⟩, hin.2⟩
    · exact Or.inl ⟨hv, hin⟩

theorem bisectRange_removes (h : Apart s.map) (hindexed : Indexed calcSize s) (hit : it ∈ s.map.keys)
    (hstart : it < start) (hlt : start < stop) (hget : stop < s.map.get it) :
    Removes calcSize s (s.bisectRange calcSize it start stop) start stop := by
  have hset := setTo_removes h hindexed hit hstart (hlt.trans hget).le
  have hkeys : ∀ k ∈ (s.setTo calcSize it start).map.keys, k ∈ s.map.keys := fun k hk =>
    (mem_keys_setTo calcSize hit k).mp hk
  have hadds := insertRange_adds hset.apart hset.indexed hget
    (fun k hk hle => by
      change (s.map.modify it fun _ => start).get k < stop
      rw [OrderedMap.get_modify]
      split_ifs with hki
      · exact hlt
      · rcases lt_or_gt_of_ne hki with hbefore | hafter
        · exact (h.apart k (hkeys k hk) it hit hbefore).trans (hstart.trans hlt)
        · exact absurd (h.apart it hit k (hkeys k hk) hafter) (not_lt.mpr (hle.trans hget.le)))
    (fun k hk hsk => h.apart it hit k (hkeys k hk) ((hstart.trans hlt).trans hsk))
  refine ⟨hadds.apart, hadds.indexed, fun v => ?_⟩
  rw [bisectRange, hadds.covers_iff, hset.covers_iff]
  constructor
  · rintro (⟨hv, hnot⟩ | ⟨hle, hv⟩)
    · exact ⟨hv, fun hin => hnot ⟨hin.1, hin.2.trans hget⟩⟩
    · exact ⟨⟨it, hit, (hstart.trans hlt).le.trans hle, hv⟩, fun hin => absurd hin.2 (not_lt.mpr hle)⟩
  · rintro ⟨hv, hnot⟩
    by_cases hin : start ≤ v ∧ v < s.map.get it
    · exact Or.inr ⟨le_of_not_gt fun hvs => hnot ⟨hin.1, hvs⟩, hin.2⟩
    · exact Or.inl ⟨hv, hin⟩

/-- What is before the ranges of a list ends before `start`. -/
structure Erasable (m : OrderedMap α α) (start : α) (bounds : List α) : Prop where
  sorted : bounds.Pairwise (· < ·)
  mem : ∀ k ∈ bounds, k ∈ m.keys ∧ start ≤ k
  rest : ∀ k ∈ m.keys, k ∈ bounds ∨ m.get k ≤ start

theorem Erasable.le_of_covers {m : OrderedMap α α} {bounds : List α} (h : Erasable m start (b :: bounds)) {v : α}
    (hv : Covers m v) (hle : start ≤ v) : b ≤ v := by
  obtain ⟨k, hk, hkv, hlt⟩ := hv
  rcases h.rest k hk with hmem | hget
  · rcases List.mem_cons.mp hmem with rfl | htail
    · exact hkv
    · exact ((List.pairwise_cons.mp h.sorted).1 k htail).le.trans hkv
  · exact absurd (hlt.trans_le hget) (not_lt.mpr hle)

theorem Erasable.eraseRange {bounds : List α} (h : Erasable s.map start (b :: bounds)) :
    Erasable (s.eraseRange b).map start bounds where
  sorted := (List.pairwise_cons.mp h.sorted).2
  mem k hk := by
    obtain ⟨hmem, hle⟩ := h.mem k (List.mem_cons_of_mem b hk)
    have hne := ((List.pairwise_cons.mp h.sorted).1 k hk).ne'
    exact ⟨(OrderedMap.mem_keys_erase _ _ _).mpr ⟨hmem, hne⟩, hle⟩
  rest k hk := by
    obtain ⟨hmem, hne⟩ := (OrderedMap.mem_keys_erase _ _ _).mp hk
    rcases h.rest k hmem with hin | hget
    · exact Or.inl ((List.mem_cons.mp hin).resolve_left hne)
    · refine Or.inr ?_
      change (s.map.erase b).get k ≤ start
      rwa [OrderedMap.get_erase, if_neg hne]

/-- **Erasing from an iterator on.** -/
theorem eraseFrom_removes {bounds : List α} (h : Apart s.map) (hindexed : Indexed calcSize s)
    (hbounds : Erasable s.map start bounds) : Removes calcSize s (eraseFrom calcSize stop bounds s) start stop := by
  induction bounds generalizing s with
  | nil =>
    refine .refl h hindexed fun v hv hin => ?_
    obtain ⟨k, hk, hkv, hlt⟩ := hv
    have hget := (hbounds.rest k hk).resolve_left List.not_mem_nil
    exact absurd (hlt.trans_le hget) (not_lt.mpr hin.1)
  | cons b bounds ih =>
    obtain ⟨hb, hstart⟩ := hbounds.mem b List.mem_cons_self
    have hreach : ∀ v, Covers s.map v → start ≤ v → b ≤ v := fun v hv hle => hbounds.le_of_covers hv hle
    rw [eraseFrom]
    by_cases hbefore : stop ≤ b
    · rw [if_pos hbefore]
      exact .refl h hindexed fun v hv hin =>
        absurd (hin.2.trans_le (hbefore.trans (hreach v hv hin.1))) (lt_irrefl v)
    rw [if_neg hbefore]
    have hafter : b < stop := not_le.mp hbefore
    -- what is removed from `b` on is what is removed from `start` on
    have hsame : ∀ v, Covers s.map v → (b ≤ v ∧ v < stop ↔ start ≤ v ∧ v < stop) := fun v hv =>
      ⟨fun hin => ⟨hstart.trans hin.1, hin.2⟩, fun hin => ⟨hreach v hv hin.1, hin.2⟩⟩
    by_cases hmiddle : stop < s.map.get b
    · rw [if_pos hmiddle]
      exact (reduceFrom_removes h hindexed hb hafter hmiddle).congr hsame
    rw [if_neg hmiddle]
    have herase := eraseRange_removes h hindexed hb
    by_cases hend : stop = s.map.get b
    · rw [if_pos hend]
      rw [← hend] at herase
      exact herase.congr hsame
    · rw [if_neg hend]
      have hmore : s.map.get b < stop := lt_of_le_of_ne (not_lt.mp hmiddle) (Ne.symm hend)
      exact herase.trans (ih herase.apart herase.indexed hbounds.eraseRange) fun v hv hin =>
        (hsame v hv).mp ⟨hin.1, hin.2.trans hmore⟩

theorem Erasable.of_following {m : OrderedMap α α} {bounds : List α} (h : Following m start bounds)
    (hbelow : ∀ k ∈ m.keys, k ≤ start → m.get k ≤ start) : Erasable m start bounds where
  sorted := h.sorted
  mem k hk := ⟨((h.mem_iff k).mp hk).1, ((h.mem_iff k).mp hk).2.le⟩
  rest k hk := by
    rcases lt_or_ge start k with hlt | hle
    · exact Or.inl ((h.mem_iff k).mpr ⟨hk, hlt⟩)
    · exact Or.inr (hbelow k hk hle)

/-- The range of `bound` is the last one that starts at or before `start`. -/
structure Before (m : OrderedMap α α) (start bound : α) : Prop where
  mem : bound ∈ m.keys
  le : bound ≤ start
  apart : ∀ k ∈ m.keys, k ≤ start → k ≠ bound → m.get k < bound

theorem Apart.before {m : OrderedMap α α} (h : Apart m) {bound : α} (hprev : m.prev start = some bound) :
    Before m start bound := by
  obtain ⟨hbound, hle, hmax⟩ := OrderedMap.prev_eq_some hprev
  exact ⟨hbound, hle, fun k hk hks hne => h.apart k hk bound hbound (lt_of_le_of_ne (hmax k hk hks) hne)⟩

theorem Before.get_le {m : OrderedMap α α} {bound : α} (h : Before m start bound) (hget : m.get bound ≤ start) :
    ∀ k ∈ m.keys, k ≤ start → m.get k ≤ start := by
  intro k hk hks
  by_cases hne : k = bound
  · rwa [hne]
  · exact (h.apart k hk hks hne).le.trans h.le

/-- No range starts behind `start`. -/
theorem eraseLast_removes (h : Apart s.map) (hindexed : Indexed calcSize s) (hlt : start < stop) {bound : α}
    (hbefore : Before s.map start bound) (hfollowing : Following s.map start []) :
    Removes calcSize s (if s.map.get bound ≤ start then s else if s.map.get bound ≤ stop then
        if start = bound then s.eraseRange bound else s.setTo calcSize bound start
      else if start = bound then s.reduceFrom calcSize bound stop else s.bisectRange calcSize bound start stop)
      start stop := by
  have hbound := hbefore.mem
  have hlast : ∀ v, Covers s.map v → v < s.map.get bound := by
    rintro v ⟨k, hk, hkv, hv⟩
    have hks : k ≤ start := le_of_not_gt fun hsk =>
      absurd ((hfollowing.mem_iff k).mpr ⟨hk, hsk⟩) List.not_mem_nil
    by_cases hne : k = bound
    · rwa [← hne]
    · exact (hv.trans (hbefore.apart k hk hks hne)).trans (h.nonempty bound hbound)
  by_cases hget : s.map.get bound ≤ start
  · rw [if_pos hget]
    exact .refl h hindexed fun v hv hin => absurd ((hlast v hv).trans_le hget) (not_lt.mpr hin.1)
  rw [if_neg hget]
  by_cases hstop : s.map.get bound ≤ stop
  · rw [if_pos hstop]
    have hsame : ∀ v, Covers s.map v → (start ≤ v ∧ v < s.map.get bound ↔ start ≤ v ∧ v < stop) := fun v hv =>
      ⟨fun hin => ⟨hin.1, hin.2.trans_le hstop⟩, fun hin => ⟨hin.1, hlast v hv⟩⟩
    by_cases heq : start = bound
    · rw [if_pos heq]
      have herase := eraseRange_removes h hindexed hbound
      exact herase.congr fun v hv => heq ▸ hsame v hv
    · rw [if_neg heq]
      exact (setTo_removes h hindexed hbound (lt_of_le_of_ne hbefore.le (Ne.symm heq))
        (not_le.mp hget).le).congr hsame
  · rw [if_neg hstop]
    by_cases heq : start = bound
    · rw [if_pos heq, heq]
      exact reduceFrom_removes h hindexed hbound (heq ▸ hlt) (not_le.mp hstop)
    · rw [if_neg heq]
      exact bisectRange_removes h hindexed hbound (lt_of_le_of_ne hbefore.le (Ne.symm heq)) hlt (not_le.mp hstop)

/-- The range of `bound`, and the ones that start behind `start`. -/
theorem erasable_cons {bounds : List α} {bound : α} (hbefore : Before s.map start bound)
    (hfollowing : Following s.map start bounds) (heq : start = bound) :
    Erasable s.map start (bound :: bounds) where
  sorted := List.Pairwise.cons (fun k hk => heq ▸ ((hfollowing.mem_iff k).mp hk).2) hfollowing.sorted
  mem k hk := by
    rcases List.mem_cons.mp hk with rfl | htail
    · exact ⟨hbefore.mem, heq.le⟩
    · exact ⟨((hfollowing.mem_iff k).mp htail).1, ((hfollowing.mem_iff k).mp htail).2.le⟩
  rest k hk := by
    by_cases hkb : k = bound
    · exact Or.inl (hkb ▸ List.mem_cons_self)
    rcases lt_or_ge start k with hsk | hks
    · exact Or.inl (List.mem_cons_of_mem _ ((hfollowing.mem_iff k).mpr ⟨hk, hsk⟩))
    · exact Or.inr ((hbefore.apart k hk hks hkb).le.trans hbefore.le)

/-- The range of `bound` is cut before the ones behind it are erased. -/
theorem cutAndErase_removes (h : Apart s.map) (hindexed : Indexed calcSize s) {bounds : List α} {bound : α}
    (hbefore : Before s.map start bound) (hfollowing : Following s.map start bounds) (hstart : bound < start)
    (hinside : start < s.map.get bound) (hstop : s.map.get bound ≤ stop) :
    Removes calcSize s (eraseFrom calcSize stop bounds (s.setTo calcSize bound start)) start stop := by
  have hset := setTo_removes h hindexed hbefore.mem hstart hinside.le
  have hkeys : ∀ k, k ∈ (s.setTo calcSize bound start).map.keys ↔ k ∈ s.map.keys :=
    mem_keys_setTo calcSize hbefore.mem
  have hfollowing' : Following (s.setTo calcSize bound start).map start bounds :=
    hfollowing.of_keys (fun x _ => hkeys x) (fun x _ hx => hx) le_rfl
  have hrest : Removes calcSize _ (eraseFrom calcSize stop _ _) start stop :=
    eraseFrom_removes hset.apart hset.indexed (Erasable.of_following hfollowing' fun k hk hks => by
      change (s.map.modify bound fun _ => start).get k ≤ start
      rw [OrderedMap.get_modify]
      split_ifs with hkb
      · exact le_rfl
      · exact (hbefore.apart k ((hkeys k).mp hk) hks hkb).le.trans hbefore.le)
  exact hset.trans hrest fun v _ hin => ⟨hin.1, hin.2.trans_le hstop⟩

/-- **Erasing** removes the values. -/
theorem erase_spec (h : Apart s.map) (hindexed : Indexed calcSize s) (start stop : α) :
    Removes calcSize s (s.erase calcSize start stop) start stop := by
  rw [erase]
  by_cases hempty : stop ≤ start
  · rw [if_pos hempty]
    exact .refl h hindexed fun v _ hin => absurd (hin.1.trans_lt hin.2) (not_lt.mpr hempty)
  rw [if_neg hempty]
  have hlt : start < stop := not_le.mp hempty
  have hfollowing := following_after s start
  cases hprev : s.map.prev start with
  | none =>
    have hall := OrderedMap.prev_eq_none hprev
    have hremoves : Removes calcSize s (eraseFrom calcSize stop (s.after start) s) start stop :=
      eraseFrom_removes h hindexed (Erasable.of_following hfollowing
      fun k hk hle => absurd (hall k hk) (not_lt.mpr hle))
    cases hafter : s.after start with
    | nil =>
      rw [hafter] at hremoves
      exact hremoves
    | cons abound rest =>
      rw [hafter] at hremoves
      exact hremoves
  | some bound =>
    have hbefore := h.before hprev
    cases hafter : s.after start with
    | nil =>
      rw [hafter] at hfollowing
      exact eraseLast_removes h hindexed hlt hbefore hfollowing
    | cons abound rest =>
      rw [hafter] at hfollowing
      dsimp only
      by_cases heq : start = bound
      · rw [if_pos heq]
        exact eraseFrom_removes h hindexed (erasable_cons hbefore hfollowing heq)
      rw [if_neg heq]
      have hstart : bound < start := lt_of_le_of_ne hbefore.le (Ne.symm heq)
      by_cases hinside : start < s.map.get bound
      · rw [if_pos hinside]
        by_cases hstop : stop < s.map.get bound
        · rw [if_pos hstop]
          exact bisectRange_removes h hindexed hbefore.mem hstart hlt hstop
        · rw [if_neg hstop]
          exact cutAndErase_removes h hindexed hbefore hfollowing hstart hinside (not_lt.mp hstop)
      · rw [if_neg hinside]
        exact eraseFrom_removes h hindexed (Erasable.of_following hfollowing (hbefore.get_le (not_lt.mp hinside)))

theorem contains_iff (h : Apart s.map) (v : α) : s.contains v = true ↔ Covers s.map v := by
  rw [contains]
  cases hprev : s.map.prev v with
  | none =>
    refine iff_of_false Bool.false_ne_true ?_
    rintro ⟨k, hk, hle, -⟩
    exact absurd (OrderedMap.prev_eq_none hprev k hk) (not_lt.mpr hle)
  | some it =>
    obtain ⟨hit, hle, hmax⟩ := OrderedMap.prev_eq_some hprev
    dsimp only
    rw [decide_eq_true_eq]
    constructor
    · exact fun hv => ⟨it, hit, hv⟩
    · rintro ⟨k, hk, hkv, hlt⟩
      refine ⟨hle, ?_⟩
      rcases (hmax k hk hkv).eq_or_lt with heq | hless
      · exact heq ▸ hlt
      · exact absurd ((h.apart k hk it hit hless).trans_le hle) (not_lt.mpr hlt.le)

end Maps

/-! ## Runs -/

section Runs

variable (calcSize : α → α → ℕ)

inductive Operation (α : Type*) where
  | insert (start stop : α)
  | erase (start stop : α)
  | clear

def Operation.apply (s : RangeSizeSet α) : Operation α → RangeSizeSet α
  | .insert start stop => s.insert calcSize start stop
  | .erase start stop => s.erase calcSize start stop
  | .clear => empty

/-- The operation on a set of values. -/
def Operation.applySet (values : Set α) : Operation α → Set α
  | .insert start stop => values ∪ Set.Ico start stop
  | .erase start stop => values \ Set.Ico start stop
  | .clear => ∅

def run (operations : List (Operation α)) : RangeSizeSet α := operations.foldl (Operation.apply calcSize) empty

def runSet (operations : List (Operation α)) : Set α := operations.foldl Operation.applySet ∅

/-- The ranges and the index stand for a set of values. -/
structure Represents (s : RangeSizeSet α) (values : Set α) : Prop where
  apart : Apart s.map
  indexed : Indexed calcSize s
  covers_iff : ∀ v, Covers s.map v ↔ v ∈ values

variable {calcSize}

theorem represents_empty : Represents calcSize (empty : RangeSizeSet α) ∅ where
  apart := ⟨fun _ hk => absurd hk List.not_mem_nil, fun _ hk => absurd hk List.not_mem_nil⟩
  indexed := indexed_empty calcSize
  covers_iff v := iff_of_false (fun ⟨_, hk, _⟩ => List.not_mem_nil hk) (Set.notMem_empty v)

theorem Represents.apply {s : RangeSizeSet α} {values : Set α} (h : Represents calcSize s values)
    (operation : Operation α) : Represents calcSize (operation.apply calcSize s) (operation.applySet values) := by
  cases operation with
  | insert start stop =>
    have hadds := insert_spec calcSize h.apart h.indexed start stop
    exact ⟨hadds.apart, hadds.indexed, fun v => (hadds.covers_iff v).trans (or_congr_left (h.covers_iff v))⟩
  | erase start stop =>
    have hremoves := erase_spec h.apart h.indexed start stop
    exact ⟨hremoves.apart, hremoves.indexed, fun v => (hremoves.covers_iff v).trans
      (and_congr_left' (h.covers_iff v))⟩
  | clear => exact represents_empty

theorem represents_run (operations : List (Operation α)) :
    Represents calcSize (run calcSize operations) (runSet operations) := by
  have hloop : ∀ (operations : List (Operation α)) (s : RangeSizeSet α) (values : Set α),
      Represents calcSize s values →
        Represents calcSize (operations.foldl (Operation.apply calcSize) s)
          (operations.foldl Operation.applySet values) := by
    intro operations
    induction operations with
    | nil => exact fun s values h => h
    | cons operation operations ih => exact fun s values h => ih _ _ (h.apply operation)
  exact hloop operations empty ∅ represents_empty

/-- **Any operations** are those on sets of values: what is contained, that the ranges do not touch, and that the
index has each of them under its size, the largest one first. -/
theorem run_spec (operations : List (Operation α)) :
    (∀ v, (run calcSize operations).contains v = true ↔ v ∈ runSet operations) ∧
      Apart (run calcSize operations).map ∧ Indexed calcSize (run calcSize operations) := by
  have h : Represents calcSize _ _ := represents_run operations
  exact ⟨fun v => (contains_iff h.apart v).trans (h.covers_iff v), h.apart, h.indexed⟩

/-- A start is also one of other ranges for the same values, with the same end. -/
theorem Apart.range_eq {m m' : OrderedMap α α} (h : Apart m) (h' : Apart m')
    (hcovers : ∀ v, Covers m v ↔ Covers m' v)
    {k : α} (hk : k ∈ m.keys) : k ∈ m'.keys ∧ m'.get k = m.get k := by
  -- the end of a range is not in any range
  have hend : ∀ {m : OrderedMap α α}, Apart m → ∀ k ∈ m.keys, ¬Covers m (m.get k) := by
    rintro m h k hk ⟨k', hk', hle, hlt⟩
    rcases lt_trichotomy k k' with hless | rfl | hmore
    · exact absurd (h.apart k hk k' hk' hless) (not_lt.mpr hle)
    · exact absurd hlt (lt_irrefl _)
    · exact absurd ((h.apart k' hk' k hk hmore).trans (h.nonempty k hk)) (not_lt.mpr hlt.le)
  obtain ⟨k', hk', hle, hlt⟩ := (hcovers k).mp ⟨k, hk, le_rfl, h.nonempty k hk⟩
  have heq : k' = k := by
    by_contra hne
    have hless : k' < k := lt_of_le_of_ne hle hne
    obtain ⟨k'', hk'', hle'', hlt''⟩ := (hcovers k').mpr ⟨k', hk', le_rfl, h'.nonempty k' hk'⟩
    have hgap : m.get k'' < k := h.apart k'' hk'' k hk (hle''.trans_lt hless)
    exact hend h k'' hk'' ((hcovers _).mpr ⟨k', hk', hlt''.le, hgap.trans hlt⟩)
  rw [heq] at hk' hlt
  refine ⟨hk', ?_⟩
  rcases lt_trichotomy (m'.get k) (m.get k) with hless | hsame | hmore
  · exact absurd ((hcovers _).mp ⟨k, hk, hlt.le, hless⟩) (hend h' k hk')
  · exact hsame
  · exact absurd ((hcovers _).mpr ⟨k, hk', (h.nonempty k hk).le, hmore⟩) (hend h k hk)

/-- **Equal sets of values have equal ranges**, however they were made. -/
theorem run_map_eq_iff (operations operations' : List (Operation α)) :
    ((∀ k, k ∈ (run calcSize operations).map.keys ↔ k ∈ (run calcSize operations').map.keys) ∧
        ∀ k ∈ (run calcSize operations).map.keys,
          (run calcSize operations).map.get k = (run calcSize operations').map.get k) ↔
      runSet operations = runSet operations' := by
  have h : Represents calcSize _ _ := represents_run operations
  have h' : Represents calcSize _ _ := represents_run operations'
  constructor
  · rintro ⟨hkeys, hget⟩
    refine Set.ext fun v => ?_
    rw [← h.covers_iff, ← h'.covers_iff]
    constructor
    · rintro ⟨k, hk, hle, hlt⟩
      exact ⟨k, (hkeys k).mp hk, hle, hget k hk ▸ hlt⟩
    · rintro ⟨k, hk, hle, hlt⟩
      have hmem := (hkeys k).mpr hk
      exact ⟨k, hmem, hle, (hget k hmem).symm ▸ hlt⟩
  · intro hsets
    have hcovers : ∀ v, Covers (run calcSize operations).map v ↔ Covers (run calcSize operations').map v :=
      fun v => by
      rw [h.covers_iff, h'.covers_iff, hsets]
    refine ⟨fun k => ⟨fun hk => (h.apart.range_eq h'.apart hcovers hk).1, fun hk => ?_⟩, fun k hk => ?_⟩
    · exact (h'.apart.range_eq h.apart (fun v => (hcovers v).symm) hk).1
    · exact (h.apart.range_eq h'.apart hcovers hk).2.symm

end Runs

end RangeSizeSet

end HyoutaUtilities
