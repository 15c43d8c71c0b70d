import Mathlib.Data.List.Sort

/-!
# Binary heaps in a vector

* `IsHeap le l`: no element of the vector `l` comes before its parent.
* `IsHeap.head_le`: the first element of a heap is a least element.
* `IsHeap.head?_eq`: which element that is does not depend on how the heap is laid out.
* `HeapOps le`: the three operations `push_heap`, `pop_heap` and `make_heap` together with what they
  promise. Results about a program that keeps a heap are stated for every `HeapOps`.
* `HeapOps.ofSort`: one such family of operations, which keeps the vector sorted.
-/

set_option autoImplicit false

namespace BinaryHeap

variable {α : Type*}

/-- The vector `l` is a min-heap: each element but the first is preceded by its parent. -/
def IsHeap (le : α → α → Prop) (l : List α) : Prop :=
  ∀ i (hi : i < l.length) (hp : (i - 1) / 2 < l.length), 0 < i → le l[(i - 1) / 2] l[i]

theorem isHeap_nil (le : α → α → Prop) : IsHeap le [] := fun i hi => absurd hi (by simp)

/-- **The root of a heap is a least element.** -/
theorem IsHeap.head_le {le : α → α → Prop} [Std.Refl le] [IsTrans α le] {x : α} {l : List α}
    (h : IsHeap le (x :: l)) : ∀ y ∈ x :: l, le x y := by
  have hidx : ∀ i (hi : i < (x :: l).length), le x (x :: l)[i] := by
    intro i
    induction i using Nat.strongRecOn with
    | ind i ih =>
      intro hi
      rcases Nat.eq_zero_or_pos i with rfl | hpos
      · exact Std.Refl.refl x
      · have hp : (i - 1) / 2 < (x :: l).length := by omega
        have hparent := ih ((i - 1) / 2) (by omega) hp
        exact IsTrans.trans _ _ _ hparent (h i hi hp hpos)
  intro y hy
  obtain ⟨i, hi, rfl⟩ := List.getElem_of_mem hy
  exact hidx i hi

theorem isHeap_of_pairwise {le : α → α → Prop} {l : List α} (h : l.Pairwise le) : IsHeap le l := by
  intro i hi hp hpos
  exact List.pairwise_iff_getElem.mp h _ _ hp hi (by omega)

/-- Two heaps of the same elements have the same root, when no two elements tie. -/
theorem IsHeap.head?_eq {le : α → α → Prop} [Std.Refl le] [IsTrans α le] {l l' : List α}
    (hp : l.Perm l') (h : IsHeap le l) (h' : IsHeap le l')
    (htie : ∀ x ∈ l, ∀ y ∈ l, le x y → le y x → x = y) : l.head? = l'.head? := by
  cases l with
  | nil => rw [List.nil_perm.mp hp]
  | cons x l =>
    cases l' with
    | nil => exact absurd hp.length_eq (by simp)
    | cons y l' =>
      have hx : x ∈ y :: l' := hp.subset List.mem_cons_self
      have hy : y ∈ x :: l := hp.symm.subset List.mem_cons_self
      rw [List.head?_cons, List.head?_cons,
        htie x List.mem_cons_self y hy (h.head_le y hy) (h'.head_le x hx)]

/-- `push_heap`, `pop_heap` and `make_heap` over vectors, with their specification. Each promise is
made only under the precondition the operation has. -/
structure HeapOps (le : α → α → Prop) where
  pushHeap : List α → List α
  popHeap : List α → List α
  makeHeap : List α → List α
  pushHeap_perm : ∀ l x, IsHeap le l → (pushHeap (l ++ [x])).Perm (l ++ [x])
  pushHeap_isHeap : ∀ l x, IsHeap le l → IsHeap le (pushHeap (l ++ [x]))
  popHeap_eq : ∀ x l, IsHeap le (x :: l) → ∃ l', popHeap (x :: l) = l' ++ [x] ∧ l'.Perm l ∧
    IsHeap le l'
  makeHeap_perm : ∀ l, (makeHeap l).Perm l
  makeHeap_isHeap : ∀ l, IsHeap le (makeHeap l)

namespace HeapOps

variable {le : α → α → Prop} (H : HeapOps le)

theorem dropLast_popHeap_perm {x : α} {l : List α} (h : IsHeap le (x :: l)) :
    ((H.popHeap (x :: l)).dropLast).Perm l := by
  obtain ⟨l', he, hp, -⟩ := H.popHeap_eq x l h
  rwa [he, List.dropLast_concat]

theorem dropLast_popHeap_isHeap {x : α} {l : List α} (h : IsHeap le (x :: l)) :
    IsHeap le (H.popHeap (x :: l)).dropLast := by
  obtain ⟨l', he, -, hh⟩ := H.popHeap_eq x l h
  rwa [he, List.dropLast_concat]

/-- The heap operations that keep the whole vector sorted. -/
def ofSort (le : α → α → Prop) [DecidableRel le] [Std.Total le] [IsTrans α le] : HeapOps le where
  pushHeap l := l.insertionSort le
  popHeap
    | [] => []
    | x :: l => l.insertionSort le ++ [x]
  makeHeap l := l.insertionSort le
  pushHeap_perm _ _ _ := List.perm_insertionSort le _
  pushHeap_isHeap _ _ _ := isHeap_of_pairwise (List.pairwise_insertionSort le _)
  popHeap_eq _ l _ :=
    ⟨_, rfl, List.perm_insertionSort le l, isHeap_of_pairwise (List.pairwise_insertionSort le l)⟩
  makeHeap_perm l := List.perm_insertionSort le l
  makeHeap_isHeap l := isHeap_of_pairwise (List.pairwise_insertionSort le l)

end HeapOps

end BinaryHeap
