import Mathlib.Data.List.Basic
import Mathlib.Tactic.Ring

/-!
# Concatenations of chunks of equal size

`Chunked size chunks`: all chunks but the last have the same size.

* `slice_flatten`: a slice of the concatenation that is inside a chunk is a slice of that chunk.
* `slice_flatten_straddle`: one that goes on in the next chunk is made of two.
* `Chunked.le_length`: how long the chunk of a position of the concatenation is at least.
-/

set_option autoImplicit false

namespace Concatenation

variable {α : Type*} {size : ℕ}

/-- The elements from `offset` on, `n` of them. -/
def slice (l : List α) (offset n : ℕ) : List α := (l.drop offset).take n

def Chunked (size : ℕ) (chunks : List (List α)) : Prop := ∀ chunk ∈ chunks.dropLast, chunk.length = size

theorem Chunked.tail {first : List α} {chunks : List (List α)} (h : Chunked size (first :: chunks)) :
    Chunked size chunks := by
  cases chunks with
  | nil => exact fun _ hmem => absurd hmem List.not_mem_nil
  | cons second chunks => exact fun chunk hmem => h chunk (List.mem_cons_of_mem _ hmem)

theorem Chunked.head {first second : List α} {chunks : List (List α)}
    (h : Chunked size (first :: second :: chunks)) : first.length = size :=
  h first List.mem_cons_self

theorem Chunked.length_eq {chunks : List (List α)} (h : Chunked size chunks) {k : ℕ}
    (hk : k + 1 < chunks.length) {chunk : List α} (hchunk : chunks[k]? = some chunk) :
    chunk.length = size := by
  refine h chunk (List.mem_of_getElem? (i := k) ?_)
  rw [List.getElem?_dropLast, if_pos (by omega), hchunk]

theorem Chunked.drop_flatten {chunks : List (List α)} : ∀ {k : ℕ}, Chunked size chunks →
    k < chunks.length → chunks.flatten.drop (k * size) = (chunks.drop k).flatten := by
  induction chunks with
  | nil => exact fun _ hk => absurd hk (Nat.not_lt_zero _)
  | cons first chunks ih =>
    intro k h hk
    cases k with
    | zero => rw [Nat.zero_mul, List.drop_zero, List.drop_zero]
    | succ k =>
      cases chunks with
      | nil => exact absurd hk (by simp)
      | cons second chunks =>
        have hsize : (k + 1) * size = first.length + k * size := by
          rw [h.head]
          ring
        rw [List.flatten_cons, hsize, ← List.drop_drop, List.drop_left, List.drop_succ_cons]
        exact ih h.tail (Nat.lt_of_succ_lt_succ hk)

/-- **A slice inside a chunk.** -/
theorem Chunked.slice_flatten {chunks : List (List α)} (h : Chunked size chunks) {k offset n : ℕ}
    {chunk : List α} (hchunk : chunks[k]? = some chunk) (hn : offset + n ≤ chunk.length) :
    slice chunks.flatten (k * size + offset) n = slice chunk offset n := by
  obtain ⟨hk, hget⟩ := List.getElem?_eq_some_iff.mp hchunk
  unfold slice
  rw [← List.drop_drop, h.drop_flatten hk, List.drop_eq_getElem_cons hk, hget, List.flatten_cons,
    List.drop_append_of_le_length (by omega), List.take_append_of_le_length]
  rw [List.length_drop]
  omega

theorem slice_add (l : List α) (offset n m : ℕ) :
    slice l offset (n + m) = slice l offset n ++ slice l (offset + n) m := by
  unfold slice
  rw [List.take_add, List.drop_drop]

/-- **A slice that goes on in the next chunk.** -/
theorem Chunked.slice_flatten_straddle {chunks : List (List α)} (h : Chunked size chunks)
    {k offset n m : ℕ} {chunk next : List α} (hchunk : chunks[k]? = some chunk)
    (hnext : chunks[k + 1]? = some next) (hn : offset + n = size) (hm : m ≤ next.length) :
    slice chunks.flatten (k * size + offset) (n + m) = slice chunk offset n ++ slice next 0 m := by
  obtain ⟨hk, -⟩ := List.getElem?_eq_some_iff.mp hnext
  have hlength := h.length_eq hk hchunk
  have hborder : k * size + offset + n = (k + 1) * size + 0 := by
    rw [add_assoc, hn]
    ring
  rw [slice_add, h.slice_flatten hchunk (by omega), hborder, h.slice_flatten hnext (by omega)]

theorem Chunked.length_flatten_le {chunks : List (List α)} : ∀ {k : ℕ} {chunk : List α},
    Chunked size chunks → chunks[k]? = some chunk →
    k * size + chunk.length ≤ chunks.flatten.length ∧
      (k + 1 = chunks.length → chunks.flatten.length = k * size + chunk.length) := by
  induction chunks with
  | nil => exact fun _ hchunk => absurd hchunk (by simp)
  | cons first chunks ih =>
    intro k chunk h hchunk
    rw [List.flatten_cons, List.length_append]
    cases k with
    | zero =>
      cases hchunk
      refine ⟨by omega, fun hone => ?_⟩
      have hnil : chunks = [] := List.length_eq_zero_iff.mp (by simpa using hone.symm)
      rw [hnil, List.flatten_nil, List.length_nil]
      omega
    | succ k =>
      cases chunks with
      | nil => exact absurd hchunk (by simp)
      | cons second chunks =>
        obtain ⟨hle, hlast⟩ := ih h.tail hchunk
        have hsize : (k + 1) * size = first.length + k * size := by
          rw [h.head]
          ring
        refine ⟨by omega, fun heq => ?_⟩
        have hrest := hlast (Nat.succ_injective heq)
        omega

theorem Chunked.le_length {chunks : List (List α)} (h : Chunked size chunks) {k offset : ℕ}
    {chunk : List α} (hchunk : chunks[k]? = some chunk) (hoffset : offset ≤ size)
    (hlength : k * size + offset ≤ chunks.flatten.length) : offset ≤ chunk.length := by
  obtain ⟨hk, -⟩ := List.getElem?_eq_some_iff.mp hchunk
  rcases Nat.lt_or_ge (k + 1) chunks.length with hlt | hge
  · exact (h.length_eq hlt hchunk).symm ▸ hoffset
  · have hlast := (h.length_flatten_le hchunk).2 (by omega)
    omega

end Concatenation
