import PrimedSteam.DiscIO.RVZPack

/-!
# The position in packed data

The packed data is read and written byte by byte, and header by header.

* `Pos.next`, `Pos.need`: the next step, and how much packed data it needs.
* `Moves`: the steps that the data so far, the packed size and the output allow.
* `Moves.unique`: where they end does not depend on how they are grouped.
-/

set_option autoImplicit false

namespace RVZPackDecompressor

open LaggedFibonacciGenerator

/-- A position: the bytes that are parsed, the output, and the rest of the segment, which is the
junk data of a seed from an offset on or literal. -/
structure Pos where
  parsed : ℕ
  out : List Byte
  size : ℕ
  junk : Option (Seed × ℕ)
  dataOffset : ℕ

/-- The bytes of a header with its seed. -/
def headerLength (packed : List Byte) (offset : ℕ) : ℕ :=
  if isJunk (word packed offset) then 4 + seedBytes else 4

namespace Pos

variable (packed : List Byte)

/-- The packed data that the next step needs. -/
def need (p : Pos) : ℕ :=
  if p.size = 0 then p.parsed + headerLength packed p.parsed
  else if p.junk.isSome then p.parsed
  else p.parsed + 1

/-- A header is parsed, or a byte is written. -/
def next (p : Pos) : Pos :=
  if p.size = 0 then
    { p with
      parsed := p.parsed + headerLength packed p.parsed
      size := segmentSize (word packed p.parsed)
      junk :=
        if isJunk (word packed p.parsed) then
          some (seedAt packed (p.parsed + 4), p.dataOffset % blockSize)
        else none }
  else match p.junk with
  | some (seed, q) =>
    { p with
      out := p.out ++ [streamByte (firstWords seed) q]
      size := p.size - 1
      junk := some (seed, q + 1)
      dataOffset := p.dataOffset + 1 }
  | none =>
    { p with
      parsed := p.parsed + 1
      out := p.out ++ [packed.getD p.parsed 0]
      size := p.size - 1
      dataOffset := p.dataOffset + 1 }

/-- The next step is allowed with `available` bytes of the packed data, of which `limit` bytes may be
read, and with room in the output of size `c`. -/
def Allowed (limit available c : ℕ) (p : Pos) : Prop :=
  p.out.length < c ∧ p.need packed ≤ available ∧ p.need packed ≤ limit

/-- The next step reads more than the limit. -/
def Fails (limit available c : ℕ) (p : Pos) : Prop :=
  p.out.length < c ∧ limit < min available (p.need packed)

/-- No literal segment from the position on is empty. -/
def NoEmptyLiteral (p : Pos) : Prop :=
  ∀ k, ((next packed)^[k] p).size = 0 → ((next packed)^[k] p).parsed + 4 ≤ packed.length →
    word packed ((next packed)^[k] p).parsed ≠ 0

theorem parsed_le_next (p : Pos) : p.parsed ≤ (p.next packed).parsed := by
  rw [next]
  split
  · exact Nat.le_add_right _ _
  · split
    · exact le_rfl
    · exact Nat.le_succ _

theorem parsed_le_iterate (k : ℕ) (p : Pos) : p.parsed ≤ ((next packed)^[k] p).parsed := by
  induction k generalizing p with
  | zero => exact le_rfl
  | succ k ih => exact (parsed_le_next packed p).trans (ih (p.next packed))

end Pos

/-- Allowed steps. -/
inductive Moves (packed : List Byte) (limit available c : ℕ) : Pos → Pos → Prop where
  | refl (p : Pos) : Moves packed limit available c p p
  | step {p p' : Pos} : p.Allowed packed limit available c →
      Moves packed limit available c (p.next packed) p' → Moves packed limit available c p p'

variable {packed : List Byte} {limit available available' c c' : ℕ} {p p' p'' : Pos}

theorem Pos.Allowed.mono (h : p.Allowed packed limit available c) (ha : available ≤ available')
    (hc : c ≤ c') : p.Allowed packed limit available' c' :=
  ⟨h.1.trans_le hc, h.2.1.trans ha, h.2.2⟩

theorem Pos.Fails.mono (h : p.Fails packed limit available c) (ha : available ≤ available')
    (hc : c ≤ c') : p.Fails packed limit available' c' :=
  ⟨h.1.trans_le hc, h.2.trans_le (min_le_min_right _ ha)⟩

theorem Pos.Fails.not_allowed (h : p.Fails packed limit available c) :
    ¬p.Allowed packed limit available c := fun hallowed =>
  absurd (hallowed.2.2.trans_lt h.2) (Nat.not_lt.mpr (min_le_right _ _))

theorem Pos.NoEmptyLiteral.next (h : p.NoEmptyLiteral packed) :
    (p.next packed).NoEmptyLiteral packed := fun k => h (k + 1)

namespace Moves

theorem mono (h : Moves packed limit available c p p') (ha : available ≤ available')
    (hc : c ≤ c') : Moves packed limit available' c' p p' := by
  induction h with
  | refl p => exact .refl p
  | step hallowed _ ih => exact .step (hallowed.mono ha hc) ih

theorem trans (h : Moves packed limit available c p p')
    (h' : Moves packed limit available c p' p'') : Moves packed limit available c p p'' := by
  induction h with
  | refl _ => exact h'
  | step hallowed _ ih => exact .step hallowed (ih h')

theorem noEmptyLiteral (h : Moves packed limit available c p p')
    (hp : p.NoEmptyLiteral packed) : p'.NoEmptyLiteral packed := by
  induction h with
  | refl _ => exact hp
  | step _ _ ih => exact ih hp.next

/-- **Where the steps end is determined.** -/
theorem unique {q q' : Pos} (h : Moves packed limit available c p q)
    (h' : Moves packed limit available c p q') (hq : ¬q.Allowed packed limit available c)
    (hq' : ¬q'.Allowed packed limit available c) : q = q' := by
  induction h with
  | refl p =>
    cases h' with
    | refl _ => rfl
    | step hallowed _ => exact absurd hallowed hq
  | step hallowed _ ih =>
    cases h' with
    | refl _ => exact absurd hallowed hq'
    | step _ h' => exact ih h' hq

end Moves

/-- Literal bytes are written one after the other. -/
theorem moves_literal {m : ℕ} (hjunk : p.junk = none) (hm : m ≤ p.size)
    (hc : p.out.length + m ≤ c) (ha : p.parsed + m ≤ available) (hl : p.parsed + m ≤ limit)
    (hpacked : p.parsed + m ≤ packed.length) :
    Moves packed limit available c p
      { p with
        parsed := p.parsed + m
        out := p.out ++ (packed.drop p.parsed).take m
        size := p.size - m
        dataOffset := p.dataOffset + m } := by
  induction m generalizing p with
  | zero =>
    simp only [List.take_zero, List.append_nil, Nat.add_zero, Nat.sub_zero]
    exact .refl p
  | succ m ih =>
    have hsize : p.size ≠ 0 := by omega
    have hneed : p.need packed = p.parsed + 1 := by
      rw [Pos.need, if_neg hsize, hjunk]
      rfl
    have hnext : p.next packed =
        { p with
          parsed := p.parsed + 1
          out := p.out ++ [packed.getD p.parsed 0]
          size := p.size - 1
          dataOffset := p.dataOffset + 1 } := by
      rw [Pos.next, if_neg hsize, hjunk]
    refine .step ⟨by omega, by omega, by omega⟩ ?_
    rw [hnext]
    have hlt : p.parsed < packed.length := by omega
    have htake : (packed.drop p.parsed).take (m + 1) =
        [packed.getD p.parsed 0] ++ (packed.drop (p.parsed + 1)).take m := by
      rw [List.drop_eq_getElem_cons hlt, List.take_succ_cons, List.getD_eq_getElem?_getD,
        List.getElem?_eq_getElem hlt, Option.getD_some]
      rfl
    have hih := @ih
      { p with
        parsed := p.parsed + 1
        out := p.out ++ [packed.getD p.parsed 0]
        size := p.size - 1
        dataOffset := p.dataOffset + 1 } hjunk (by simp only; omega)
      (by simp only [List.length_append, List.length_singleton]; omega) (by simp only; omega)
      (by simp only; omega) (by simp only; omega)
    simp only [List.append_assoc] at hih
    rw [← htake] at hih
    have hsub : p.size - 1 - m = p.size - (m + 1) := by omega
    rw [hsub, Nat.add_assoc, Nat.add_comm 1 m, Nat.add_assoc, Nat.add_comm 1 m] at hih
    exact hih

/-- Junk bytes are written one after the other. -/
theorem moves_junk {m q : ℕ} {seed : Seed} (hjunk : p.junk = some (seed, q)) (hm : m ≤ p.size)
    (hc : p.out.length + m ≤ c) (ha : p.parsed ≤ available) (hl : p.parsed ≤ limit) :
    Moves packed limit available c p
      { p with
        out := p.out ++ (List.range m).map fun i => streamByte (firstWords seed) (q + i)
        size := p.size - m
        junk := some (seed, q + m)
        dataOffset := p.dataOffset + m } := by
  induction m generalizing p q with
  | zero =>
    simp only [List.range_zero, List.map_nil, List.append_nil, Nat.add_zero, Nat.sub_zero, ← hjunk]
    exact .refl p
  | succ m ih =>
    have hsize : p.size ≠ 0 := by omega
    have hneed : p.need packed = p.parsed := by
      rw [Pos.need, if_neg hsize, hjunk]
      rfl
    have hnext : p.next packed =
        { p with
          out := p.out ++ [streamByte (firstWords seed) q]
          size := p.size - 1
          junk := some (seed, q + 1)
          dataOffset := p.dataOffset + 1 } := by
      rw [Pos.next, if_neg hsize, hjunk]
    refine .step ⟨by omega, by omega, by omega⟩ ?_
    rw [hnext]
    have hrange : ((List.range (m + 1)).map fun i => streamByte (firstWords seed) (q + i)) =
        [streamByte (firstWords seed) q] ++
          (List.range m).map fun i => streamByte (firstWords seed) (q + 1 + i) := by
      rw [List.range_succ_eq_map, List.map_cons, List.map_map]
      refine congrArg _ (List.map_congr_left fun i _ => ?_)
      simp only [Function.comp_apply, Nat.succ_eq_add_one]
      rw [Nat.add_assoc, Nat.add_comm 1 i]
    have hih := @ih
      { p with
        out := p.out ++ [streamByte (firstWords seed) q]
        size := p.size - 1
        junk := some (seed, q + 1)
        dataOffset := p.dataOffset + 1 } (q + 1) rfl (by simp only; omega)
      (by simp only [List.length_append, List.length_singleton]; omega) ha hl
    simp only [List.append_assoc] at hih
    rw [← hrange] at hih
    have hsub : p.size - 1 - m = p.size - (m + 1) := by omega
    rw [hsub, Nat.add_assoc p.dataOffset, Nat.add_assoc q, Nat.add_comm 1 m] at hih
    exact hih

end RVZPackDecompressor
