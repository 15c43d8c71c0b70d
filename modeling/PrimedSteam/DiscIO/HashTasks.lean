import PrimedSteam.DiscIO.VolumeWii

/-!
# The code of the hash tasks

Where the instructions of the tasks of `hashGroup` stand, when all reads succeed.

* `place_of_code`, `code_of_place`: each assignment stands at its place only.
* `code_await`, `code_join`, `code_join_last`: the waits.
-/

set_option autoImplicit false

namespace VolumeWii

open Tasks

variable {sha1 : List Byte → Digest} {readFunction : Option (ℕ → Option Buffer)}

theorem getElem?_map_finRange {α : Type*} {n : ℕ} (f : Fin n → α) (k : ℕ) :
    ((List.finRange n).map f)[k]? = if h : k < n then some (f ⟨k, h⟩) else none := by
  split
  · rename_i h
    simp [h]
  · rename_i h
    simp [Nat.le_of_not_lt h]

theorem getElem?_map_range {α : Type*} {n : ℕ} (f : ℕ → α) (k : ℕ) :
    ((List.range n).map f)[k]? = if k < n then some (f k) else none := by
  split
  · rename_i h
    simp [h]
  · rename_i h
    simp [Nat.le_of_not_lt h]

theorem getElem?_pair {α : Type*} (a b : α) (k : ℕ) :
    [a, b][k]? = if k = 0 then some a else if k = 1 then some b else none := by
  match k with
  | 0 => rfl
  | 1 => rfl
  | k + 2 => rfl

theorem getElem?_one {α : Type*} (a : α) (k : ℕ) :
    [a][k]? = if k = 0 then some a else none := by
  match k with
  | 0 => rfl
  | k + 1 => rfl

/-- The H0 and H1 hashes of block `i`. -/
def frontAt (i k : ℕ) : Option (Instr Task HashOp) :=
  if k = 0 then some (.await .main (i + 1))
  else if h : k < 32 then some (.run (.h0 i ⟨k - 1, by omega⟩))
  else if k = 32 then some (.run (.padding0 i))
  else if k = 33 then some (.run (.h1 i))
  else none

/-- The last task of a subgroup: the copies of the H1 array and the H2 hash. -/
def middleAt (i k : ℕ) : Option (Instr Task HashOp) :=
  if k < 7 then some (.join (.hash (i / 8 * 8 + k)))
  else if k = 7 then some (.run (.padding1 (i / 8)))
  else if h : 8 ≤ k ∧ k < 15 then some (.run (.copyH1 (i / 8) ⟨k - 8, by omega⟩))
  else if k = 15 then some (.run (.h2 (h2Index i)))
  else none

/-- The last task of the group: the copies of the H2 array. -/
def lastAt (k : ℕ) : Option (Instr Task HashOp) :=
  if k < 7 then some (.join (.hash (k * 8 + 7)))
  else if k = 7 then some (.run .padding2)
  else if k < 71 then some (.run (.copyH2 (k - 8)))
  else none

/-- The instruction at a position of the task of a block. -/
def instrAt (i k : ℕ) : Option (Instr Task HashOp) :=
  if k < 34 then frontAt i k
  else if i % 8 ≠ 7 then none
  else if k < 50 then middleAt i (k - 34)
  else if i ≠ 63 then none
  else lastAt (k - 50)

theorem front_getElem? (i k : ℕ) :
    ([.await .main (i + 1)] ++ ((List.finRange 31).map (fun j => .run (.h0 i j)) ++
      [.run (.padding0 i), .run (.h1 i)]) : List (Instr Task HashOp))[k]? = frontAt i k := by
  simp only [frontAt, List.getElem?_append, List.length_map, List.length_finRange,
    List.length_cons, List.length_nil, getElem?_map_finRange, getElem?_pair, getElem?_one]
  split_ifs <;> first | omega | rfl

theorem middle_getElem? (i k : ℕ) :
    ((List.range 7).map (fun j => .join (.hash (i / 8 * 8 + j))) ++
      ([.run (.padding1 (i / 8))] ++ (List.finRange 7).map (fun j => .run (.copyH1 (i / 8) j)) ++
        [.run (.h2 (h2Index i))]) : List (Instr Task HashOp))[k]? = middleAt i k := by
  simp only [middleAt, List.getElem?_append, List.length_append, List.length_map, List.length_range,
    List.length_finRange, List.length_cons, List.length_nil, getElem?_map_finRange,
    getElem?_map_range, getElem?_one]
  split_ifs <;> first | omega | rfl

theorem last_getElem? (k : ℕ) :
    ((List.range 7).map (fun j => .join (.hash (j * 8 + 7))) ++
      ([.run .padding2] ++ (List.range (blocksPerGroup - 1)).map (fun j => .run (.copyH2 j))) :
        List (Instr Task HashOp))[k]? = lastAt k := by
  simp only [lastAt, blocksPerGroup, List.getElem?_append, List.length_map,
    List.length_range, List.length_cons, List.length_nil, getElem?_map_range, getElem?_one]
  split_ifs <;> first | omega | rfl

/-- **The places of the instructions** of the task of a block. -/
theorem hashCode_getElem? (i k : ℕ) : (hashCode true i)[k]? = instrAt i k := by
  unfold hashCode instrAt
  rw [if_pos rfl, if_pos rfl, if_pos rfl, List.getElem?_append]
  have hfront : ([.await .main (i + 1)] ++ ((List.finRange 31).map (fun j => .run (.h0 i j)) ++
      [.run (.padding0 i), .run (.h1 i)]) : List (Instr Task HashOp)).length = 34 := by
    simp
  rw [hfront]
  by_cases hk : k < 34
  · rw [if_pos hk, if_pos hk, front_getElem?]
  rw [if_neg hk, if_neg hk]
  by_cases h7 : i % 8 = 7
  · rw [if_pos h7, if_neg (not_not.mpr h7), List.getElem?_append]
    have hmiddle : ((List.range 7).map (fun j => .join (.hash (i / 8 * 8 + j))) ++
        ([.run (.padding1 (i / 8))] ++ (List.finRange 7).map (fun j => .run (.copyH1 (i / 8) j)) ++
          [.run (.h2 (h2Index i))]) : List (Instr Task HashOp)).length = 16 := by
      simp
    rw [hmiddle]
    by_cases hk' : k < 50
    · rw [if_pos (by omega), if_pos hk', middle_getElem?]
    rw [if_neg (by omega), if_neg hk']
    by_cases h63 : i = blocksPerGroup - 1
    · rw [if_pos h63, if_neg (not_not.mpr (show i = 63 from h63)), last_getElem?, Nat.sub_sub]
    · rw [if_neg h63, if_pos (show i ≠ 63 from h63), List.getElem?_nil]
  · rw [if_neg h7, if_pos h7, List.getElem?_nil]

/-- The assignments of the tasks. -/
def HashOp.InRange : HashOp → Prop
  | .read i => i < 64
  | .h0 i _ => i < 64
  | .padding0 i => i < 64
  | .h1 i => i < 64
  | .padding1 b => b < 8
  | .copyH1 b _ => b < 8
  | .h2 _ => True
  | .padding2 => True
  | .copyH2 j => j < 63

/-- The task of an assignment, and its position there. -/
def HashOp.place : HashOp → Task × ℕ
  | .read i => (.main, i)
  | .h0 i j => (.hash i, j + 1)
  | .padding0 i => (.hash i, 32)
  | .h1 i => (.hash i, 33)
  | .padding1 b => (.hash (8 * b + 7), 41)
  | .copyH1 b j => (.hash (8 * b + 7), j + 42)
  | .h2 b => (.hash (8 * b + 7), 49)
  | .padding2 => (.hash 63, 57)
  | .copyH2 j => (.hash 63, j + 58)

theorem success_of_le {n k : ℕ} (h : success readFunction n = true) (hk : k ≤ n) :
    success readFunction k = true := by
  induction n with
  | zero => rwa [Nat.le_zero.mp hk]
  | succ n ih =>
    rcases Nat.le_succ_iff.mp hk with hle | rfl
    · exact ih ((Bool.and_eq_true _ _).mp h).1 hle
    · exact h

theorem mainCode_getElem? (k : ℕ) :
    mainCode[k]? = if k < 64 then some (.run (.read k))
      else if k = 64 then some (.join (.hash 63)) else none := by
  simp only [mainCode, blocksPerGroup, List.getElem?_append, List.length_map, List.length_range,
    getElem?_map_range, getElem?_one]
  split_ifs <;> first | omega | rfl

section Places

variable (hall : success readFunction blocksPerGroup = true)

include hall

theorem code_getElem? {i : ℕ} (hi : i < 64) (k : ℕ) :
    ((hashProgram sha1 readFunction).code (.hash i))[k]? = instrAt i k := by
  rw [← hashCode_getElem?, ← success_of_le hall (Nat.succ_le_of_lt hi)]
  show (if i < blocksPerGroup then _ else _)[k]? = _
  rw [if_pos (show i < blocksPerGroup from hi)]

omit hall in
theorem code_getElem?_of_le {i : ℕ} (hi : ¬i < 64) (k : ℕ) :
    ((hashProgram sha1 readFunction).code (.hash i))[k]? = none := by
  show (if i < blocksPerGroup then _ else _)[k]? = _
  rw [if_neg (show ¬i < blocksPerGroup from hi), List.getElem?_nil]

theorem place_of_code {t : Task} {k : ℕ} {op : HashOp}
    (h : ((hashProgram sha1 readFunction).code t)[k]? = some (.run op)) :
    op.InRange ∧ op.place = (t, k) := by
  cases t with
  | main =>
    rw [show (hashProgram sha1 readFunction).code .main = mainCode from rfl,
      mainCode_getElem?] at h
    split_ifs at h with hk
    · cases h
      exact ⟨hk, rfl⟩
    · cases h
  | hash i =>
    by_cases hi : i < 64
    · rw [code_getElem? hall hi] at h
      unfold instrAt frontAt middleAt lastAt at h
      split_ifs at h <;> cases h <;>
        simp only [HashOp.InRange, HashOp.place, h2Index, Prod.mk.injEq, Task.hash.injEq,
          true_and] <;> omega
    · rw [code_getElem?_of_le hi] at h
      cases h

variable (sha1) in
theorem code_of_place {op : HashOp} (h : op.InRange) :
    ((hashProgram sha1 readFunction).code op.place.1)[op.place.2]? = some (.run op) := by
  cases op with
  | read i =>
    show mainCode[i]? = _
    rw [mainCode_getElem?, if_pos (show i < 64 from h)]
  | h0 i j =>
    have hj := j.isLt
    rw [HashOp.place, code_getElem? hall h, instrAt, if_pos (by omega), frontAt,
      if_neg (Nat.succ_ne_zero _), dif_pos (by omega)]
    rfl
  | padding0 i =>
    rw [HashOp.place, code_getElem? hall h]
    rfl
  | h1 i =>
    rw [HashOp.place, code_getElem? hall h]
    rfl
  | padding1 b =>
    have hb : b < 8 := h
    have hdiv : (8 * b + 7) / 8 = b := by omega
    show ((hashProgram sha1 readFunction).code (.hash (8 * b + 7)))[41]? = _
    rw [code_getElem? hall (by omega), instrAt, if_neg (by decide), if_neg (by omega),
      if_pos (by decide), middleAt, if_neg (by decide), if_pos rfl, hdiv]
  | copyH1 b j =>
    have hb : b < 8 := h
    have hj := j.isLt
    have hdiv : (8 * b + 7) / 8 = b := by omega
    rw [HashOp.place, code_getElem? hall (by omega), instrAt, if_neg (by omega),
      if_neg (by omega), if_pos (by omega), middleAt, if_neg (by omega), if_neg (by omega),
      dif_pos (by omega), hdiv]
    rfl
  | h2 b =>
    have hb := b.isLt
    have hindex : h2Index (8 * b + 7) = b := by
      ext
      simp only [h2Index]
      omega
    show ((hashProgram sha1 readFunction).code (.hash (8 * b + 7)))[49]? = _
    rw [code_getElem? hall (by omega), instrAt, if_neg (by decide), if_neg (by omega),
      if_pos (by decide), middleAt, if_neg (by decide), if_neg (by decide), dif_neg (by decide),
      if_pos rfl, hindex]
  | padding2 =>
    rw [HashOp.place, code_getElem? hall (by decide)]
    rfl
  | copyH2 j =>
    have hj : j < 63 := h
    rw [HashOp.place, code_getElem? hall (by decide), instrAt, if_neg (by omega),
      if_neg (by decide), if_neg (by omega), if_neg (by decide), lastAt, if_neg (by omega),
      if_neg (by omega), if_pos (by omega)]
    rfl

/-- The task of a block waits for the read of its block. -/
theorem code_await {i : ℕ} (hi : i < 64) :
    ((hashProgram sha1 readFunction).code (.hash i))[0]? = some (.await .main (i + 1)) := by
  rw [code_getElem? hall hi]
  rfl

variable (sha1) in
/-- The last task of a subgroup waits for the other tasks of it. -/
theorem code_join {b j : ℕ} (hb : b < 8) (hj : j < 7) :
    ((hashProgram sha1 readFunction).code (.hash (8 * b + 7)))[j + 34]? =
      some (.join (.hash (8 * b + j))) := by
  have hdiv : (8 * b + 7) / 8 * 8 = 8 * b := by omega
  rw [code_getElem? hall (by omega), instrAt, if_neg (by omega), if_neg (by omega),
    if_pos (by omega), middleAt, if_pos (by omega), hdiv]
  rfl

variable (sha1) in
/-- The last task waits for the last tasks of the other subgroups. -/
theorem code_join_last {b : ℕ} (hb : b < 7) :
    ((hashProgram sha1 readFunction).code (.hash 63))[b + 50]? =
      some (.join (.hash (8 * b + 7))) := by
  rw [code_getElem? hall (by decide), instrAt, if_neg (by omega), if_neg (by decide),
    if_neg (by omega), if_neg (by decide), lastAt, if_pos (by omega), Nat.mul_comm 8 b]
  rfl

end Places

end VolumeWii
