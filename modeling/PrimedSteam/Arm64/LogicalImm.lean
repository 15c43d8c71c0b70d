import Mathlib
import PrimedSteam.Lib.BitRuns

/-!
# Logical immediates

The constructor of `LogicalImm` looks for the element that a value repeats and encodes it in the fields `n`,
`s` and `r`.

* `LogicalImm.new`: the constructor.
* `LogicalImm.decode`: the rule of the table.
* `logicalImm_valid_iff`: the valid values repeat a rotated run of ones, and decode to themselves.
-/

set_option autoImplicit false

namespace Arm64Gen

open BitRuns

/-! ## The constructor -/

inductive GPRSize where
  | b32
  | b64
deriving DecidableEq

structure LogicalImm where
  r : BitVec 8
  s : BitVec 8
  n : Bool
  valid : Bool
deriving DecidableEq

namespace LogicalImm

def invalid : LogicalImm := ⟨0, 0, false, false⟩

/-- The fields for an element of which `ones` bits are set. The numbers are of the type `int`. -/
def ofElement (elementSize rotation ones : ℕ) : LogicalImm :=
  let e := BitVec.ofNat 32 elementSize
  { r := ((e - BitVec.ofNat 32 rotation) &&& (e - 1)).setWidth 8
    s := ((((~~~e + 1) <<< 1) ||| (BitVec.ofNat 32 ones - 1)) &&& 0x3f).setWidth 8
    n := e.getLsbD 6
    valid := true }

/-- The value twice for a register of 32 bits. -/
def widen (value : BitVec 64) : GPRSize → BitVec 64
  | .b32 => (value <<< 32) ||| (value &&& 0xFFFFFFFF)
  | .b64 => value

/-- The constructor from the value of 64 bits on. -/
def ofValue (value : BitVec 64) : LogicalImm :=
  if value = 0 ∨ ~~~value = 0 then invalid
  else
    let rotation := countrZero (value &&& (value + 1))
    let normalized := value.rotateRight rotation
    let elementSize := countrZero (normalized &&& (normalized + 1))
    let ones := countrOne normalized
    if value.rotateRight elementSize ≠ value then invalid
    else ofElement elementSize rotation ones

/-- `LogicalImm(value, size)` -/
def new (value : BitVec 64) (size : GPRSize) : LogicalImm := ofValue (widen value size)

/-! ## Decoding -/

/-- The size of the element, by the leading bits of `s`. -/
def elementSize (imm : LogicalImm) : Option ℕ :=
  if imm.n then some 64
  else if imm.s.extractLsb' 5 1 = 0b0 then some 32
  else if imm.s.extractLsb' 4 2 = 0b10 then some 16
  else if imm.s.extractLsb' 3 3 = 0b110 then some 8
  else if imm.s.extractLsb' 2 4 = 0b1110 then some 4
  else if imm.s.extractLsb' 1 5 = 0b11110 then some 2
  else none

/-- An element in which the lowest `S + 1` bits are set, rotated right by `R` and repeated. -/
def pattern (width size S R : ℕ) : BitVec width :=
  let element : BitVec size := (BitVec.ofNat size (2 ^ (S + 1) - 1)).rotateRight R
  BitVec.ofFnLE fun i : Fin width => element.getLsbD (i % size)

/-- The value of the fields for a register of `width` bits. The bits of `s` behind the leading ones must
not be all set. -/
def decode (imm : LogicalImm) (width : ℕ) : Option (BitVec width) :=
  match imm.elementSize with
  | some size =>
    let S := imm.s.toNat % size
    let R := imm.r.toNat % size
    if size ≤ width ∧ S + 1 ≠ size then some (pattern width size S R) else none
  | none => none

end LogicalImm

open LogicalImm

/-- A repetition of a rotated run of ones that is neither empty nor full. -/
def IsRepeatedRun {w : ℕ} (value : BitVec w) : Prop :=
  ∃ size ∈ [2, 4, 8, 16, 32, 64], size ≤ w ∧ ∃ ones rotation, 0 < ones ∧ ones < size ∧
    ∀ i < w, value.getLsbD i = decide ((i + rotation) % size < ones)

/-! ## The element -/

/-- The bits of a word around. -/
def around (x : BitVec 64) (i : ℕ) : Bool := x.getLsbD (i % 64)

section Element

variable {x : BitVec 64}

theorem countrOne_lt (hfull : ~~~x ≠ 0) : countrOne x < 64 := by
  refine lt_of_le_of_ne (countrOne_le x) fun h => hfull ?_
  refine BitVec.eq_of_getLsbD_eq fun i hi => ?_
  have hbit := getLsbD_of_lt_countrOne (lt_of_lt_of_eq hi h.symm)
  simp [hbit]

/-- The value is rotated to the start of a run: it begins with a one and ends in a zero. -/
theorem normalized_ends (hempty : x ≠ 0) (hfull : ~~~x ≠ 0) :
    around x (countrZero (x &&& (x + 1))) = true ∧
      around x (63 + countrZero (x &&& (x + 1))) = false := by
  have ht := countrOne_lt hfull
  have hr := countrZero_le (x &&& (x + 1))
  have hbelow : ∀ i < countrZero (x &&& (x + 1)), countrOne x ≤ i → x.getLsbD i = false := by
    intro i hi hle
    have hbit := getLsbD_of_lt_countrZero hi
    rw [getLsbD_and_add_one, decide_eq_true hle, Bool.and_true] at hbit
    exact hbit
  have hend := getLsbD_countrOne ht
  rcases Nat.lt_or_ge (countrZero (x &&& (x + 1))) 64 with hlt | hge
  · have hbit := getLsbD_countrZero hlt
    rw [getLsbD_and_add_one, Bool.and_eq_true, decide_eq_true_iff] at hbit
    have hne : countrOne x ≠ countrZero (x &&& (x + 1)) := by
      intro h
      rw [h] at hend
      rw [hend] at hbit
      cases hbit.1
    refine ⟨?_, ?_⟩
    · rw [around, Nat.mod_eq_of_lt hlt]
      exact hbit.1
    · rw [around, show (63 + countrZero (x &&& (x + 1))) % 64 = countrZero (x &&& (x + 1)) - 1 by omega]
      exact hbelow _ (by omega) (by omega)
  · have hall : countrZero (x &&& (x + 1)) = 64 := Nat.le_antisymm hr hge
    rw [hall] at hbelow ⊢
    refine ⟨?_, hbelow 63 (by omega) (by omega)⟩
    by_contra hzero
    have ht0 : countrOne x = 0 := by
      by_contra hpos
      exact hzero (getLsbD_of_lt_countrOne (Nat.pos_of_ne_zero hpos))
    refine hempty (BitVec.eq_of_getLsbD_eq fun i hi => ?_)
    rw [hbelow i hi (by omega)]
    simp

theorem getLsbD_normalized (r : ℕ) {i : ℕ} (hi : i < 64) :
    (x.rotateRight r).getLsbD i = around x (i + r) := getLsbD_rotate x r hi

/-- The first element: a run of ones, zeros up to the size, and then a one or the end of the word. -/
theorem element_spec {n : BitVec 64} (hfirst : n.getLsbD 0 = true) (hlast : n.getLsbD 63 = false) :
    0 < countrOne n ∧ countrOne n < countrZero (n &&& (n + 1)) ∧ countrZero (n &&& (n + 1)) ≤ 64 ∧
      (∀ i < countrOne n, n.getLsbD i = true) ∧
      ∀ i, countrOne n ≤ i → i < countrZero (n &&& (n + 1)) → n.getLsbD i = false := by
  have hpos : 0 < countrOne n := by
    refine Nat.pos_of_ne_zero fun h => ?_
    have hbit := getLsbD_countrOne (show countrOne n < 64 by omega)
    rw [h, hfirst] at hbit
    cases hbit
  have hlt : countrOne n < 64 := by
    by_contra hge
    rw [getLsbD_of_lt_countrOne (show 63 < countrOne n by omega)] at hlast
    cases hlast
  have hzeros : ∀ i, countrOne n ≤ i → i < countrZero (n &&& (n + 1)) → n.getLsbD i = false := by
    intro i hle hi
    have hbit := getLsbD_of_lt_countrZero hi
    rw [getLsbD_and_add_one, decide_eq_true hle, Bool.and_true] at hbit
    exact hbit
  refine ⟨hpos, ?_, countrZero_le _, fun i hi => getLsbD_of_lt_countrOne hi, hzeros⟩
  rcases Nat.lt_or_ge (countrZero (n &&& (n + 1))) 64 with he | he
  · have hbit := getLsbD_countrZero he
    rw [getLsbD_and_add_one, Bool.and_eq_true, decide_eq_true_iff] at hbit
    refine lt_of_le_of_ne hbit.2 fun h => ?_
    have hend := getLsbD_countrOne hlt
    rw [h, hbit.1] at hend
    cases hend
  · omega

theorem rotateRight_eq_iff (e : ℕ) : x.rotateRight e = x ↔ ∀ i, around x (i + e) = around x i := by
  constructor
  · intro h i
    have hi := Nat.mod_lt i (show 0 < 64 by decide)
    have hbit := congrArg (fun y => y.getLsbD (i % 64)) h
    simp only [getLsbD_rotate x e hi, Nat.mod_add_mod] at hbit
    exact hbit
  · intro h
    refine BitVec.eq_of_getLsbD_eq fun i hi => ?_
    rw [getLsbD_rotate x e hi]
    have hbit := h i
    rw [around, around, Nat.mod_eq_of_lt hi] at hbit
    exact hbit

theorem mem_sizes_of_dvd {e : ℕ} (he : e ∣ 64) (hle : 2 ≤ e) : e ∈ [2, 4, 8, 16, 32, 64] := by
  have hdivisors : ∀ e < 65, e ∣ 64 → 2 ≤ e → e ∈ [2, 4, 8, 16, 32, 64] := by decide
  exact hdivisors e (Nat.lt_succ_of_le (Nat.le_of_dvd (by decide) he)) he hle

theorem ofValue_valid (h : (ofValue x).valid = true) :
    ∃ e ∈ [2, 4, 8, 16, 32, 64], ∃ ones rotation, 0 < ones ∧ ones < e ∧ rotation ≤ 64 ∧
      ofValue x = ofElement e rotation ones ∧
      ∀ i, around x i = decide ((i + (64 - rotation)) % e < ones) := by
  by_cases hends : x = 0 ∨ ~~~x = 0
  · rw [ofValue, if_pos hends] at h
    cases h
  rw [ofValue, if_neg hends] at h ⊢
  rw [not_or] at hends
  dsimp only at h ⊢
  obtain ⟨hfirst, hlast⟩ := normalized_ends hends.1 hends.2
  have hr := countrZero_le (x &&& (x + 1))
  generalize countrZero (x &&& (x + 1)) = r at hfirst hlast hr h ⊢
  have hbits := @getLsbD_normalized x r
  generalize x.rotateRight r = n at hbits h ⊢
  have hn0 : n.getLsbD 0 = true := by rw [hbits (by decide), Nat.zero_add, hfirst]
  have hn63 : n.getLsbD 63 = false := by rw [hbits (by decide), hlast]
  obtain ⟨hpos, hlt, hle, hones, hzeros⟩ := element_spec hn0 hn63
  generalize countrZero (n &&& (n + 1)) = e at hlt hle hzeros h ⊢
  generalize countrOne n = o at hpos hlt hones hzeros h ⊢
  have hrot : x.rotateRight e = x := by
    by_contra hne
    rw [if_pos hne] at h
    cases h
  rw [if_neg (not_not.mpr hrot)]
  have hperiod := (rotateRight_eq_iff e).mp hrot
  have hword : ∀ i, around x (i + 64) = around x i := fun i => by rw [around, around, Nat.add_mod_right]
  obtain ⟨hdvd, hrun⟩ := @run_periodic (fun i => around x (i + r)) 64 e o (by decide)
    (fun i => by rw [Nat.add_right_comm, hword]) (fun i => by rw [Nat.add_right_comm, hperiod]) hpos hlt
    (fun i hi => by rw [← hbits (by omega), hones i hi])
    (fun i hoi hie => by rw [← hbits (by omega), hzeros i hoi hie]) hlast
  refine ⟨e, mem_sizes_of_dvd hdvd (by omega), o, r, hpos, hlt, hr, rfl, fun i => ?_⟩
  rw [← hrun, Nat.add_assoc, Nat.sub_add_cancel hr, hword]

theorem ofValue_of_run {e ones p : ℕ} (he : e ∈ [2, 4, 8, 16, 32, 64]) (hpos : 0 < ones) (hlt : ones < e)
    (hrun : ∀ i, around x i = decide ((i + p) % e < ones)) : (ofValue x).valid = true := by
  have hdvd : e ∣ 64 := by
    have hall : ∀ e ∈ [2, 4, 8, 16, 32, 64], e ∣ 64 := by decide
    exact hall e he
  have he0 : 0 < e := by omega
  obtain ⟨q, hq⟩ := hdvd
  have hq0 : 0 < q := Nat.pos_of_ne_zero fun h => by simp [h] at hq
  have hsize : e ≤ 64 := hq ▸ Nat.le_mul_of_pos_right e hq0
  have hword : ∀ i, around x (i + 64) = around x i := fun i => by rw [around, around, Nat.add_mod_right]
  -- there is a place of the word with a one and a place with a zero
  have hone : ∃ i, around x i = true := by
    refine ⟨e - p % e, ?_⟩
    have hmod := Nat.mod_lt p he0
    rw [hrun, decide_eq_true_iff, ← Nat.add_mod_mod, Nat.sub_add_cancel hmod.le, Nat.mod_self]
    exact hpos
  have hzero : ∃ i, around x i = false := by
    refine ⟨e - p % e + (e - 1), ?_⟩
    have hmod := Nat.mod_lt p he0
    rw [hrun, decide_eq_false_iff_not, Nat.add_right_comm, Nat.add_mod, ← Nat.add_mod_mod _ p,
      Nat.sub_add_cancel hmod.le, Nat.mod_self, Nat.zero_add, Nat.mod_mod,
        Nat.mod_eq_of_lt (show e - 1 < e by omega)]
    omega
  have hempty : x ≠ 0 := by
    rintro rfl
    obtain ⟨i, hi⟩ := hone
    simp [around] at hi
  have hfull : ~~~x ≠ 0 := by
    intro h
    obtain ⟨i, hi⟩ := hzero
    have hbit := congrArg (fun y => y.getLsbD (i % 64)) h
    rw [around] at hi
    have hi64 := Nat.mod_lt i (show 0 < 64 by decide)
    simp [hi64] at hbit
    rw [BitVec.getLsbD_eq_getElem hi64] at hi
    rw [hbit] at hi
    cases hi
  rw [ofValue, if_neg (not_or.mpr ⟨hempty, hfull⟩)]
  obtain ⟨hfirst, hlast⟩ := normalized_ends hempty hfull
  generalize countrZero (x &&& (x + 1)) = r at hfirst hlast ⊢
  have hbits := @getLsbD_normalized x r
  dsimp only
  -- the rotation goes to the start of an element
  have hstart : (r + p) % e = 0 := by
    rw [hrun, decide_eq_true_iff] at hfirst
    rw [hrun, decide_eq_false_iff_not] at hlast
    by_contra hne
    have hprev : (63 + r + p) % e = (r + p) % e - 1 := by
      have hmod := Nat.mod_lt (r + p) he0
      rw [show 63 + r + p = (r + p) / e * e + ((r + p) % e - 1) + q * e by
        have hsplit := Nat.div_add_mod (r + p) e
        rw [Nat.mul_comm] at hsplit
        rw [Nat.mul_comm q e, ← hq]
        omega, Nat.add_mul_mod_self_right, Nat.mul_add_mod_self_right, Nat.mod_eq_of_lt (by omega)]
    omega
  have hnorm : ∀ i < 64, (x.rotateRight r).getLsbD i = decide (i % e < ones) := by
    intro i hi
    rw [hbits hi, hrun, Nat.add_assoc, Nat.add_mod, hstart, Nat.add_zero, Nat.mod_mod]
  generalize x.rotateRight r = n at hnorm ⊢
  have hcount : countrOne n = ones := by
    refine countrOne_eq (by omega) (fun i hi => ?_) fun h => ?_
    · rw [hnorm i (by omega), Nat.mod_eq_of_lt (by omega), decide_eq_true hi]
    · rw [hnorm ones h, Nat.mod_eq_of_lt hlt, decide_eq_false (lt_irrefl _)]
  have hsize' : countrZero (n &&& (n + 1)) = e := by
    refine countrZero_eq hsize (fun i hi => ?_) fun h => ?_
    · rw [getLsbD_and_add_one, hcount, hnorm i (by omega), Nat.mod_eq_of_lt hi]
      by_cases hi' : i < ones
      · rw [decide_eq_false (Nat.not_le.mpr hi'), Bool.and_false]
      · rw [decide_eq_false hi', Bool.false_and]
    · rw [getLsbD_and_add_one, hcount, hnorm e h, Nat.mod_self, decide_eq_true hpos,
        decide_eq_true hlt.le]
      rfl
  have hrot : x.rotateRight e = x := (rotateRight_eq_iff e).mpr fun i => by
    rw [hrun, hrun, Nat.add_right_comm, Nat.add_mod_right]
  rw [hsize', if_neg (not_not.mpr hrot)]
  rfl

end Element

/-! ## The fields -/

theorem fields_spec {e ones rotation : ℕ} (he : e ∈ [2, 4, 8, 16, 32, 64]) (hpos : 0 < ones)
    (hlt : ones < e) (hrotation : rotation ≤ 64) :
    (ofElement e rotation ones).elementSize = some e ∧
      (ofElement e rotation ones).s.toNat % e + 1 = ones ∧
      (ofElement e rotation ones).r.toNat % e = (64 - rotation) % e := by
  have hs : ∀ e ∈ [2, 4, 8, 16, 32, 64], ∀ ones < e, 0 < ones →
      (ofElement e 0 ones).elementSize = some e ∧ (ofElement e 0 ones).s.toNat % e + 1 = ones := by
    decide +kernel
  have hr : ∀ e ∈ [2, 4, 8, 16, 32, 64], ∀ rotation < 65,
      (ofElement e rotation 1).r.toNat % e = (64 - rotation) % e := by
    decide +kernel
  obtain ⟨hsize, hones⟩ := hs e he ones hlt hpos
  exact ⟨hsize, hones, hr e he rotation (Nat.lt_succ_of_le hrotation)⟩

theorem getLsbD_pattern {width size S R i : ℕ} (hsize : 0 < size) (hi : i < width) :
    (pattern width size S R).getLsbD i = decide ((i + R) % size < S + 1) := by
  have hmod := Nat.mod_lt i hsize
  rw [pattern, BitVec.getLsbD_eq_getElem hi, BitVec.getElem_ofFnLE, getLsbD_rotate _ R hmod,
    Nat.mod_add_mod]
  have hmod' := Nat.mod_lt (i + R) hsize
  rw [BitVec.getLsbD, BitVec.toNat_ofNat, Nat.testBit_mod_two_pow, Nat.testBit_two_pow_sub_one,
    decide_eq_true hmod', Bool.true_and]

theorem decode_ofElement {width e ones rotation : ℕ} (he : e ∈ [2, 4, 8, 16, 32, 64]) (hpos : 0 < ones)
    (hlt : ones < e) (hrotation : rotation ≤ 64) (hwidth : e ≤ width) :
    ∃ value, (ofElement e rotation ones).decode width = some value ∧
      ∀ i < width, value.getLsbD i = decide ((i + (64 - rotation)) % e < ones) := by
  obtain ⟨hsize, hones, hr⟩ := fields_spec he hpos hlt hrotation
  refine ⟨pattern width e (ones - 1) ((64 - rotation) % e), ?_, ?_⟩
  · have hS : (ofElement e rotation ones).s.toNat % e = ones - 1 := by omega
    rw [decode, hsize]
    dsimp only
    rw [hS, hr, if_pos ⟨hwidth, by omega⟩]
  · intro i hi
    rw [getLsbD_pattern (by omega) hi, Nat.add_mod_mod, Nat.sub_add_cancel hpos]

/-! ## The values -/

theorem isRepeatedRun_iff_valid (x : BitVec 64) :
    ((ofValue x).valid = true ↔ IsRepeatedRun x) ∧
      ((ofValue x).valid = true → (ofValue x).decode 64 = some x) := by
  have haround : ∀ i < 64, around x i = x.getLsbD i := fun i hi => by rw [around, Nat.mod_eq_of_lt hi]
  refine ⟨⟨fun h => ?_, ?_⟩, fun h => ?_⟩
  · obtain ⟨e, he, ones, rotation, hpos, hlt, -, -, hrun⟩ := ofValue_valid h
    have hsize : ∀ e ∈ [2, 4, 8, 16, 32, 64], e ≤ 64 := by decide
    exact ⟨e, he, hsize e he, ones, _, hpos, hlt, fun i hi => by rw [← haround i hi, hrun]⟩
  · rintro ⟨e, he, -, ones, p, hpos, hlt, hrun⟩
    refine ofValue_of_run (p := p) he hpos hlt fun i => ?_
    have hdvd : ∀ e ∈ [2, 4, 8, 16, 32, 64], e ∣ 64 := by decide
    rw [around, hrun _ (Nat.mod_lt i (by decide)), Nat.add_mod, Nat.mod_mod_of_dvd i (hdvd e he),
      ← Nat.add_mod]
  · obtain ⟨e, he, ones, rotation, hpos, hlt, hrotation, heq, hrun⟩ := ofValue_valid h
    have hsize : ∀ e ∈ [2, 4, 8, 16, 32, 64], e ≤ 64 := by decide
    obtain ⟨value, hvalue, hbits⟩ := @decode_ofElement 64 e ones rotation he hpos hlt hrotation (hsize e he)
    rw [heq, hvalue, Option.some_inj]
    refine BitVec.eq_of_getLsbD_eq fun i hi => ?_
    rw [hbits i hi, ← hrun, haround i hi]

theorem getLsbD_widen (v : BitVec 32) {i : ℕ} (hi : i < 64) :
    (widen (v.setWidth 64) .b32).getLsbD i = v.getLsbD (i % 32) := by
  have hmask : (0xFFFFFFFF : BitVec 64).getLsbD i = decide (i < 32) :=
    BitRuns.getLsbD_of_low_ones (by decide) i
  rw [widen, BitVec.getLsbD_or, BitVec.getLsbD_shiftLeft, BitVec.getLsbD_and, hmask,
    BitVec.getLsbD_setWidth, BitVec.getLsbD_setWidth, decide_eq_true hi]
  by_cases hlow : i < 32
  · rw [Nat.mod_eq_of_lt hlow]
    simp [hlow]
  · rw [Nat.mod_eq_sub_mod (by omega), Nat.mod_eq_of_lt (by omega)]
    simp [hlow]
    omega

theorem not_run_widen (v : BitVec 32) {ones p : ℕ} (hpos : 0 < ones) (hlt : ones < 64) :
    ¬ ∀ i < 64, (widen (v.setWidth 64) .b32).getLsbD i = decide ((i + p) % 64 < ones) := by
  intro hrun
  have hhalf : ∀ i < 64, ((i + p) % 64 < ones ↔ ((i + 32) % 64 + p) % 64 < ones) := by
    intro i hi
    have hi' := Nat.mod_lt (i + 32) (show 0 < 64 by decide)
    rw [← decide_eq_decide, ← hrun i hi, ← hrun _ hi', getLsbD_widen v hi, getLsbD_widen v hi',
      show (i + 32) % 64 % 32 = i % 32 by omega]
  -- the first one of the run is above its half, and the last zero of the word is not
  have hfirst := hhalf ((64 - p % 64) % 64) (by omega)
  have hlast := hhalf ((127 - p % 64) % 64) (by omega)
  omega

/-- An element of the word that is made of a value twice is one of the value. -/
theorem isRepeatedRun_widen (v : BitVec 32) :
    IsRepeatedRun (widen (v.setWidth 64) .b32) ↔ IsRepeatedRun v := by
  constructor
  · rintro ⟨e, he, -, ones, p, hpos, hlt, hrun⟩
    have hbit : ∀ i < 32, v.getLsbD i = decide ((i + p) % e < ones) := fun i hi => by
      rw [← hrun i (by omega), getLsbD_widen v (by omega), Nat.mod_eq_of_lt hi]
    have hsize : ∀ e ∈ [2, 4, 8, 16, 32, 64], e ≤ 32 ∨ e = 64 := by decide
    rcases hsize e he with hle | rfl
    · exact ⟨e, he, hle, ones, p, hpos, hlt, hbit⟩
    · exact absurd hrun (not_run_widen v hpos hlt)
  · rintro ⟨e, he, hle, ones, p, hpos, hlt, hrun⟩
    refine ⟨e, he, by omega, ones, p, hpos, hlt, fun i hi => ?_⟩
    have hdvd : ∀ e ∈ [2, 4, 8, 16, 32, 64], e ≤ 32 → e ∣ 32 := by decide
    rw [getLsbD_widen v hi, hrun _ (Nat.mod_lt i (by decide)), Nat.add_mod,
      Nat.mod_mod_of_dvd i (hdvd e he hle), ← Nat.add_mod]

/-- **The encoding is sound and complete**, for registers of 64 and of 32 bits. -/
theorem logicalImm_valid_iff :
    (∀ value : BitVec 64, ((new value .b64).valid = true ↔ IsRepeatedRun value) ∧
      ((new value .b64).valid = true → (new value .b64).decode 64 = some value)) ∧
    ∀ value : BitVec 32,
      ((new (value.setWidth 64) .b32).valid = true ↔ IsRepeatedRun value) ∧
      ((new (value.setWidth 64) .b32).valid = true →
        (new (value.setWidth 64) .b32).decode 32 = some value) := by
  refine ⟨isRepeatedRun_iff_valid, fun value => ⟨?_, fun h => ?_⟩⟩
  · exact (isRepeatedRun_iff_valid _).1.trans (isRepeatedRun_widen value)
  · obtain ⟨e, he, ones, rotation, hpos, hlt, hrotation, heq, hrun⟩ := ofValue_valid h
    have hbits : ∀ i < 64, (widen (value.setWidth 64) .b32).getLsbD i
        = decide ((i + (64 - rotation)) % e < ones) := fun i hi => by
      rw [← hrun, around, Nat.mod_eq_of_lt hi]
    have hsize : ∀ e ∈ [2, 4, 8, 16, 32, 64], e ≤ 32 ∨ e = 64 := by decide
    rcases hsize e he with hle | rfl
    · obtain ⟨value', hvalue', hbits'⟩ := @decode_ofElement 32 e ones rotation he hpos hlt hrotation hle
      rw [new, heq, hvalue', Option.some_inj]
      ext i hi
      rw [← BitVec.getLsbD_eq_getElem, ← BitVec.getLsbD_eq_getElem, hbits' i hi,
        ← hbits i (by omega), getLsbD_widen value (by omega), Nat.mod_eq_of_lt hi]
    · exact absurd hbits (not_run_widen value hpos hlt)

end Arm64Gen
