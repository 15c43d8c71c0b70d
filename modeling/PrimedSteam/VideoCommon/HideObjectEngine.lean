import PrimedSteam.Lib.ByteOrder
import Mathlib.Data.List.Basic
import Mathlib.Data.List.Induction

/-!
# Hide-object codes

`HideObjectEngine`: the first bytes of a vertex stream as an entry of a code, and the check of a
vertex stream against the entries of the active codes.

* `HideObjectEntry.bytes`: the bytes an entry stands for, the end of its 128-bit value.
* `buildSkipEntry_eq_bytes`: the flattened entry is these bytes.
* **`hide_object_matching`**: an entry keeps the first bytes of its prefix, and `shouldHide` is
  prefix matching.
-/

set_option autoImplicit false

namespace HideObjectEngine

open ByteOrder

abbrev Byte := BitVec 8

abbrev Text := List Char

inductive HideObjectType where
  | bits8
  | bits16
  | bits24
  | bits32
  | bits40
  | bits48
  | bits56
  | bits64
  | bits72
  | bits80
  | bits88
  | bits96
  | bits104
  | bits112
  | bits120
  | bits128
  deriving DecidableEq

/-- All types, in the order of their numbers. -/
def HideObjectType.all : List HideObjectType :=
  [.bits8, .bits16, .bits24, .bits32, .bits40, .bits48, .bits56, .bits64, .bits72, .bits80, .bits88,
    .bits96, .bits104, .bits112, .bits120, .bits128]

/-- The number of a type. -/
def HideObjectType.index (type : HideObjectType) : ℕ := HideObjectType.all.idxOf type

/-- The type with a number below 16. -/
def HideObjectType.ofIndex (i : ℕ) : HideObjectType := HideObjectType.all.getD i .bits16

/-- `GetByteCount` -/
def HideObjectType.byteCount (type : HideObjectType) : ℕ := type.index + 1

structure HideObjectEntry where
  type : HideObjectType
  valueUpper : BitVec 64
  valueLower : BitVec 64
  deriving DecidableEq

/-- The entry that a declaration without initialiser makes. -/
def HideObjectEntry.default : HideObjectEntry := ⟨.bits16, 0, 0⟩

structure HideObject where
  name : Text
  entries : List HideObjectEntry
  active : Bool
  userDefined : Bool

abbrev SkipEntry := List Byte

/-! ## Entries -/

/-- `value = (value << 8) | data[i]` for all bytes of a range. -/
def shiftIn (data : List Byte) : BitVec 64 :=
  data.foldl (fun value b => value <<< 8 ||| b.setWidth 64) 0

/-- `(value >> ((j - 1) * 8)) & 0xFF` for `j` from `count` down to 1. -/
def shiftOut (count : ℕ) (value : BitVec 64) : SkipEntry :=
  (List.range count).map fun i => ((value >>> ((count - 1 - i) * 8)) &&& 0xFF#64).setWidth 8

/-- `BuildEntryFromPrefix` of all available bytes; a null pointer has none. -/
def buildEntryFromPrefix (data : List Byte) : Option HideObjectEntry :=
  if data = [] then none
  else
    let byteCount := min data.length HideObjectType.bits128.byteCount
    let type := HideObjectType.ofIndex (byteCount - 1)
    if byteCount > 8 then
      let upperBytes := byteCount - 8
      some ⟨type, shiftIn (data.take upperBytes), shiftIn ((data.take byteCount).drop upperBytes)⟩
    else some ⟨type, 0, shiftIn (data.take byteCount)⟩

/-- `BuildSkipEntry` -/
def buildSkipEntry (entry : HideObjectEntry) : SkipEntry :=
  let byteCount := entry.type.byteCount
  if byteCount > 8 then
    shiftOut (byteCount - 8) entry.valueUpper ++ shiftOut 8 entry.valueLower
  else shiftOut byteCount entry.valueLower

/-! ## The engine -/

structure Engine where
  updating : Bool
  activeEntries : List SkipEntry

/-- `ApplyCodes` -/
def Engine.applyCodes (engine : Engine) (codes : List HideObject) : Engine :=
  let newEntries := (codes.filter (·.active)).flatMap fun code => code.entries.map buildSkipEntry
  { engine with activeEntries := newEntries, updating := false }

/-- `std::memcmp(src, entry.data(), entry.size()) == 0` -/
def sameBytes (src : ℕ → Byte) (entry : SkipEntry) : Bool :=
  (List.range entry.length).map src = entry

/-- `ShouldHide`, for the memory from `src` on. -/
def Engine.shouldHide (engine : Engine) (src : ℕ → Byte) : Bool :=
  if engine.updating then false else engine.activeEntries.any (sameBytes src)

/-! ## The bytes of an entry -/

/-- The bytes an entry stands for: the last ones of its 128-bit value, the most significant one
first. -/
def HideObjectEntry.bytes (entry : HideObjectEntry) : List Byte :=
  (List.range entry.type.byteCount).map fun i =>
    byteOf (entry.valueUpper ++ entry.valueLower) (entry.type.byteCount - 1 - i)

theorem byteCount_bits128 : HideObjectType.bits128.byteCount = 16 := rfl

theorem byteCount_le (type : HideObjectType) : type.byteCount ≤ 16 := by
  cases type <;> decide

theorem byteCount_ofIndex {n : ℕ} (hpos : 0 < n) (hle : n ≤ 16) :
    (HideObjectType.ofIndex (n - 1)).byteCount = n := by
  have hall : ∀ m < 16, (HideObjectType.ofIndex m).byteCount = m + 1 := by decide
  rw [hall (n - 1) (by omega)]
  omega

theorem byteOf_append_low {upper lower : BitVec 64} {i : ℕ} (hi : i < 8) :
    byteOf (upper ++ lower) i = byteOf lower i := by
  apply BitVec.eq_of_getLsbD_eq
  intro j hj
  have hlow : 8 * i + j < 64 := by omega
  simp only [byteOf, BitVec.getLsbD_extractLsb', BitVec.getLsbD_append, hlow, if_true]

theorem byteOf_append_high {upper lower : BitVec 64} {i : ℕ} (hi : 8 ≤ i) :
    byteOf (upper ++ lower) i = byteOf upper (i - 8) := by
  apply BitVec.eq_of_getLsbD_eq
  intro j hj
  have hhigh : ¬8 * i + j < 64 := by omega
  have hsub : 8 * i + j - 64 = 8 * (i - 8) + j := by omega
  simp only [byteOf, BitVec.getLsbD_extractLsb', BitVec.getLsbD_append, hhigh, if_false, hsub]

/-- A byte that is shifted to the end of the word and cut off there. -/
theorem setWidth_shiftRight (value : BitVec 64) (i : ℕ) :
    ((value >>> (i * 8)) &&& 0xFF#64).setWidth 8 = byteOf value i := by
  have hmask : ∀ x : BitVec 64, (x &&& 0xFF#64).setWidth 8 = x.setWidth 8 := by
    intro x
    apply BitVec.eq_of_toNat_eq
    rw [BitVec.toNat_setWidth, BitVec.toNat_setWidth, BitVec.toNat_and]
    have hand : x.toNat &&& (0xFF#64).toNat = x.toNat % 2 ^ 8 := Nat.and_two_pow_sub_one_eq_mod x.toNat 8
    rw [hand, Nat.mod_mod]
  apply BitVec.eq_of_toNat_eq
  rw [hmask, BitVec.toNat_setWidth, BitVec.toNat_ushiftRight, toNat_byteOf, Nat.shiftRight_eq_div_pow,
    Nat.mul_comm, Nat.pow_mul]

theorem shiftOut_eq_map (count : ℕ) (value : BitVec 64) :
    shiftOut count value = (List.range count).map fun i => byteOf value (count - 1 - i) :=
  List.map_congr_left fun _ _ => setWidth_shiftRight value _

theorem buildSkipEntry_eq_bytes (entry : HideObjectEntry) : buildSkipEntry entry = entry.bytes := by
  rw [buildSkipEntry, HideObjectEntry.bytes]
  have hle := byteCount_le entry.type
  generalize entry.type.byteCount = n at hle ⊢
  split
  · next hlarge =>
    have hsum : n = n - 8 + 8 := by omega
    rw [shiftOut_eq_map, shiftOut_eq_map]
    conv_rhs => rw [hsum, List.range_add, List.map_append, List.map_map]
    congr 1
    · refine List.map_congr_left fun i hi => ?_
      have hi := List.mem_range.mp hi
      rw [byteOf_append_high (by omega)]
      congr 1
      omega
    · refine List.map_congr_left fun i hi => ?_
      have hi := List.mem_range.mp hi
      rw [Function.comp_apply, byteOf_append_low (by omega)]
      congr 1
      omega
  · next hsmall =>
    rw [shiftOut_eq_map]
    refine List.map_congr_left fun i hi => ?_
    have hi := List.mem_range.mp hi
    rw [byteOf_append_low (by omega)]

/-! ## The entry of a prefix -/

/-- Up to eight bytes lose nothing when they are shifted into a word. -/
theorem toNat_shiftIn {data : List Byte} (hlen : data.length ≤ 8) :
    (shiftIn data).toNat = bigEndian data := by
  induction data using List.reverseRecOn with
  | nil => rfl
  | append_singleton data b ih =>
    rw [List.length_append, List.length_singleton] at hlen
    have ih := ih (by omega)
    have hlt : bigEndian data < 256 ^ 7 :=
      (bigEndian_lt data).trans_le (Nat.pow_le_pow_right (by omega) (by omega))
    have hb : b.toNat < 2 ^ 8 := b.isLt
    have hshift : (shiftIn data <<< 8).toNat = bigEndian data * 2 ^ 8 := by
      rw [BitVec.toNat_shiftLeft, ih, Nat.shiftLeft_eq]
      omega
    have hbyte : (b.setWidth 64).toNat = b.toNat := by
      rw [BitVec.toNat_setWidth]
      omega
    have hconcat : shiftIn (data ++ [b]) = shiftIn data <<< 8 ||| b.setWidth 64 :=
      List.foldl_concat _ _ _ _
    rw [hconcat, BitVec.toNat_or, hshift, hbyte, bigEndian_concat, Nat.mul_comm,
      ← Nat.two_pow_add_eq_or_of_lt hb]
    omega

theorem bigEndian_injective {a b : List Byte} (hlen : a.length = b.length)
    (h : bigEndian a = bigEndian b) : a = b := by
  have hbytes : a.reverse = b.reverse := by
    rw [← toBytes_littleEndian a.reverse, ← toBytes_littleEndian b.reverse, List.length_reverse,
      List.length_reverse, hlen]
    exact congrArg (toBytes b.length) h
  exact List.reverse_injective hbytes

theorem shiftOut_shiftIn {data : List Byte} (hlen : data.length ≤ 8) :
    shiftOut data.length (shiftIn data) = data := by
  rw [shiftOut_eq_map]
  refine bigEndian_injective (by rw [List.length_map, List.length_range]) ?_
  rw [bigEndian_byteOf, toNat_shiftIn hlen]
  exact Nat.mod_eq_of_lt (bigEndian_lt data)

theorem buildSkipEntry_buildEntry (data : List Byte) :
    (buildEntryFromPrefix data).map buildSkipEntry =
      if data = [] then none else some (data.take (min data.length 16)) := by
  rw [buildEntryFromPrefix]
  split
  · rfl
  next hne =>
    have hpos : 0 < data.length := List.length_pos_of_ne_nil hne
    have hn : (data.take (min data.length 16)).length = min data.length 16 := by
      rw [List.length_take]
      omega
    have hcount := @byteCount_ofIndex (min data.length 16) (by omega) (by omega)
    rw [byteCount_bits128]
    dsimp only
    split
    · next hlarge =>
      have hupper : (data.take (min data.length 16 - 8)).length = min data.length 16 - 8 := by
        rw [List.length_take]
        omega
      have hlower : ((data.take (min data.length 16)).drop (min data.length 16 - 8)).length = 8 := by
        rw [List.length_drop, hn]
        omega
      have htake : data.take (min data.length 16 - 8) =
          (data.take (min data.length 16)).take (min data.length 16 - 8) := by
        rw [List.take_take, Nat.min_eq_left (Nat.sub_le _ _)]
      rw [Option.map_some, Option.some_inj, buildSkipEntry, hcount, if_pos hlarge]
      have hfirst := shiftOut_shiftIn (hupper.trans_le (by omega : _ ≤ 8))
      have hsecond := shiftOut_shiftIn hlower.le
      rw [hupper] at hfirst
      rw [hlower] at hsecond
      rw [hfirst, hsecond, htake, List.take_append_drop]
    · next hsmall =>
      have hall := shiftOut_shiftIn (hn.trans_le (Nat.le_of_not_lt hsmall))
      rw [Option.map_some, Option.some_inj, buildSkipEntry, hcount, if_neg hsmall]
      rw [hn] at hall
      exact hall

/-! ## Matching -/

theorem sameBytes_iff (src : ℕ → Byte) (entry : SkipEntry) :
    sameBytes src entry = true ↔ ∀ i (hi : i < entry.length), entry[i] = src i := by
  rw [sameBytes, decide_eq_true_iff]
  constructor
  · intro h i hi
    have hi' : i < ((List.range entry.length).map src).length := by
      rw [List.length_map, List.length_range]
      exact hi
    have hget : ((List.range entry.length).map src)[i] = entry[i] := List.getElem_of_eq h hi'
    rw [← hget, List.getElem_map, List.getElem_range]
  · intro h
    refine List.ext_getElem (by rw [List.length_map, List.length_range]) fun i _ hi => ?_
    rw [List.getElem_map, List.getElem_range, h i hi]

theorem shouldHide_applyCodes (engine : Engine) (codes : List HideObject) (src : ℕ → Byte) :
    (engine.applyCodes codes).shouldHide src = true ↔
      ∃ code ∈ codes, code.active = true ∧ ∃ entry ∈ code.entries,
        sameBytes src (buildSkipEntry entry) = true := by
  rw [Engine.shouldHide, Engine.applyCodes, if_neg Bool.false_ne_true, List.any_eq_true]
  constructor
  · rintro ⟨bytes, hmem, hsame⟩
    obtain ⟨code, hcode, hbytes⟩ := List.mem_flatMap.mp hmem
    obtain ⟨entry, hentry, rfl⟩ := List.mem_map.mp hbytes
    obtain ⟨hcode, hactive⟩ := List.mem_filter.mp hcode
    exact ⟨code, hcode, hactive, entry, hentry, hsame⟩
  · rintro ⟨code, hcode, hactive, entry, hentry, hsame⟩
    refine ⟨_, List.mem_flatMap.mpr ⟨code, List.mem_filter.mpr ⟨hcode, hactive⟩, ?_⟩, hsame⟩
    exact List.mem_map_of_mem hentry

/-- **Prefix matching.** The entry of a byte string keeps its first bytes, and a vertex stream is
hidden exactly when the bytes of an entry of an active code are a prefix of it. -/
theorem hide_object_matching :
    (∀ data : List Byte, (buildEntryFromPrefix data).map buildSkipEntry =
      if data = [] then none else some (data.take (min data.length 16))) ∧
    ∀ (engine : Engine) (codes : List HideObject) (src : ℕ → Byte),
      (engine.applyCodes codes).shouldHide src = true ↔
        ∃ code ∈ codes, code.active = true ∧ ∃ entry ∈ code.entries,
          ∀ i (hi : i < entry.bytes.length), entry.bytes[i] = src i := by
  refine ⟨buildSkipEntry_buildEntry, fun engine codes src => ?_⟩
  have hentry : ∀ entry : HideObjectEntry, sameBytes src (buildSkipEntry entry) = true ↔
      ∀ i (hi : i < entry.bytes.length), entry.bytes[i] = src i := by
    intro entry
    rw [buildSkipEntry_eq_bytes]
    exact sameBytes_iff src entry.bytes
  rw [shouldHide_applyCodes]
  simp only [hentry]

example : (buildEntryFromPrefix ((List.range 20).map (BitVec.ofNat 8))).map buildSkipEntry =
    some ((List.range 16).map (BitVec.ofNat 8)) := by decide

end HideObjectEngine
