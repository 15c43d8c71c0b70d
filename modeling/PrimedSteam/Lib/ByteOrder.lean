import Mathlib.Data.Nat.Digits.Defs

/-!
# The order of bytes

Numbers as lists of bytes, the least or the most significant one first, and the bytes of a word.

* `toBytes_littleEndian`: a number below `256 ^ n` and `n` bytes are the same.
* `bswap_littleEndian`: a swap after a load reads the other order.
-/

set_option autoImplicit false

namespace ByteOrder

/-- The number with these bytes, the least significant one first. -/
def littleEndian : List (BitVec 8) → ℕ
  | [] => 0
  | b :: bs => b.toNat + 256 * littleEndian bs

/-- The number with these bytes, the most significant one first. -/
def bigEndian (bs : List (BitVec 8)) : ℕ :=
  littleEndian bs.reverse

/-- The last `n` bytes of a number, the least significant one first. -/
def toBytes : ℕ → ℕ → List (BitVec 8)
  | 0, _ => []
  | n + 1, v => BitVec.ofNat 8 v :: toBytes n (v / 256)

/-- The number of `n` bytes with the opposite order of bytes. -/
def bswap (n v : ℕ) : ℕ :=
  littleEndian (toBytes n v).reverse

theorem littleEndian_lt (bs : List (BitVec 8)) : littleEndian bs < 256 ^ bs.length := by
  induction bs with
  | nil => exact Nat.one_pos
  | cons b bs ih =>
    have hb : b.toNat < 256 := b.isLt
    rw [littleEndian, List.length_cons, Nat.pow_succ]
    omega

theorem toBytes_littleEndian (bs : List (BitVec 8)) : toBytes bs.length (littleEndian bs) = bs := by
  induction bs with
  | nil => rfl
  | cons b bs ih =>
    have hb : b.toNat < 256 := b.isLt
    have hbyte : BitVec.ofNat 8 (b.toNat + 256 * littleEndian bs) = b := by
      apply BitVec.eq_of_toNat_eq
      rw [BitVec.toNat_ofNat]
      omega
    have hrest : (b.toNat + 256 * littleEndian bs) / 256 = littleEndian bs := by omega
    rw [List.length_cons, littleEndian, toBytes, hbyte, hrest, ih]

theorem littleEndian_toBytes (n v : ℕ) : littleEndian (toBytes n v) = v % 256 ^ n := by
  induction n generalizing v with
  | zero => exact (Nat.mod_one v).symm
  | succ n ih =>
    have hmul : v % 256 ^ (n + 1) = v % 256 + 256 * (v / 256 % 256 ^ n) := by
      rw [Nat.pow_succ', Nat.mod_mul]
    rw [toBytes, littleEndian, ih, BitVec.toNat_ofNat, hmul]

theorem bswap_littleEndian (bs : List (BitVec 8)) : bswap bs.length (littleEndian bs) = bigEndian bs := by
  rw [bswap, toBytes_littleEndian, bigEndian]

theorem bigEndian_concat (bs : List (BitVec 8)) (b : BitVec 8) :
    bigEndian (bs ++ [b]) = bigEndian bs * 256 + b.toNat := by
  rw [bigEndian, List.reverse_append, List.reverse_singleton, List.singleton_append, littleEndian,
    Nat.add_comm, Nat.mul_comm]
  rfl

theorem bigEndian_lt (bs : List (BitVec 8)) : bigEndian bs < 256 ^ bs.length := by
  rw [← List.length_reverse]
  exact littleEndian_lt bs.reverse

/-! ## Bytes of a word -/

variable {w : ℕ}

/-- The byte `i` of a word, the least significant one first. -/
def byteOf (x : BitVec w) (i : ℕ) : BitVec 8 :=
  x.extractLsb' (8 * i) 8

theorem toNat_byteOf (x : BitVec w) (i : ℕ) : (byteOf x i).toNat = x.toNat / 256 ^ i % 256 := by
  have hpow : 2 ^ (8 * i) = 256 ^ i := Nat.pow_mul 2 8 i
  rw [byteOf, BitVec.extractLsb'_toNat, Nat.shiftRight_eq_div_pow, hpow]

theorem toBytes_eq_map (x : BitVec w) (n : ℕ) : toBytes n x.toNat = (List.range n).map (byteOf x) := by
  have hgeneral : ∀ k, toBytes n (x.toNat / 256 ^ k) = (List.range n).map fun i => byteOf x (k + i) := by
    induction n with
    | zero => exact fun _ => rfl
    | succ n ih =>
      intro k
      have hbyte : BitVec.ofNat 8 (x.toNat / 256 ^ k) = byteOf x k := by
        apply BitVec.eq_of_toNat_eq
        rw [BitVec.toNat_ofNat, toNat_byteOf]
      have hdiv : x.toNat / 256 ^ k / 256 = x.toNat / 256 ^ (k + 1) := by
        rw [Nat.div_div_eq_div_mul, Nat.pow_succ]
      have hrest : (fun i => byteOf x (k + 1 + i)) = (fun i => byteOf x (k + i)) ∘ Nat.succ := by
        funext i
        exact congrArg (byteOf x) (Nat.add_right_comm k 1 i)
      rw [toBytes, hbyte, hdiv, ih, List.range_succ_eq_map, List.map_cons, List.map_map, hrest]
      rfl
  have hzero := hgeneral 0
  rw [Nat.pow_zero, Nat.div_one] at hzero
  rw [hzero]
  exact List.map_congr_left fun i _ => congrArg (byteOf x) (Nat.zero_add i)

/-- The bytes of a word, the most significant one first. -/
theorem bigEndian_byteOf (x : BitVec w) (n : ℕ) :
    bigEndian ((List.range n).map fun i => byteOf x (n - 1 - i)) = x.toNat % 256 ^ n := by
  have hreverse : (List.range n).map (fun i => byteOf x (n - 1 - i)) =
      ((List.range n).map (byteOf x)).reverse := by
    refine List.ext_getElem (by rw [List.length_map, List.length_reverse, List.length_map]) fun i _ _ => ?_
    rw [List.getElem_map, List.getElem_reverse, List.getElem_map, List.getElem_range, List.getElem_range,
      List.length_map, List.length_range]
  rw [bigEndian, hreverse, List.reverse_reverse, ← toBytes_eq_map, littleEndian_toBytes]

end ByteOrder
