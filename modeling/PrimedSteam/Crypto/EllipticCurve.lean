import PrimedSteam.Crypto.BigNumber

/-!
# Signatures

Elements of the field are arrays of 30 bytes, of which seven bits are not used. Keys and signatures come from
outside as bytes.

* `Elt.mulX`, `Elt.square`, `Elt.mul`, `Elt.inv`: the operations of the field.
* `Elt.Clear`: the seven bits are clear. All operations keep this.
* `sign`, `verifySignature`: what is returned, with the numbers that it is computed of. `drawM` is the loop for the
  random one.
* `signing_iff`, `verifying_iff`, `modular_iff`: when these are reduced.
-/

set_option autoImplicit false

namespace EllipticCurve

open ByteOrder BigNumber

/-! ## Elements -/

/-- The bytes of an element. -/
abbrev Elt := List Byte

namespace Elt

def zero : Elt := List.replicate 30 0

def isZero (a : Elt) : Bool := a.all (· == 0)

/-- `square`: the bits of four with zeros between them. -/
def squareTable : List Byte :=
  [0x00, 0x01, 0x04, 0x05, 0x10, 0x11, 0x14, 0x15, 0x40, 0x41, 0x44, 0x45, 0x50, 0x51, 0x54, 0x55]

/-- The loop of `MulX`, from the second byte on; the carry goes to the last byte. -/
def mulXLoop (carry : Byte) : Byte → List Byte → List Byte
  | x, [] => [x ^^^ carry]
  | x, y :: ys => (x ^^^ y >>> 7) :: mulXLoop carry (y <<< 1) ys

/-- `MulX` -/
def mulX (a : Elt) : Elt :=
  let carry := a.headD 0 &&& 1
  (mulXLoop carry 0 a.tail).modify 20 (· ^^^ carry <<< 2)

/-- The squares of the halves of the bytes. -/
def widen (a : Elt) : List Byte :=
  a.flatMap fun (b : Byte) => [squareTable.getD (b >>> 4).toNat 0, squareTable.getD (b &&& 15).toNat 0]

/-- The loop of `Square` that reduces the upper half. -/
def reduceWide (wide : List Byte) (i : ℕ) : List Byte :=
  let x := wide.getD i 0
  (((wide.modify (i + 19) (· ^^^ x >>> 7)).modify (i + 20) (· ^^^ x <<< 1)).modify (i + 29) (· ^^^ x >>> 1)).modify
    (i + 30) (· ^^^ x <<< 7)

/-- The end of `Square`, for the bits of byte 30. -/
def finishWide (wide : List Byte) : List Byte :=
  let x := wide.getD 30 0 &&& ~~~1
  (((wide.modify 49 (· ^^^ x >>> 7)).modify 50 (· ^^^ x <<< 1)).modify 59 (· ^^^ x >>> 1)).modify 30 (· &&& 1)

/-- `Square` -/
def square (a : Elt) : Elt := (finishWide ((List.range 30).foldl reduceWide (widen a))).drop 30

/-- `operator+` -/
def add (a b : Elt) : Elt := List.zipWith (· ^^^ ·) a b

/-- The loop of `operator*`: the byte and the mask of the bits, from the highest one. -/
def mulLoop (a b : Elt) : ℕ → Elt → ℕ → Byte → Elt
  | 0, d, _, _ => d
  | n + 1, d, i, mask =>
    let d := mulX d
    let d := if a.getD i 0 &&& mask ≠ 0 then add d b else d
    if mask >>> 1 = 0 then mulLoop a b n d (i + 1) 0x80 else mulLoop a b n d i (mask >>> 1)

/-- `operator*` -/
def mul (a b : Elt) : Elt := mulLoop a b 233 zero 0 1

/-- `ItohTsujii` -/
def itohTsujii (a b : Elt) (j : ℕ) : Elt := mul (square^[j] a) b

/-- `Inv` -/
def inv (a : Elt) : Elt :=
  let t := itohTsujii a a 1
  let s := itohTsujii t a 1
  let t := itohTsujii s s 3
  let s := itohTsujii t a 1
  let t := itohTsujii s s 7
  let s := itohTsujii t t 14
  let t := itohTsujii s a 1
  let s := itohTsujii t t 29
  let t := itohTsujii s s 58
  let s := itohTsujii t t 116
  square s

/-- `operator/` -/
def div (dividend divisor : Elt) : Elt := mul dividend (inv divisor)

/-- The last byte with its lowest bit changed. -/
def addOne (a : Elt) : Elt := a.modify 29 (· ^^^ 1)

end Elt

/-! ## Points -/

structure Point where
  x : Elt
  y : Elt

namespace Point

open Elt

def zero : Point := ⟨Elt.zero, Elt.zero⟩

/-- The point of 60 bytes. -/
def ofBytes (data : List Byte) : Point := ⟨data.take 30, (data.drop 30).take 30⟩

def isZero (p : Point) : Bool := p.x.isZero && p.y.isZero

/-- `Double` -/
def double (p : Point) : Point :=
  if p.x.isZero then zero
  else
    let s := Elt.add (div p.y p.x) p.x
    let rx := addOne (Elt.add (square s) s)
    ⟨rx, Elt.add (Elt.add (mul s rx) rx) (square p.x)⟩

/-- `operator+` -/
def add (a b : Point) : Point :=
  if a.isZero then b
  else if b.isZero then a
  else
    let u := Elt.add a.x b.x
    if u.isZero then
      if (Elt.add a.y b.y).isZero then a.double else zero
    else
      let s := div (Elt.add a.y b.y) u
      let t := addOne (Elt.add (Elt.add (square s) s) b.x)
      let rx := Elt.add t a.x
      ⟨rx, Elt.add (Elt.add (mul s t) a.y) rx⟩

/-- `operator*` -/
def scalarMul (a : List Byte) (b : Point) : Point :=
  (bits a).foldl (fun d bit => let d := d.double; if bit then add d b else d) zero

end Point

/-- `ec_N` -/
def ecN : List Byte :=
  [0x01, 0x00, 0x00, 0x00, 0x00, 0x00, 0x00, 0x00, 0x00, 0x00, 0x00, 0x00, 0x00, 0x00, 0x00,
    0x13, 0xe9, 0x74, 0xe7, 0x2f, 0x8a, 0x69, 0x22, 0x03, 0x1d, 0x26, 0x03, 0xcf, 0xe0, 0xd7]

/-- `ec_G` -/
def ecG : Point where
  x := [0x00, 0xfa, 0xc9, 0xdf, 0xcb, 0xac, 0x83, 0x13, 0xbb, 0x21, 0x39, 0xf1, 0xbb, 0x75, 0x5f,
    0xef, 0x65, 0xbc, 0x39, 0x1f, 0x8b, 0x36, 0xf8, 0xf8, 0xeb, 0x73, 0x71, 0xfd, 0x55, 0x8b]
  y := [0x01, 0x00, 0x6a, 0x08, 0xa4, 0x19, 0x03, 0x35, 0x06, 0x78, 0xe5, 0x85, 0x28, 0xbe, 0xbf,
    0x8a, 0x0b, 0xef, 0xf8, 0x67, 0xa7, 0xca, 0x36, 0x71, 0x6f, 0x7e, 0x01, 0xf8, 0x10, 0x52]

/-! ## Signing -/

/-- A number that is not below the order loses it. -/
def reduceOnce (a : List Byte) : List Byte := if 0 ≤ bnCompare a ecN then bnSubModulus a ecN else a

/-- The inverse modulo the order, which fits the arrays. -/
def invModN (a : List Byte) : List Byte := (bnInv a ecN).getD []

/-- The hash as a number of 30 bytes. -/
def hashNumber (hash : List Byte) : List Byte := List.replicate 10 0 ++ hash

/-- The loop of `Sign` for `m`, over the blocks of 30 bytes that are generated, of which it keeps 233 bits. It goes
on while the number is not below the order; `none` has used all blocks. -/
def drawM : List (List Byte) → Option (List Byte)
  | [] => none
  | block :: blocks =>
    let m := block.modify 0 (· &&& 1)
    if 0 ≤ bnCompare m ecN then drawM blocks else some m

/-- The numbers of `Sign`, and what it returns. -/
structure Signing where
  m : List Byte
  r : List Byte
  key : List Byte
  product : List Byte
  hash : List Byte
  sum : List Byte
  minv : List Byte
  s : List Byte
  signature : List Byte

/-- `Sign`, with the blocks that are generated. -/
def sign (key hash : List Byte) (generated : List (List Byte)) : Option Signing :=
  (drawM generated).map fun m =>
    let r := reduceOnce (Point.scalarMul m ecG).x
    let kk := reduceOnce key
    let product := bnMul r kk ecN
    let e := hashNumber hash
    let sum := bnAdd product e ecN
    let minv := invModN m
    let s := bnMul minv sum ecN
    ⟨m, r, kk, product, e, sum, minv, s, r ++ s⟩

/-- What is passed as residues: to `bn_mul`, `bn_add`, `bn_inv` and `bn_mul`. -/
def Signing.operands (numbers : Signing) : List (List Byte) :=
  [numbers.r, numbers.key, numbers.product, numbers.hash, numbers.m, numbers.minv, numbers.sum]

/-- The numbers of `VerifySignature`, and what it returns. -/
structure Verification where
  R : List Byte
  S : List Byte
  Sinv : List Byte
  hash : List Byte
  w1 : List Byte
  w2 : List Byte
  result : Bool

/-- `VerifySignature` -/
def verifySignature (publicKey signature hash : List Byte) : Verification :=
  let R := signature.take 30
  let S := (signature.drop 30).take 30
  let Sinv := invModN S
  let e := hashNumber hash
  let w1 := bnMul e Sinv ecN
  let w2 := bnMul R Sinv ecN
  let r1 := Point.add (Point.scalarMul w1 ecG) (Point.scalarMul w2 (Point.ofBytes publicKey))
  ⟨R, S, Sinv, e, w1, w2, bnCompare (reduceOnce r1.x) R == 0⟩

/-- What is passed as residues: to `bn_inv` and twice to `bn_mul`. -/
def Verification.operands (numbers : Verification) : List (List Byte) :=
  [numbers.S, numbers.hash, numbers.Sinv, numbers.R, numbers.Sinv]

/-- The numbers are reduced. -/
def OperandsReduced (operands : List (List Byte)) : Prop := ∀ x ∈ operands, bigEndian x < bigEndian ecN

/-! ## The unused bits -/

namespace Elt

/-- The seven highest bits are clear. -/
structure Clear (a : Elt) : Prop where
  length_eq : a.length = 30
  head_lt : (a.headD 0).toNat < 2

variable {a b : Elt}

theorem length_mulXLoop (carry x : Byte) (ys : List Byte) : (mulXLoop carry x ys).length = ys.length + 1 := by
  induction ys generalizing x with
  | nil => rfl
  | cons y ys ih => rw [mulXLoop, List.length_cons, ih, List.length_cons]

theorem headD_modify (l : List Byte) (n : ℕ) (f : Byte → Byte)
    (hn : 0 < n) : (l.modify n f).headD 0 = l.headD 0 := by
  obtain ⟨n, rfl⟩ : ∃ k, n = k + 1 := ⟨n - 1, by omega⟩
  cases l with
  | nil => rfl
  | cons x l => rfl

theorem mulX_clear (h : a.length = 30) : Clear (mulX a) := by
  refine ⟨?_, ?_⟩
  · rw [mulX, List.length_modify, length_mulXLoop, List.length_tail, h]
  · obtain ⟨y, ys, hys⟩ : ∃ y ys, a.tail = y :: ys :=
      List.exists_cons_of_length_pos (by rw [List.length_tail, h]; decide)
    rw [mulX, headD_modify _ _ _ (by decide), hys, mulXLoop, List.headD_cons, BitVec.toNat_xor,
      BitVec.toNat_ushiftRight,
      Nat.shiftRight_eq_div_pow]
    change 0 ^^^ _ < 2
    rw [Nat.zero_xor]
    have hy := y.isLt
    omega

theorem add_clear (ha : Clear a) (hb : Clear b) : Clear (add a b) := by
  obtain ⟨x, as, rfl⟩ := List.exists_cons_of_length_pos (show 0 < a.length by rw [ha.length_eq]; decide)
  obtain ⟨y, bs, rfl⟩ := List.exists_cons_of_length_pos (show 0 < b.length by rw [hb.length_eq]; decide)
  refine ⟨by rw [add, List.length_zipWith, ha.length_eq, hb.length_eq]; rfl, ?_⟩
  rw [add, List.zipWith_cons_cons, List.headD_cons, BitVec.toNat_xor]
  exact Nat.xor_lt_two_pow (n := 1) ha.head_lt hb.head_lt

theorem addOne_clear (ha : Clear a) : Clear (addOne a) :=
  ⟨by rw [addOne, List.length_modify, ha.length_eq],
    by rw [addOne, headD_modify _ _ _ (by decide)]; exact ha.head_lt⟩

theorem zero_clear : Clear zero := ⟨rfl, by decide⟩

theorem length_widen (a : Elt) : (widen a).length = 2 * a.length := by
  induction a with
  | nil => rfl
  | cons b a ih =>
    rw [widen, List.flatMap_cons, List.length_append]
    change 2 + (widen a).length = 2 * (a.length + 1)
    omega

theorem length_reduceWide (wide : List Byte) (i : ℕ) : (reduceWide wide i).length = wide.length := by
  rw [reduceWide, List.length_modify, List.length_modify, List.length_modify, List.length_modify]

theorem square_clear (h : a.length = 30) : Clear (square a) := by
  have hloop : ∀ (is : List ℕ) (wide : List Byte), (is.foldl reduceWide wide).length = wide.length := by
    intro is
    induction is with
    | nil => exact fun wide => rfl
    | cons i is ih => exact fun wide => (ih _).trans (length_reduceWide wide i)
  have hwide := hloop (List.range 30) (widen a)
  rw [length_widen, h] at hwide
  rw [square]
  generalize (List.range 30).foldl reduceWide (widen a) = wide at hwide
  refine ⟨?_, ?_⟩
  · rw [List.length_drop, finishWide, List.length_modify, List.length_modify, List.length_modify, List.length_modify,
      hwide]
  · rw [finishWide]
    generalize ((wide.modify 49 _).modify 50 _).modify 59 _ = finished
    rw [List.headD_eq_head?_getD, List.head?_drop, List.getElem?_modify_eq]
    cases finished[30]? with
    | none => decide
    | some x =>
      change (x &&& 1).toNat < 2
      rw [BitVec.toNat_and]
      exact Nat.lt_succ_of_le Nat.and_le_right

theorem mul_clear (a : Elt) (hb : Clear b) : Clear (mul a b) := by
  have hloop : ∀ (n : ℕ) (d : Elt) (i : ℕ) (mask : Byte), Clear d → Clear (mulLoop a b n d i mask) := by
    intro n
    induction n with
    | zero => exact fun d i mask hd => hd
    | succ n ih =>
      intro d i mask hd
      have hnext : Clear (if a.getD i 0 &&& mask ≠ 0 then add (mulX d) b else mulX d) := by
        split_ifs
        · exact add_clear (mulX_clear hd.length_eq) hb
        · exact mulX_clear hd.length_eq
      rw [mulLoop]
      by_cases hmask : mask >>> 1 = 0
      · rw [if_pos hmask]
        exact ih _ _ _ hnext
      · rw [if_neg hmask]
        exact ih _ _ _ hnext
  rw [mul]
  exact hloop 233 zero 0 1 zero_clear

theorem itohTsujii_clear (a : Elt) (hb : Clear b) (j : ℕ) : Clear (itohTsujii a b j) := mul_clear _ hb

theorem inv_clear (ha : Clear a) : Clear (inv a) := by
  rw [inv]
  exact square_clear (itohTsujii_clear _ (itohTsujii_clear _ (itohTsujii_clear _
    (itohTsujii_clear _ ha 1) 29) 58) 116).length_eq

attribute [irreducible] square mul inv

theorem div_clear (a : Elt) (hb : Clear b) : Clear (div a b) := mul_clear a (inv_clear hb)

theorem bigEndian_lt_of_clear (h : Clear a) : bigEndian a < 2 ^ 233 := by
  obtain ⟨x, as, rfl⟩ := List.exists_cons_of_length_pos (show 0 < a.length by rw [h.length_eq]; decide)
  have hhead : x.toNat < 2 := h.head_lt
  have hlength : as.length = 29 := Nat.succ.inj h.length_eq
  have hlt := BigNumber.bigEndian_lt as
  rw [hlength] at hlt
  rw [BigNumber.bigEndian_cons, hlength]
  omega

end Elt

namespace Point

open Elt

/-- Both coordinates have clear bits. -/
structure Clear (p : Point) : Prop where
  x_clear : p.x.Clear
  y_clear : p.y.Clear

variable {p q : Point}

theorem zero_clear : zero.Clear := ⟨Elt.zero_clear, Elt.zero_clear⟩

theorem double_clear (hp : p.Clear) : p.double.Clear := by
  rw [double]
  split_ifs
  · exact zero_clear
  · have hs := Elt.add_clear (div_clear p.y hp.x_clear) hp.x_clear
    have hx := addOne_clear (Elt.add_clear (square_clear hs.length_eq) hs)
    exact ⟨hx, Elt.add_clear (Elt.add_clear (mul_clear _ hx) hx) (square_clear hp.x_clear.length_eq)⟩

theorem add_clear (hp : p.Clear) (hq : q.Clear) : (add p q).Clear := by
  rw [add]
  dsimp only
  split_ifs
  · exact hq
  · exact hp
  · exact double_clear hp
  · exact zero_clear
  · have hu := Elt.add_clear hp.x_clear hq.x_clear
    have hs := div_clear (Elt.add p.y q.y) hu
    have ht := addOne_clear (Elt.add_clear (Elt.add_clear (square_clear hs.length_eq) hs) hq.x_clear)
    have hx := Elt.add_clear ht hp.x_clear
    exact ⟨hx, Elt.add_clear (Elt.add_clear (mul_clear _ ht) hp.y_clear) hx⟩

theorem scalarMul_clear (a : List Byte) (hp : p.Clear) : (scalarMul a p).Clear := by
  have hloop : ∀ (bs : List Bool) (d : Point), d.Clear →
      (bs.foldl (fun d bit => let d := d.double; if bit then add d p else d) d).Clear := by
    intro bs
    induction bs with
    | nil => exact fun d hd => hd
    | cons bit bs ih =>
      intro d hd
      cases bit with
      | false => exact ih _ (double_clear hd)
      | true => exact ih _ (add_clear (double_clear hd) hp)
  exact hloop (bits a) zero zero_clear

end Point

/-! ## Reduced numbers -/

section Operands

variable {key hash publicKey m bytes : List Byte} {generated : List (List Byte)}

theorem ecN_spec : ecN.length = 30 ∧ 2 ^ 232 ≤ bigEndian ecN ∧ bigEndian ecN < 2 ^ 233 := by
  refine ⟨rfl, by decide +kernel, by decide +kernel⟩

theorem ecG_clear : ecG.Clear := ⟨⟨rfl, by decide⟩, ⟨rfl, by decide⟩⟩

/-- A number is reduced by one subtraction if it is below two moduli. -/
theorem reduceOnce_spec (h : bytes.length = 30) : (reduceOnce bytes).length = 30 ∧
    (bigEndian (reduceOnce bytes) < bigEndian ecN ↔ bigEndian bytes < 2 * bigEndian ecN) := by
  obtain ⟨hlength, hlow, -⟩ := ecN_spec
  have hsame : bytes.length = ecN.length := h.trans hlength.symm
  rw [reduceOnce]
  by_cases hle : bigEndian ecN ≤ bigEndian bytes
  · rw [if_pos ((bnCompare_nonneg_iff hsame).mpr hle), bigEndian_bnSubModulus hsame hle]
    exact ⟨(length_bnSubModulus hsame).trans hlength, by omega⟩
  · rw [if_neg fun hc => hle ((bnCompare_nonneg_iff hsame).mp hc)]
    exact ⟨h, by omega⟩

theorem invModN_reduced (h : Reduced ecN bytes) : Reduced ecN (invModN bytes) := by
  obtain ⟨hlength, hlow, -⟩ := ecN_spec
  have hsize : ecN.length ≤ arraySize := by
    rw [hlength]
    decide
  have hone : 1 < bigEndian ecN := lt_of_lt_of_le (by norm_num) hlow
  rw [invModN]
  exact bnInv_reduced h hsize hone.ne'

attribute [irreducible] invModN

theorem hashNumber_reduced (h : hash.length = 20) : Reduced ecN (hashNumber hash) := by
  obtain ⟨hlength, hlow, -⟩ := ecN_spec
  have hlt := BigNumber.bigEndian_lt hash
  rw [h] at hlt
  refine ⟨by rw [hashNumber, List.length_append, List.length_replicate, h, hlength], ?_⟩
  rw [hashNumber, bigEndian_zeros_append]
  exact hlt.trans (lt_of_lt_of_le (by norm_num) hlow)

/-- The number that the loop ends with is below the order. -/
theorem drawM_reduced (hgenerated : ∀ block ∈ generated, block.length = 30) (h : drawM generated = some m) :
    Reduced ecN m := by
  induction generated with
  | nil => cases h
  | cons block blocks ih =>
    have hlength : (block.modify 0 (· &&& 1)).length = ecN.length := by
      rw [List.length_modify, hgenerated block List.mem_cons_self, ecN_spec.1]
    rw [drawM] at h
    split_ifs at h with hcompare
    · exact ih (fun block hblock => hgenerated block (List.mem_cons_of_mem _ hblock)) h
    · cases h
      exact ⟨hlength, lt_of_not_ge fun hle => hcompare ((bnCompare_nonneg_iff hlength).mpr hle)⟩

/-- The numbers of a signature that are below the order, if the key is below two of it. -/
structure Signing.Reduced (numbers : Signing) : Prop where
  operands : OperandsReduced numbers.operands
  r : BigNumber.Reduced ecN numbers.r
  s : BigNumber.Reduced ecN numbers.s

theorem sign_reduced {numbers : Signing} (hkey : key.length = 30) (hhash : hash.length = 20)
    (hgenerated : ∀ block ∈ generated, block.length = 30) (h : sign key hash generated = some numbers)
    (hlt : bigEndian key < 2 * bigEndian ecN) : numbers.Reduced := by
  obtain ⟨m, hdraw, rfl⟩ := Option.map_eq_some_iff.mp h
  have hm := drawM_reduced hgenerated hdraw
  obtain ⟨hlength, hlow, -⟩ := ecN_spec
  have hclear := (Point.scalarMul_clear m ecG_clear).x_clear
  obtain ⟨hrLength, hrIff⟩ := reduceOnce_spec hclear.length_eq
  obtain ⟨hkeyLength, hkeyIff⟩ := reduceOnce_spec hkey
  have hrlt := Elt.bigEndian_lt_of_clear hclear
  have hr : Reduced ecN (reduceOnce (Point.scalarMul m ecG).x) :=
    ⟨hrLength.trans hlength.symm, hrIff.mpr (by omega)⟩
  have hk : Reduced ecN (reduceOnce key) := ⟨hkeyLength.trans hlength.symm, hkeyIff.mpr hlt⟩
  have hpos : 0 < bigEndian ecN := lt_of_le_of_lt (Nat.zero_le _) hm.lt
  obtain ⟨hproduct, -⟩ := bnMul_spec hpos hk.length_eq hk.lt.le (reduceOnce (Point.scalarMul m ecG).x)
  have hhashReduced := hashNumber_reduced hhash
  have hproductLt := hproduct.lt
  have hhashLt := hhashReduced.lt
  obtain ⟨hsum, -⟩ := bnAdd_spec hproduct.length_eq hhashReduced.length_eq (by omega)
  have hminv := invModN_reduced hm
  refine ⟨fun x hx => ?_, hr, (bnMul_spec hpos hsum.length_eq hsum.lt.le _).1⟩
  simp only [Signing.operands, List.mem_cons, List.not_mem_nil, or_false] at hx
  rcases hx with rfl | rfl | rfl | rfl | rfl | rfl | rfl
  · exact hr.lt
  · exact hk.lt
  · exact hproductLt
  · exact hhashLt
  · exact hm.lt
  · exact hminv.lt
  · exact hsum.lt

/-- The numbers of every signature are reduced, however often the loop draws. -/
def SigningReduced (key hash : List Byte) : Prop :=
  ∀ (generated : List (List Byte)) (numbers : Signing), (∀ block ∈ generated, block.length = 30) →
    sign key hash generated = some numbers → OperandsReduced numbers.operands

/-- **When the numbers of signatures are reduced**: if the key is below two moduli. -/
theorem signing_iff (hkey : key.length = 30) (hhash : hash.length = 20) :
    SigningReduced key hash ↔ bigEndian key < 2 * bigEndian ecN := by
  constructor
  · intro h
    -- the first block is below the order
    have hblock : ∀ block ∈ [small 30 1], block.length = 30 := fun block hblock => by
      rw [List.mem_singleton.mp hblock]
      rfl
    have hnumbers := h [small 30 1] _ hblock rfl
    exact (reduceOnce_spec hkey).2.mp (hnumbers (reduceOnce key) (List.mem_cons_of_mem _ List.mem_cons_self))
  · exact fun hlt generated numbers hgenerated h => (sign_reduced hkey hhash hgenerated h hlt).operands

/-- **When the numbers of a verification are reduced**: if both parts of the signature are. -/
theorem verifying_iff (hbytes : bytes.length = 60) (hhash : hash.length = 20) :
    OperandsReduced (verifySignature publicKey bytes hash).operands ↔
      bigEndian (bytes.take 30) < bigEndian ecN ∧ bigEndian ((bytes.drop 30).take 30) < bigEndian ecN := by
  constructor
  · intro h
    have hR : bytes.take 30 ∈ (verifySignature publicKey bytes hash).operands := by
      simp only [verifySignature, Verification.operands, List.mem_cons, true_or, or_true]
    exact ⟨h _ hR, h _ List.mem_cons_self⟩
  · rintro ⟨hR, hS⟩
    have hlength : ((bytes.drop 30).take 30).length = ecN.length := by
      rw [List.length_take, List.length_drop, hbytes]
      rfl
    have hinv := invModN_reduced ⟨hlength, hS⟩
    intro x hx
    simp only [verifySignature, Verification.operands, List.mem_cons, List.not_mem_nil, or_false] at hx
    rcases hx with rfl | rfl | rfl | rfl | rfl
    · exact hS
    · exact (hashNumber_reduced hhash).lt
    · exact hinv.lt
    · exact hR
    · exact hinv.lt

/-- **What was signed is verified with reduced numbers**, if the key was below two moduli. -/
theorem verifying_of_sign {numbers : Signing} (hkey : key.length = 30) (hhash : hash.length = 20)
    (hgenerated : ∀ block ∈ generated, block.length = 30) (h : sign key hash generated = some numbers)
    (hlt : bigEndian key < 2 * bigEndian ecN) :
    OperandsReduced (verifySignature publicKey numbers.signature hash).operands := by
  obtain ⟨-, hr, hs⟩ := sign_reduced hkey hhash hgenerated h hlt
  have hsignature : numbers.signature = numbers.r ++ numbers.s := by
    obtain ⟨m, -, rfl⟩ := Option.map_eq_some_iff.mp h
    rfl
  have hrLength : numbers.r.length = 30 := hr.length_eq.trans ecN_spec.1
  have hsLength : numbers.s.length = 30 := hs.length_eq.trans ecN_spec.1
  have htake : numbers.signature.take 30 = numbers.r := by
    rw [hsignature, List.take_left' hrLength]
  have hdrop : (numbers.signature.drop 30).take 30 = numbers.s := by
    rw [hsignature, List.drop_left' hrLength, List.take_of_length_le hsLength.le]
  refine (verifying_iff (by rw [hsignature, List.length_append, hrLength, hsLength]) hhash).mpr ?_
  rw [htake, hdrop]
  exact ⟨hr.lt, hs.lt⟩

end Operands

/-- What a use of the numbers has: a modulus with reduced numbers and an exponent, and the bytes for signatures and
for a verification. -/
structure Use where
  modulus : List Byte
  a : List Byte
  b : List Byte
  exponent : List Byte
  key : List Byte
  publicKey : List Byte
  hash : List Byte
  signature : List Byte

/-- The numbers are below the modulus, and the arrays have their sizes. -/
structure Use.Valid (u : Use) : Prop where
  a_reduced : Reduced u.modulus u.a
  b_reduced : Reduced u.modulus u.b
  key_length : u.key.length = 30
  hash_length : u.hash.length = 20
  signature_length : u.signature.length = 60

/-- The arithmetic is modular, and signing and verifying compute with reduced numbers. -/
structure Use.Modular (u : Use) : Prop where
  arithmetic : ArithmeticModular u.modulus u.a u.b u.exponent
  signing : SigningReduced u.key u.hash
  verifying : OperandsReduced (verifySignature u.publicKey u.signature u.hash).operands

/-- **When every use is modular**: if and only if the numbers fit, the key is below two moduli, and the parts of the
signature are reduced. -/
theorem modular_iff {u : Use} (h : u.Valid) : u.Modular ↔ Fits u.modulus u.a u.exponent ∧
    bigEndian u.key < 2 * bigEndian ecN ∧
    bigEndian (u.signature.take 30) < bigEndian ecN ∧ bigEndian ((u.signature.drop 30).take 30) < bigEndian ecN := by
  have harithmetic := arithmeticModular_iff h.a_reduced h.b_reduced u.exponent
  have hsigning := signing_iff h.key_length h.hash_length
  have hverifying := @verifying_iff u.hash u.publicKey u.signature h.signature_length h.hash_length
  constructor
  · exact fun hu => ⟨harithmetic.mp hu.arithmetic, hsigning.mp hu.signing, hverifying.mp hu.verifying⟩
  · exact fun ⟨ha, hs, hv⟩ => ⟨harithmetic.mpr ha, hsigning.mpr hs, hverifying.mpr hv⟩

/-- A signature with such a second part, and zeros elsewhere. -/
def sampleUse (s : List Byte) : Use where
  modulus := [7]
  a := [3]
  b := [5]
  exponent := [2]
  key := small 30 1
  publicKey := ecG.x ++ ecG.y
  hash := List.replicate 20 0
  signature := List.replicate 30 0 ++ s

theorem sampleUse_valid {s : List Byte} (hs : s.length = 30) : (sampleUse s).Valid where
  a_reduced := ⟨rfl, show bigEndian ([3] : List Byte) < bigEndian ([7] : List Byte) by decide⟩
  b_reduced := ⟨rfl, show bigEndian ([5] : List Byte) < bigEndian ([7] : List Byte) by decide⟩
  key_length := rfl
  hash_length := rfl
  signature_length := by
    change (List.replicate 30 0 ++ s).length = 60
    rw [List.length_append, List.length_replicate, hs]

/-- With such a part below the order, everything is modular. -/
theorem modular_sample : (sampleUse (small 30 1)).Valid ∧ (sampleUse (small 30 1)).Modular := by
  have hfits : Fits [7] [3] [2] := ⟨fun h => absurd h (by decide), fun _ => by decide, fun _ _ => by decide⟩
  have hone : bigEndian (small 30 1) < bigEndian ecN := by decide +kernel
  have hzero : bigEndian (List.replicate 30 (0 : Byte)) < bigEndian ecN := by decide +kernel
  have hkey : bigEndian (small 30 1) < 2 * bigEndian ecN := by omega
  exact ⟨sampleUse_valid rfl, (modular_iff (sampleUse_valid rfl)).mpr ⟨hfits, hkey, hzero, hone⟩⟩

/-- A signature whose second part is the order itself is computed with. -/
theorem not_modular_order : (sampleUse ecN).Valid ∧ ¬(sampleUse ecN).Modular := by
  refine ⟨sampleUse_valid rfl, fun h => ?_⟩
  have hlt := h.verifying ecN List.mem_cons_self
  exact absurd hlt (lt_irrefl _)

end EllipticCurve
