import Mathlib.Data.List.GetD
import Mathlib.Tactic.IntervalCases
import PrimedSteam.Lib.TextLines
import PrimedSteam.VideoCommon.HideObjectFile
import PrimedSteam.ActionReplay.CipherTables

/-!
# Encrypted Action Replay codes

An encrypted line has 13 characters that stand for digits of five bits. The lines of a block are decrypted
together; the
first one has a checksum and the game of the code.

* `getVal`, `convertAlphaToBinary`: the words of lines.
* `batchDecrypt`: the words of a block, and the fields of its first line.
* `decryptARCode`: the entries of a block.
* `decodesExactly_iff`: when a block is decoded as it was encoded.
-/

set_option autoImplicit false

namespace ActionReplay

abbrev Text := List Char

structure AREntry where
  cmdAddr : Word
  value : Word
deriving DecidableEq

/-! ## Lines -/

/-- `SplitString` -/
def splitString (str : Text) (delim : Char) : List Text := TextLines.getlines delim str

/-- What a conversion of digits in base 16 leaves of a text; without digits it leaves all. -/
def afterNumber (s : Text) : Text :=
  let t := s.dropWhile HideObjectEngine.isSpace
  let t := if t.head? = some '-' ∨ t.head? = some '+' then t.tail else t
  let t := match t with
    | '0' :: x :: c :: rest =>
      if (x = 'x' ∨ x = 'X') ∧ (HideObjectEngine.hexValue? c).isSome then c :: rest else t
    | _ => t
  let rest := t.dropWhile fun c => (HideObjectEngine.hexValue? c).isSome
  if rest.length = t.length then s else rest

/-- `TryParse` in base 16, of the characters before a null character. -/
def tryParse (str : Text) : Option Word :=
  let str := str.takeWhile (· ≠ '\x00')
  if afterNumber str ≠ [] then none
  else
    let value := HideObjectEngine.strtoull str
    if 2 ^ 32 ≤ value.toNat then none else some (value.setWidth 32)

inductive Line where
  | invalid
  | entry (op : AREntry)
  | encrypted (line : Text)
deriving DecidableEq

/-- The line as an encrypted one. -/
def deserializeEncrypted (line : Text) : Line :=
  match splitString line '-' with
  | [a, b, c] => if a.length = 4 ∧ b.length = 4 ∧ c.length = 5 then .encrypted (a ++ b ++ c) else .invalid
  | _ => .invalid

/-- `DeserializeLine` -/
def deserializeLine (line : Text) : Line :=
  match splitString line ' ' with
  | [a, b] =>
    if a.length = 8 ∧ b.length = 8 then
      match tryParse a, tryParse b with
      | some cmdAddr, some value => .entry ⟨cmdAddr, value⟩
      | _, _ => deserializeEncrypted line
    else deserializeEncrypted line
  | _ => deserializeEncrypted line

/-! ## Digits -/

/-- `filter` -/
def filter : Text :=
  ['0', '1', '2', '3', '4', '5', '6', '7', '8', '9', 'A', 'B', 'C', 'D', 'E', 'F', 'G', 'H',
    'J', 'K', 'M', 'N', 'P', 'Q', 'R', 'T', 'U', 'V', 'W', 'X', 'Y', 'Z', 'I', 'L', 'O', 'S']

/-- `Common::ToUpper` -/
def toUpper (ch : Char) : Char := if 'a' ≤ ch ∧ ch ≤ 'z' then Char.ofNat (ch.toNat - 32) else ch

/-- The position that `strchr` finds, also that of the null character behind the filter. -/
def filterIndex (chr : Char) : Option ℕ := (filter ++ ['\x00']).idxOf? (toUpper chr)

section Words

variable (filterAddress : Word)

/-- `GetVal`; without a position the address of the filter is subtracted from a null pointer. -/
def getVal (chr : Char) : Word :=
  let ret := match filterIndex chr with
    | some index => BitVec.ofNat 32 index
    | none => -filterAddress
  if ret = 32 ∨ ret = 33 then 1 else if ret = 34 then 0 else if ret = 35 then 5 else ret

/-- The value of a character of a line. -/
def lineVal (line : Text) (i : ℕ) : Word := getVal filterAddress (line.getD i '\x00')

/-- The two words of a line. -/
def convertLine (line : Text) : Word × Word :=
  let val := lineVal filterAddress line
  ((List.range 6).foldl (fun valueA i => valueA ||| val i <<< ((5 - i) * 5 + 2)) (val 6 >>> 3),
    (List.range 6).foldl (fun valueB i => valueB ||| val (i + 6) <<< ((5 - i) * 5 + 4)) (val 12 >>> 1))

def popcount (x : Word) : ℕ := (List.range 32).countP fun i => x.getLsbD i

/-- The parity of a line is its last bit. -/
def parityMatches (line : Text) : Bool :=
  let (valueA, valueB) := convertLine filterAddress line
  popcount (valueA ^^^ valueB) % 2 = ((lineVal filterAddress line 12) &&& 1).toNat

/-- `ConvertAlphaToBinary`: the words, or the line where it failed. -/
def convertAlphaToBinary : List Text → Except ℕ (List (Word × Word))
  | [] => .ok []
  | line :: alpha =>
    if parityMatches filterAddress line then
      match convertAlphaToBinary alpha with
      | .ok result => .ok (convertLine filterAddress line :: result)
      | .error index => .error (index + 1)
    else .error 0

end Words

/-! ## Decryption -/

/-- `Common::swap32` -/
def swap32 (x : Word) : Word :=
  x.extractLsb' 0 8 ++ x.extractLsb' 8 8 ++ x.extractLsb' 16 8 ++ x.extractLsb' 24 8

/-- `GetCRC16` -/
def getCRC16 (codes : List Word) : BitVec 16 :=
  codes.foldl (fun (ret : BitVec 16) (code : Word) => (List.range 4).foldl (fun ret i =>
    let tmp := ((code >>> (i <<< 3)) ^^^ ret.setWidth 32).setWidth 8
    crctable0.getD ((tmp >>> 4) &&& 0x0F).toNat 0 ^^^ crctable1.getD (tmp &&& 0x0F).toNat 0 ^^^ ret >>> 8) ret) 0

/-- `VerifyCode` -/
def verifyCode (codes : List Word) : BitVec 8 :=
  let tmp := getCRC16 codes
  ((tmp >>> 12 ^^^ tmp >>> 8 ^^^ tmp >>> 4 ^^^ tmp) &&& 0x0F).setWidth 8

/-- `Unscramble1` -/
def unscramble1 (addr val : Word) : Word × Word :=
  let val := val.rotateLeft 4
  let tmp := (addr ^^^ val) &&& 0xF0F0F0F0
  let addr := addr ^^^ tmp
  let val := (val ^^^ tmp).rotateRight 0x14
  let tmp := (addr ^^^ val) &&& 0xFFFF0000
  let addr := addr ^^^ tmp
  let val := (val ^^^ tmp).rotateRight 0x12
  let tmp := (addr ^^^ val) &&& 0x33333333
  let addr := addr ^^^ tmp
  let val := (val ^^^ tmp).rotateRight 6
  let tmp := (addr ^^^ val) &&& 0x00FF00FF
  let addr := addr ^^^ tmp
  let val := (val ^^^ tmp).rotateLeft 9
  let tmp := (addr ^^^ val) &&& 0xAAAAAAAA
  ((addr ^^^ tmp).rotateLeft 1, val ^^^ tmp)

/-- `Unscramble2` -/
def unscramble2 (addr val : Word) : Word × Word :=
  let val := val.rotateRight 1
  let tmp := (addr ^^^ val) &&& 0xAAAAAAAA
  let val := val ^^^ tmp
  let addr := (addr ^^^ tmp).rotateRight 9
  let tmp := (addr ^^^ val) &&& 0x00FF00FF
  let val := val ^^^ tmp
  let addr := (addr ^^^ tmp).rotateLeft 6
  let tmp := (addr ^^^ val) &&& 0x33333333
  let val := val ^^^ tmp
  let addr := (addr ^^^ tmp).rotateLeft 0x12
  let tmp := (addr ^^^ val) &&& 0xFFFF0000
  let val := val ^^^ tmp
  let addr := (addr ^^^ tmp).rotateLeft 0x14
  let tmp := (addr ^^^ val) &&& 0xF0F0F0F0
  let val := val ^^^ tmp
  ((addr ^^^ tmp).rotateRight 4, val)

/-- The substitution of a round. -/
def substitute (x : Word) (seeds : Word × Word) : Word :=
  let tmp := x.rotateRight 4 ^^^ seeds.1
  let tmp2 := x ^^^ seeds.2
  let at' := fun (table : List Word) (word : Word) (shift : ℕ) => table.getD ((word >>> shift) &&& 0x3F).toNat 0
  at' table6 tmp 0 ^^^ at' table4 tmp 8 ^^^ at' table2 tmp 16 ^^^ at' table0 tmp 24 ^^^
    at' table7 tmp2 0 ^^^ at' table5 tmp2 8 ^^^ at' table3 tmp2 16 ^^^ at' table1 tmp2 24

/-- The rounds, two for each pair of seeds. -/
def decryptRounds : List (Word × Word) → Word × Word → Word × Word
  | first :: second :: seeds, (addr, val) =>
    let addr := addr ^^^ substitute val first
    let val := val ^^^ substitute addr second
    decryptRounds seeds (addr, val)
  | _, code => code

/-- `DecryptCode` -/
def decryptCode (code : Word × Word) : Word × Word :=
  let (addr, val) := unscramble1 (swap32 code.1) (swap32 code.2)
  let (addr, val) := decryptRounds genseeds (addr, val)
  let (addr, val) := unscramble2 addr val
  (swap32 val, swap32 addr)

/-- The words of lines, one after the other. -/
def words (codes : List (Word × Word)) : List Word := codes.flatMap fun code => [code.1, code.2]

/-! ## Fields -/

/-- `ctrl`: a word, the indices of a word and of a bit, and the number of words. -/
structure Control where
  word : Word
  wordIndex : Word
  bitIndex : Word
  size : Word

/-- The word that is read: the index is added to its value. -/
def Control.current (ctrl : Control) : Word := ctrl.word + ctrl.wordIndex <<< 2

def Control.nextWord (ctrl : Control) : Control := { ctrl with bitIndex := 0, wordIndex := ctrl.wordIndex + 1 }

/-- The loop of `GetBitString`, with the word that it reads. -/
def getBits : ℕ → Control → Word → Word → Bool × Word × Control
  | 0, ctrl, _, out => (true, out, ctrl)
  | len + 1, ctrl, tmp, out =>
    let tmp := if 0x1F < ctrl.bitIndex then ctrl.nextWord.current else tmp
    let ctrl := if 0x1F < ctrl.bitIndex then ctrl.nextWord else ctrl
    if ctrl.size ≤ ctrl.wordIndex then (false, out, ctrl)
    else
      getBits len { ctrl with bitIndex := ctrl.bitIndex + 1 } tmp
        (out <<< 1 ||| (tmp >>> (0x1F - ctrl.bitIndex).toNat &&& 1))

/-- `GetBitString` -/
def getBitString (ctrl : Control) (len : ℕ) : Word × Control :=
  let (_, out, ctrl) := getBits len ctrl ctrl.current 0
  (out, ctrl)

/-- The fields of the first line. -/
structure Fields where
  gameId : Word
  codeId : Word
  masterCode : Word
  unknown : Word
  region : Word
deriving DecidableEq

/-- The fields from the first word, in a block of so many words. -/
def readFields (word size : Word) : Fields :=
  let (gameId, ctrl) := getBitString ⟨word, 0, 4, size⟩ 11
  let (codeId, ctrl) := getBitString ctrl 17
  let (masterCode, ctrl) := getBitString ctrl 1
  let (unknown, ctrl) := getBitString ctrl 1
  let (region, _) := getBitString ctrl 2
  ⟨gameId, codeId, masterCode, unknown, region⟩

/-- The number of the words, which `BatchDecrypt` asserts not to be zero. -/
def codesSize (codes : List (Word × Word)) : Word := BitVec.ofNat 32 (2 * codes.length)

/-- The decrypted lines. -/
def decryptLoop (codes : List (Word × Word)) : List (Word × Word) :=
  (codes.take ((codesSize codes).toNat / 2)).map decryptCode ++ codes.drop ((codesSize codes).toNat / 2)

/-- The checksum is cut off the first word. -/
def cutChecksum : List (Word × Word) → List (Word × Word)
  | [] => []
  | code :: rest => (code.1 &&& 0x0FFFFFFF, code.2) :: rest

/-- `BatchDecrypt`: the codes are decrypted in place, and the fields are read if the checksum is right. -/
def batchDecrypt (codes : List (Word × Word)) : Option Fields × List (Word × Word) :=
  let tmp := ((decryptLoop codes).headD (0, 0)).1
  let decrypted := cutChecksum (decryptLoop codes)
  if tmp >>> 28 ≠ (verifyCode (words decrypted)).setWidth 32 then (none, decrypted)
  else (some (readFields (decrypted.headD (0, 0)).1 (codesSize codes)), decrypted)

def entries (codes : List (Word × Word)) : List AREntry := codes.map fun code => ⟨code.1, code.2⟩

/-- `DecryptARCode`: the entries that it appends. -/
def decryptARCode (filterAddress : Word) (encryptedLines : List Text) : List AREntry :=
  if encryptedLines = [] then []
  else
    match convertAlphaToBinary filterAddress encryptedLines with
    | .error _ => []
    | .ok codes =>
      match batchDecrypt codes with
      | (none, decrypted) => entries decrypted
      -- without the verification code
      | (some _, decrypted) => entries decrypted.tail

/-! ## What the digits encode -/

/-- The bits of the digits of a line, from the first one. -/
def digitBit (filterAddress : Word) (line : Text) (k : ℕ) : Bool :=
  (lineVal filterAddress line (k / 5)).getLsbD (4 - k % 5)

/-- A line whose characters are digits, which encode two words and a parity. -/
structure LineDecodes (filterAddress : Word) (line : Text) : Prop where
  found : ∀ c ∈ line, ∃ index < filter.length, filterIndex c = some index
  value_lt : ∀ c ∈ line, (getVal filterAddress c).toNat < 32
  valueA : ∀ k < 32, (convertLine filterAddress line).1.getMsbD k = digitBit filterAddress line k
  valueB : ∀ k < 32, (convertLine filterAddress line).2.getMsbD k = digitBit filterAddress line (32 + k)
  parity : parityMatches filterAddress line = true ↔
    popcount ((convertLine filterAddress line).1 ^^^ (convertLine filterAddress line).2) % 2
      = (digitBit filterAddress line 64).toNat

theorem filterIndex_lt_iff (c : Char) :
    (∃ index < filter.length, filterIndex c = some index) ↔ toUpper c ∈ filter := by
  constructor
  · rintro ⟨index, hlt, hindex⟩
    obtain ⟨_, heq, -⟩ := List.idxOf?_eq_some_iff.mp hindex
    rw [List.getElem_append_left hlt] at heq
    exact heq ▸ List.getElem_mem hlt
  · intro hmem
    cases hindex : filterIndex c with
    | none => exact absurd (List.mem_append_left _ hmem) (List.idxOf?_eq_none_iff.mp hindex)
    | some index =>
      refine ⟨index, ?_, rfl⟩
      obtain ⟨_, -, hfirst⟩ := List.idxOf?_eq_some_iff.mp hindex
      obtain ⟨i, hi, heq⟩ := List.getElem_of_mem hmem
      by_contra hge
      refine hfirst i (by omega) ?_
      rw [List.getElem_append_left hi, heq]

theorem toUpper_mem_filter_iff (c : Char) : toUpper c ∈ filter ↔ c.isAlphanum = true := by
  have hall : ∀ n < 128, toUpper (Char.ofNat n) ∈ filter ↔ (Char.ofNat n).isAlphanum = true := by
    decide +kernel
  rcases Nat.lt_or_ge c.toNat 128 with hlt | hge
  · have h := hall c.toNat hlt
    rwa [Char.ofNat_toNat] at h
  · have hsmall : ∀ x ∈ filter, x.toNat < 128 :=
      fun x hx => of_decide_eq_true (List.all_eq_true.mp (show (filter.all fun x => x.toNat < 128) =
        true from rfl) x hx)
    have hupper : toUpper c = c := by
      rw [toUpper, if_neg]
      rintro ⟨-, hle⟩
      have hz : c.toNat ≤ 'z'.toNat := hle
      have : 'z'.toNat = 122 := rfl
      omega
    refine iff_of_false (fun hmem => ?_) (fun hal => ?_)
    · rw [hupper] at hmem
      exact absurd (hsmall c hmem) (by omega)
    · have hranges : ((65 ≤ c.val ∧ c.val ≤ 90) ∨ 97 ≤ c.val ∧ c.val ≤ 122) ∨ 48 ≤ c.val ∧ c.val ≤ 57 := by
        change (decide (65 ≤ c.val ∧ c.val ≤ 90) || (decide (97 ≤ c.val) && decide (c.val ≤ 122)) ||
          (decide (48 ≤ c.val) && decide (c.val ≤ 57))) = true at hal
        simpa using hal
      simp only [UInt32.le_iff_toNat_le, UInt32.reduceToNat] at hranges
      have hval : c.val.toNat = c.toNat := rfl
      omega

theorem getVal_lt {filterAddress : Word} {c : Char} (h : ∃ index < filter.length, filterIndex c = some index) :
    (getVal filterAddress c).toNat < 32 := by
  obtain ⟨index, hlt, hindex⟩ := h
  have hall : ∀ i < filter.length, (if BitVec.ofNat 32 i = 32 ∨ BitVec.ofNat 32 i = 33 then (1 : Word) else
      if BitVec.ofNat 32 i = 34 then 0 else if BitVec.ofNat 32 i = 35 then 5 else BitVec.ofNat 32 i).toNat < 32 := by
    decide
  rw [getVal, hindex]
  exact hall index hlt

section Digits

variable {d : ℕ → Word}

theorem getMsbD_valueA (hd : ∀ i < 13, ∀ j (_ : j < 32), 5 ≤ j → (d i)[j] = false) {k : ℕ} (hk : k < 32) :
    ((List.range 6).foldl (fun valueA i => valueA ||| d i <<< ((5 - i) * 5 + 2)) (d 6 >>> 3)).getMsbD k
      = (d (k / 5)).getLsbD (4 - k % 5) := by
  simp only [List.range, List.range.loop, List.foldl_cons, List.foldl_nil, BitVec.getMsbD, BitVec.getLsbD_or,
    BitVec.getLsbD_shiftLeft, BitVec.getLsbD_ushiftRight]
  interval_cases k <;> simp [hd]

theorem getMsbD_valueB (hd : ∀ i < 13, ∀ j (_ : j < 32), 5 ≤ j → (d i)[j] = false) {k : ℕ} (hk : k < 32) :
    ((List.range 6).foldl (fun valueB i => valueB ||| d (i + 6) <<< ((5 - i) * 5 + 4)) (d 12 >>> 1)).getMsbD k
      = (d ((32 + k) / 5)).getLsbD (4 - (32 + k) % 5) := by
  simp only [List.range, List.range.loop, List.foldl_cons, List.foldl_nil, BitVec.getMsbD, BitVec.getLsbD_or,
    BitVec.getLsbD_shiftLeft, BitVec.getLsbD_ushiftRight]
  interval_cases k <;> simp [hd]

end Digits

theorem lineDecodes_iff {filterAddress : Word} {line : Text} (hlength : line.length = 13) :
    LineDecodes filterAddress line ↔ ∀ c ∈ line, c.isAlphanum = true := by
  have hfound : ∀ c, (∃ index < filter.length, filterIndex c = some index) ↔ c.isAlphanum = true :=
    fun c => (filterIndex_lt_iff c).trans (toUpper_mem_filter_iff c)
  constructor
  · exact fun h c hc => (hfound c).mp (h.found c hc)
  · intro h
    have hval : ∀ c ∈ line, (getVal filterAddress c).toNat < 32 := fun c hc => getVal_lt ((hfound c).mpr (h c hc))
    have hd : ∀ i < 13, ∀ j (_ : j < 32), 5 ≤ j → (lineVal filterAddress line i)[j] = false := by
      intro i hi j hj hle
      have hmem : line.getD i '\x00' ∈ line := by
        rw [List.getD_eq_getElem _ _ (by omega)]
        exact List.getElem_mem _
      have hlt : (lineVal filterAddress line i).toNat < 2 ^ j :=
        lt_of_lt_of_le (hval _ hmem) (show 2 ^ 5 ≤ 2 ^ j from Nat.pow_le_pow_right (Nat.succ_pos 1) hle)
      exact Nat.testBit_lt_two_pow hlt
    refine ⟨fun c hc => (hfound c).mpr (h c hc), hval, fun k hk => getMsbD_valueA hd hk,
      fun k hk => getMsbD_valueB hd hk, ?_⟩
    rw [parityMatches, decide_eq_true_eq]
    have hone : (lineVal filterAddress line 12 &&& 1).toNat = (digitBit filterAddress line 64).toNat := by
      have hbit := @BitVec.and_one_eq_setWidth_ofBool_getLsbD 32 (lineVal filterAddress line 12)
      have hnat := congrArg BitVec.toNat hbit
      rw [BitVec.toNat_setWidth, BitVec.toNat_ofBool] at hnat
      refine hnat.trans ?_
      change _ = ((lineVal filterAddress line 12).getLsbD 0).toNat
      cases (lineVal filterAddress line 12).getLsbD 0 with
      | true => rfl
      | false => rfl
    rw [← hone]

/-! ## Fields of a block -/

/-- The bits of a word from a position on, from the highest. -/
def bitsOf (word : Word) (start len : ℕ) : Word :=
  (List.range len).foldl (fun out i => out <<< 1 ||| (BitVec.ofBool (word.getMsbD (start + i))).setWidth 32) 0

theorem shift_and_one (tmp : Word) (bitIndex : Word) (h : bitIndex.toNat < 32) :
    tmp >>> (0x1F - bitIndex).toNat &&& 1 = (BitVec.ofBool (tmp.getMsbD bitIndex.toNat)).setWidth 32 := by
  have hsub : (0x1F - bitIndex).toNat = 31 - bitIndex.toNat := by
    rw [BitVec.toNat_sub_of_le (by rw [BitVec.le_def]; exact Nat.le_of_lt_succ h)]
    rfl
  rw [hsub, BitVec.getMsbD, decide_eq_true h, Bool.true_and]
  have hone := @BitVec.and_one_eq_setWidth_ofBool_getLsbD 32 (tmp >>> (31 - bitIndex.toNat))
  rw [BitVec.getLsbD_ushiftRight, Nat.add_zero] at hone
  exact hone

theorem getBits_spec (len : ℕ) (ctrl : Control) (tmp out : Word) (h : ctrl.bitIndex.toNat + len ≤ 32)
    (hlt : ctrl.wordIndex < ctrl.size) : getBits len ctrl tmp out
      = (true, (List.range len).foldl (fun (out : Word) i => out <<< 1 |||
          (BitVec.ofBool (tmp.getMsbD (ctrl.bitIndex.toNat + i))).setWidth 32) out,
        { ctrl with bitIndex := ctrl.bitIndex + BitVec.ofNat 32 len }) := by
  induction len generalizing ctrl out with
  | zero => simp [getBits]
  | succ len ih =>
    have hbit : ¬(0x1F : Word) < ctrl.bitIndex := by
      rw [BitVec.lt_def]
      have : (0x1F : Word).toNat = 31 := rfl
      omega
    have hnext : (ctrl.bitIndex + 1).toNat = ctrl.bitIndex.toNat + 1 := by
      rw [BitVec.toNat_add_of_lt]
      · rfl
      · have : (1 : Word).toNat = 1 := rfl
        omega
    rw [getBits, if_neg hbit, if_neg hbit, if_neg (BitVec.not_le.mpr hlt),
      ih { ctrl with bitIndex := ctrl.bitIndex + 1 } _
      (show (ctrl.bitIndex + 1).toNat + len ≤ 32 by omega) hlt]
    dsimp only
    rw [shift_and_one tmp _ (by omega), hnext, List.range_succ_eq_map, List.foldl_cons, List.foldl_map, Nat.add_zero]
    have hsum : ctrl.bitIndex + 1 + BitVec.ofNat 32 len = ctrl.bitIndex + BitVec.ofNat 32 (len + 1) := by
      rw [BitVec.add_assoc, Nat.add_comm len 1, BitVec.ofNat_add]
      rfl
    rw [hsum]
    simp only [Nat.succ_eq_add_one, Nat.add_assoc, Nat.add_comm 1, Nat.add_zero]

theorem getBitString_eq (ctrl : Control) (len : ℕ) (h : ctrl.bitIndex.toNat + len ≤ 32)
    (hlt : ctrl.wordIndex < ctrl.size) : getBitString ctrl len
      = (bitsOf ctrl.current ctrl.bitIndex.toNat len,
        { ctrl with bitIndex := ctrl.bitIndex + BitVec.ofNat 32 len }) := by
  rw [getBitString, getBits_spec len ctrl _ 0 h hlt]
  rfl

theorem getBitString_next (ctrl : Control) (len : ℕ) (h : ctrl.bitIndex = 32) (hlen : len + 1 ≤ 32)
    (hlt : ctrl.wordIndex + 1 < ctrl.size) : getBitString ctrl (len + 1)
      = (bitsOf ctrl.nextWord.current 0 (len + 1),
        { ctrl.nextWord with bitIndex := BitVec.ofNat 32 (len + 1) }) := by
  have hnext : (0x1F : Word) < 32 := by decide
  have hinside : ¬(0x1F : Word) < 0 := by decide
  have hzero : getBits (len + 1) ctrl ctrl.current 0 = getBits (len + 1) ctrl.nextWord ctrl.nextWord.current 0 := by
    rw [getBits, getBits, h, if_pos hnext, if_pos hnext, show ctrl.nextWord.bitIndex = 0 from rfl, if_neg hinside,
      if_neg hinside]
    rfl
  rw [getBitString, hzero, getBits_spec (len + 1) ctrl.nextWord _ 0
    (show 0 + (len + 1) ≤ 32 by omega) hlt]
  have hbit : ctrl.nextWord.bitIndex + BitVec.ofNat 32 (len + 1) = BitVec.ofNat 32 (len + 1) := BitVec.zero_add _
  rw [hbit]
  rfl

/-- The fields that are read: the last ones not from the second word. -/
theorem readFields_eq (word size : Word) (h : 1 < size) : readFields word size
    = ⟨bitsOf word 4 11, bitsOf word 15 17, bitsOf (word + 4) 0 1, bitsOf (word + 4) 1 1,
      bitsOf (word + 4) 2 2⟩ := by
  have h0 : (0 : Word) < size := by
    rw [BitVec.lt_def] at h ⊢
    exact lt_trans (by decide) h
  have hfirst : ∀ bitIndex, (⟨word, 0, bitIndex, size⟩ : Control).current = word := fun _ => BitVec.add_zero word
  rw [readFields, getBitString_eq ⟨word, 0, 4, size⟩ 11 (show (4 : Word).toNat + 11 ≤ 32 by decide) h0]
  dsimp only
  rw [getBitString_eq ⟨word, 0, 4 + BitVec.ofNat 32 11, size⟩ 17
    (show (4 + BitVec.ofNat 32 11 : Word).toNat + 17 ≤ 32 by decide) h0]
  dsimp only
  rw [getBitString_next ⟨word, 0, 4 + BitVec.ofNat 32 11 + BitVec.ofNat 32 17, size⟩ 0
    (show (4 + BitVec.ofNat 32 11 + BitVec.ofNat 32 17 : Word) = 32 by decide) (by decide) h]
  dsimp only [Control.nextWord]
  rw [getBitString_eq ⟨word, 0 + 1, BitVec.ofNat 32 (0 + 1), size⟩ 1
    (show (BitVec.ofNat 32 (0 + 1) : Word).toNat + 1 ≤ 32 by decide) h]
  dsimp only
  rw [getBitString_eq ⟨word, 0 + 1, BitVec.ofNat 32 (0 + 1) + BitVec.ofNat 32 1, size⟩ 2
    (show (BitVec.ofNat 32 (0 + 1) + BitVec.ofNat 32 1 : Word).toNat + 2 ≤ 32 by decide) h, hfirst, hfirst]
  rfl
/-- A field of the words, from the highest bit of the first one. -/
def fieldAt (codes : List Word) (start len : ℕ) : Word :=
  (List.range len).foldl (fun out i =>
    out <<< 1 ||| (BitVec.ofBool ((codes.getD ((start + i) / 32) 0).getMsbD ((start + i) % 32))).setWidth 32) 0

/-- A block whose lines are decoded, and whose fields are those of its words. -/
structure DecodesExactly (filterAddress : Word) (block : List Text) : Prop where
  lines : ∀ line ∈ block, LineDecodes filterAddress line
  fields : ∀ codes fields decrypted, convertAlphaToBinary filterAddress block = .ok codes →
    batchDecrypt codes = (some fields, decrypted) →
    fields.gameId = fieldAt (words decrypted) 4 11 ∧ fields.codeId = fieldAt (words decrypted) 15 17 ∧
      fields.region = fieldAt (words decrypted) 34 2

/-- The region in the second word is the one that is read from the first. -/
def RegionAgrees (decrypted : List (Word × Word)) : Prop :=
  ((decrypted.headD (0, 0)).2 >>> 28) &&& 3 = if 0x0FFFFFFC ≤ (decrypted.headD (0, 0)).1 then 1 else 0

section Block

variable {filterAddress : Word} {block : List Text} {codes : List (Word × Word)}

theorem length_deserializeEncrypted {raw line : Text} (h : deserializeEncrypted raw = .encrypted line) :
    line.length = 13 := by
  unfold deserializeEncrypted at h
  split at h
  · split_ifs at h with hlength
    cases h
    rw [List.length_append, List.length_append]
    omega
  · cases h

theorem length_of_encrypted {raw line : Text} (h : deserializeLine raw = .encrypted line) : line.length = 13 := by
  unfold deserializeLine at h
  split at h
  · split_ifs at h
    · split at h
      · cases h
      · exact length_deserializeEncrypted h
    · exact length_deserializeEncrypted h
  · exact length_deserializeEncrypted h

theorem length_convertAlphaToBinary (h : convertAlphaToBinary filterAddress block = .ok codes) :
    codes.length = block.length := by
  induction block generalizing codes with
  | nil =>
    cases h
    rfl
  | cons line block ih =>
    rw [convertAlphaToBinary] at h
    split_ifs at h
    cases hrest : convertAlphaToBinary filterAddress block with
    | error index =>
      rw [hrest] at h
      cases h
    | ok rest =>
      rw [hrest] at h
      cases h
      rw [List.length_cons, List.length_cons, ih hrest]

theorem bitsOf_two (word : Word) : bitsOf word 2 2 = word >>> 28 &&& 3 := by
  have hthree : ∀ i < 32, (3 : Word).getLsbD i = decide (i < 2) := by decide
  apply BitVec.eq_of_getLsbD_eq
  intro i hi
  rw [BitVec.getLsbD_and, BitVec.getLsbD_ushiftRight, hthree i hi]
  simp only [bitsOf, List.range, List.range.loop, List.foldl_cons, List.foldl_nil, BitVec.getLsbD_or,
    BitVec.getLsbD_shiftLeft, BitVec.getLsbD_setWidth, BitVec.getLsbD_ofBool, BitVec.getMsbD]
  rcases i with _ | _ | i
  · simp
  · simp
  · simp

/-- What is read for the region is the carry of the added index. -/
theorem carry_eq {word : Word} (h : word.toNat < 2 ^ 28) :
    (word + 4) >>> 28 &&& 3 = if 0x0FFFFFFC ≤ word then 1 else 0 := by
  have hadd : (word + 4).toNat = word.toNat + 4 := BitVec.toNat_add_of_lt (show word.toNat + 4 < 2 ^ 32 by omega)
  have hle : (0x0FFFFFFC : Word) ≤ word ↔ 0x0FFFFFFC ≤ word.toNat := BitVec.le_def
  apply BitVec.eq_of_toNat_eq
  have hthree : (3 : Word).toNat = 2 ^ 2 - 1 := rfl
  rw [BitVec.toNat_and, BitVec.toNat_ushiftRight, hadd, hthree, Nat.and_two_pow_sub_one_eq_mod,
    Nat.shiftRight_eq_div_pow]
  by_cases hbig : 0x0FFFFFFC ≤ word.toNat
  · rw [if_pos (hle.mpr hbig)]
    change _ = 1
    omega
  · rw [if_neg (fun hw => hbig (hle.mp hw))]
    change _ = 0
    omega

/-- The fields of an accepted block: all but the region are right. -/
theorem fields_spec (hsize : codesSize codes ≠ 0) {fields : Fields} {decrypted : List (Word × Word)}
    (h : batchDecrypt codes = (some fields, decrypted)) :
    fields.gameId = fieldAt (words decrypted) 4 11 ∧ fields.codeId = fieldAt (words decrypted) 15 17 ∧
      (fields.region = fieldAt (words decrypted) 34 2 ↔ RegionAgrees decrypted) := by
  have hone : 1 < codesSize codes := by
    rw [codesSize, BitVec.lt_def, BitVec.toNat_ofNat]
    rw [codesSize, ne_eq, ← BitVec.toNat_inj, BitVec.toNat_ofNat] at hsize
    change 1 < _
    change ¬_ = 0 at hsize
    omega
  obtain ⟨code, rest, hloop⟩ : ∃ code rest, decryptLoop codes = code :: rest := by
    refine List.exists_cons_of_ne_nil fun hnil => hsize ?_
    have hlength := congrArg List.length hnil
    rw [decryptLoop, List.length_append, List.length_map, List.length_take, List.length_drop,
      List.length_nil] at hlength
    rw [codesSize, show codes.length = 0 by omega]
    rfl
  rw [batchDecrypt, hloop, cutChecksum] at h
  obtain ⟨rfl, rfl⟩ : readFields (code.1 &&& 0x0FFFFFFF) (codesSize codes) = fields ∧
      (code.1 &&& 0x0FFFFFFF, code.2) :: rest = decrypted := by
    split at h
    · exact absurd (Prod.mk.inj h).1 (Option.some_ne_none fields).symm
    · obtain ⟨hfields, hdecrypted⟩ := Prod.mk.inj h
      exact ⟨Option.some.inj hfields, hdecrypted⟩
  have hsmall : (code.1 &&& 0x0FFFFFFF).toNat < 2 ^ 28 := by
    rw [BitVec.toNat_and]
    exact Nat.lt_of_le_of_lt Nat.and_le_right (by decide)
  rw [readFields_eq _ _ hone, RegionAgrees, List.headD_cons]
  refine ⟨rfl, rfl, ?_⟩
  have hfield : fieldAt (words ((code.1 &&& 0x0FFFFFFF, code.2) :: rest)) 34 2 = bitsOf code.2 2 2 := rfl
  rw [hfield, bitsOf_two, bitsOf_two, carry_eq hsmall]
  exact eq_comm

/-- **When a block is decoded as it was encoded**: if and only if its characters are letters and digits,
and the region
in the second word of an accepted block is the carry that is read for it. -/
theorem decodesExactly_iff (hlines : ∀ line ∈ block, ∃ raw, deserializeLine raw = .encrypted line)
    (hsize : BitVec.ofNat 32 (2 * block.length) ≠ 0) :
    DecodesExactly filterAddress block ↔
      (∀ line ∈ block, ∀ c ∈ line, c.isAlphanum = true) ∧
        ∀ codes fields decrypted, convertAlphaToBinary filterAddress block = .ok codes →
          batchDecrypt codes = (some fields, decrypted) → RegionAgrees decrypted := by
  have hdecodes : (∀ line ∈ block, LineDecodes filterAddress line) ↔
      ∀ line ∈ block, ∀ c ∈ line, c.isAlphanum = true := by
    refine forall₂_congr fun line hline => ?_
    obtain ⟨raw, hraw⟩ := hlines line hline
    exact lineDecodes_iff (length_of_encrypted hraw)
  have hspec : ∀ codes fields decrypted, convertAlphaToBinary filterAddress block = .ok codes →
      batchDecrypt codes = (some fields, decrypted) → _ := fun codes fields decrypted hcodes hfields =>
    fields_spec (by rw [codesSize, length_convertAlphaToBinary hcodes]; exact hsize) hfields
  constructor
  · rintro ⟨hlines, hfields⟩
    refine ⟨hdecodes.mp hlines, fun codes fields decrypted hcodes hbatch => ?_⟩
    exact (hspec codes fields decrypted hcodes hbatch).2.2.mp (hfields codes fields decrypted hcodes hbatch).2.2
  · rintro ⟨halpha, hregion⟩
    refine ⟨hdecodes.mpr halpha, fun codes fields decrypted hcodes hbatch => ?_⟩
    obtain ⟨hgame, hcode, hiff⟩ := hspec codes fields decrypted hcodes hbatch
    exact ⟨hgame, hcode, hiff.mpr (hregion codes fields decrypted hcodes hbatch)⟩

end Block

/-- A line of zeros. -/
def zeroLine : Text := List.replicate 13 '0'

theorem decodesExactly_zeroLine : (∃ raw, deserializeLine raw = .encrypted zeroLine) ∧
    (DecodesExactly 0 [zeroLine] ↔ (∀ line ∈ [zeroLine], ∀ c ∈ line, c.isAlphanum = true) ∧
      ∀ codes fields decrypted, convertAlphaToBinary 0 [zeroLine] = .ok codes →
        batchDecrypt codes = (some fields, decrypted) → RegionAgrees decrypted) := by
  have hraw : ∃ raw, deserializeLine raw = .encrypted zeroLine :=
    ⟨"0000-0000-00000".toList, by decide +kernel⟩
  exact ⟨hraw, decodesExactly_iff (fun line hline => by rw [List.mem_singleton.mp hline]; exact hraw) (by decide)⟩

/-- A line with a character that is no digit is encrypted. -/
def markedLine : Text := '!' :: List.replicate 12 '0'

theorem not_decodesExactly_markedLine : deserializeLine "!000-0000-00000".toList = .encrypted markedLine ∧
    filterIndex '!' = none ∧ ¬DecodesExactly 0 [markedLine] := by
  refine ⟨by decide +kernel, by decide +kernel, fun h => ?_⟩
  obtain ⟨index, -, hindex⟩ := (h.lines markedLine List.mem_cons_self).found '!' List.mem_cons_self
  have hnone : filterIndex '!' = none := by decide +kernel
  rw [hnone] at hindex
  cases hindex

end ActionReplay
