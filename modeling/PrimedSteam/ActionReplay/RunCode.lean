import PrimedSteam.ActionReplay.Decryption

/-!
# Running Action Replay codes

The lines of a code are run one after the other. Some codes have two lines, and a condition that does not hold skips
lines.

* `runCodeLocked`: the loop over the lines, with its flags and the count of lines to skip.
* `formatRun`: what the lines say, as a list of operations with the memory after each.
* `runLines_iff`: when the two agree.
-/

set_option autoImplicit false

namespace ActionReplay

namespace RunCode

abbrev Byte := BitVec 8

/-! ## Lines -/

inductive DataType where
  | bit8
  | bit16
  | bit32
  | bit32Float
deriving DecidableEq

namespace ARAddr

/-- `GCAddress` -/
def gcAddress (address : Word) : Word := address &&& 0x01FFFFFF ||| 0x80000000

def size (address : Word) : DataType :=
  match (address >>> 25).toNat % 4 with
  | 0 => .bit8
  | 1 => .bit16
  | 2 => .bit32
  | _ => .bit32Float

def type (address : Word) : ℕ := (address >>> 27).toNat % 8

def subtype (address : Word) : ℕ := (address >>> 30).toNat

end ARAddr

/-- The memory of the emulated machine, and the sum of floats as words. The second number of `addFloat` is
an integer. -/
structure Host (σ : Type) where
  isRam : σ → Word → Bool
  read8 : σ → Word → Byte
  read16 : σ → Word → BitVec 16
  read32 : σ → Word → Word
  write8 : σ → Word → Byte → σ
  addFloat : Word → Word → Word

/-- The memory, and what was patched: the addresses and the bytes. -/
structure Machine (σ : Type) where
  memory : σ
  patches : List (Word × List Byte)

/-- The bytes of a value, the highest one first. -/
def DataType.bytes (t : DataType) (value : Word) : List Byte :=
  match t with
  | .bit8 => [value.setWidth 8]
  | .bit16 => [(value >>> 8).setWidth 8, value.setWidth 8]
  | .bit32 | .bit32Float =>
    [(value >>> 24).setWidth 8, (value >>> 16).setWidth 8, (value >>> 8).setWidth 8, value.setWidth 8]

section Run

variable {σ : Type} (host : Host σ)

/-! ## Patches -/

/-- The loop of `ApplyMemoryPatch`. -/
def patchLoop : List Byte → Word → σ → σ
  | [], _, memory => memory
  | value :: values, address, memory =>
    let memory := if host.read8 memory address ≠ value then host.write8 memory address value else memory
    patchLoop values (address + 1) memory

/-- `ApplyMemoryPatch` -/
def applyMemoryPatch (t : DataType) (value address : Word) (m : Machine σ) : Machine σ where
  memory := if host.isRam m.memory address then patchLoop host (t.bytes value) address m.memory else m.memory
  patches := m.patches ++ [(address, t.bytes value)]

/-! ## Codes -/

/-- `Subtype_RamWriteAndFill` -/
def ramWriteAndFill (addr data : Word) (m : Machine σ) : Machine σ :=
  let newAddr := ARAddr.gcAddress addr
  match ARAddr.size addr with
  | .bit8 =>
    (List.range ((data >>> 8).toNat + 1)).foldl
      (fun m i => applyMemoryPatch host .bit8 data (newAddr + BitVec.ofNat 32 i) m) m
  | .bit16 =>
    (List.range ((data >>> 16).toNat + 1)).foldl
      (fun m i => applyMemoryPatch host .bit16 data (newAddr + BitVec.ofNat 32 i * 2) m) m
  | .bit32 | .bit32Float => applyMemoryPatch host .bit32 data newAddr m

/-- `Subtype_WriteToPointer` -/
def writeToPointer (addr data : Word) (m : Machine σ) : Machine σ :=
  let ptr := host.read32 m.memory (ARAddr.gcAddress addr)
  match ARAddr.size addr with
  | .bit8 => applyMemoryPatch host .bit8 data (ptr + data >>> 8) m
  | .bit16 => applyMemoryPatch host .bit16 data (ptr + (data >>> 16) <<< 1) m
  | .bit32 | .bit32Float => applyMemoryPatch host .bit32 data ptr m

/-- `Subtype_AddCode` -/
def addCode (addr data : Word) (m : Machine σ) : Machine σ :=
  let newAddr := ARAddr.gcAddress addr
  match ARAddr.size addr with
  | .bit8 => applyMemoryPatch host .bit8 ((host.read8 m.memory newAddr).setWidth 32 + data) newAddr m
  | .bit16 => applyMemoryPatch host .bit16 ((host.read16 m.memory newAddr).setWidth 32 + data) newAddr m
  | .bit32 => applyMemoryPatch host .bit32 (host.read32 m.memory newAddr + data) newAddr m
  | .bit32Float => applyMemoryPatch host .bit32 (host.addFloat (host.read32 m.memory newAddr) data) newAddr m

/-- The loop of `ZeroCode_FillAndSlide`. -/
def slideLoop (t : DataType) (addrIncr valIncr : Word) : ℕ → Word → Word → Machine σ → Machine σ
  | 0, _, _, m => m
  | n + 1, val, currAddr, m =>
    slideLoop t addrIncr valIncr n (val + valIncr) (currAddr + addrIncr) (applyMemoryPatch host t val currAddr m)

/-- `ZeroCode_FillAndSlide` -/
def fillAndSlide (valLast addr data : Word) (m : Machine σ) : Option (Machine σ) :=
  let newAddr := ARAddr.gcAddress valLast
  let addrIncr := (data.setWidth 16).signExtend 32
  let valIncr := ((data >>> 24).setWidth 8).signExtend 32
  let writeNum := ((data &&& 0xFF0000) >>> 16).toNat
  match ARAddr.size valLast with
  | .bit8 => some (slideLoop host .bit8 addrIncr valIncr writeNum addr newAddr m)
  | .bit16 => some (slideLoop host .bit16 (addrIncr * 2) valIncr writeNum addr newAddr m)
  | .bit32 => some (slideLoop host .bit32 (addrIncr * 4) valIncr writeNum addr newAddr m)
  | .bit32Float => none

/-- The loops of `ZeroCode_MemoryCopy`. -/
def copyLoop (n : ℕ) (src dest : Word) (m : Machine σ) : Machine σ :=
  (List.range n).foldl (fun m i => applyMemoryPatch host .bit8
    ((host.read8 m.memory (src + BitVec.ofNat 32 i)).setWidth 32) (dest + BitVec.ofNat 32 i) m) m

/-- `ZeroCode_MemoryCopy` -/
def memoryCopy (valLast addr data : Word) (m : Machine σ) : Option (Machine σ) :=
  let addrDest := valLast &&& ~~~0x06000000
  let addrSrc := ARAddr.gcAddress addr
  -- the number of bytes is a `u8`
  let numBytes : Byte := (data &&& 0x7FFF).setWidth 8
  if data &&& 0xFF0000 = 0 then
    if data >>> 24 ≠ 0 then
      let ptrDest := host.read32 m.memory addrDest
      let ptrSrc := host.read32 m.memory addrSrc
      some (copyLoop host numBytes.toNat ptrSrc ptrDest m)
    else some (copyLoop host numBytes.toNat addrSrc addrDest m)
  else none

/-- `NormalCode`; master codes are not implemented. -/
def normalCode (addr data : Word) (m : Machine σ) : Option (Machine σ) :=
  match ARAddr.subtype addr with
  | 0 => some (ramWriteAndFill host addr data m)
  | 1 => some (writeToPointer host addr data m)
  | 2 => some (addCode host addr data m)
  | _ => none

/-- `CompareValues` -/
def compareValues (val1 val2 : Word) (type : ℕ) : Bool :=
  match type with
  | 1 => val1 == val2
  | 2 => val1 != val2
  | 3 => val1.slt val2
  | 4 => val2.slt val1
  | 5 => val1.ult val2
  | 6 => val2.ult val1
  | 7 => val1 &&& val2 != 0
  | _ => false

/-- The comparison of `ConditionalCode`. -/
def conditionHolds (addr data : Word) (memory : σ) : Bool :=
  let newAddr := ARAddr.gcAddress addr
  match ARAddr.size addr with
  | .bit8 => compareValues ((host.read8 memory newAddr).setWidth 32) (data &&& 0xFF) (ARAddr.type addr)
  | .bit16 => compareValues ((host.read16 memory newAddr).setWidth 32) (data &&& 0xFFFF) (ARAddr.type addr)
  | .bit32 | .bit32Float => compareValues (host.read32 memory newAddr) data (ARAddr.type addr)

/-- `ConditionalCode`: the count of lines to skip after it. -/
def conditionalCode (addr data : Word) (skipCount : ℤ) (memory : σ) : ℤ :=
  if conditionHolds host addr data memory = false then
    if ARAddr.subtype addr ≤ 1 then (ARAddr.subtype addr : ℤ) + 1 else -(ARAddr.subtype addr : ℤ)
  else skipCount

/-! ## The loop -/

/-- The variables of `RunCodeLocked`. -/
structure Loop (σ : Type) where
  doFillAndSlide : Bool
  doMemoryCopy : Bool
  skipCount : ℤ
  valLast : Word
  machine : Machine σ

/-- The ways in which a line ends. -/
inductive Step (σ : Type) where
  | skipped (s : Loop σ)
  | executed (s : Loop σ)
  | returnTrue
  | returnFalse

def zeroCode (data : Word) (s : Loop σ) : Step σ :=
  match (data >>> 29).toNat with
  | 0 => .returnTrue
  | 2 => .executed s
  | 4 =>
    if (data >>> 25) &&& 3 = 3 then .executed { s with doMemoryCopy := true, valLast := data }
    else .executed { s with doFillAndSlide := true, valLast := data }
  | _ => .returnFalse

/-- A line when `skip_count` is not zero. -/
def skipLine (entry : AREntry) (s : Loop σ) : Step σ :=
  if 0 < s.skipCount then .skipped { s with skipCount := s.skipCount - 1 }
  else if s.skipCount = -3 then .returnTrue
  else if s.skipCount = -2 then
    .skipped (if entry.cmdAddr = 0 ∧ entry.value = 0x40000000 then { s with skipCount := 0 } else s)
  else .skipped s

/-- What is done with a line that is not skipped. -/
def executeLine (entry : AREntry) (s : Loop σ) : Step σ :=
  let addr := entry.cmdAddr
  let data := entry.value
  if s.doFillAndSlide then
    match fillAndSlide host s.valLast addr data s.machine with
    | some m => .executed { s with doFillAndSlide := false, machine := m }
    | none => .returnFalse
  else if s.doMemoryCopy then
    match memoryCopy host s.valLast addr data s.machine with
    | some m => .executed { s with doMemoryCopy := false, machine := m }
    | none => .returnFalse
  else if 0x2000 ≤ addr.toNat ∧ addr.toNat < 0x3000 then .returnFalse
  else if addr = 0 then zeroCode data s
  else if ARAddr.type addr = 0 then
    match normalCode host addr data s.machine with
    | some m => .executed { s with machine := m }
    | none => .returnFalse
  else .executed { s with skipCount := conditionalCode host addr data s.skipCount s.machine.memory }

/-- The loop, with the memory after each executed line. -/
def runLines : List AREntry → Loop σ → Option (List (Machine σ))
  | [], _ => some []
  | entry :: rest, s =>
    match if s.skipCount ≠ 0 then skipLine entry s else executeLine host entry s with
    | .skipped s => runLines rest s
    | .executed s => (runLines rest s).map (s.machine :: ·)
    | .returnTrue => some []
    | .returnFalse => none

/-- `RunCodeLocked`; `none` is an error that is reported. -/
def runCodeLocked (ops : List AREntry) (m : Machine σ) : Option (List (Machine σ)) :=
  runLines host ops ⟨false, false, 0, 0, m⟩

/-! ## The format -/

/-- What a code says. -/
inductive Op where
  | idle
  | fill (t : DataType) (address value : Word) (count : ℕ)
  | pointerWrite (t : DataType) (pointer offset value : Word)
  | increase (t : DataType) (address amount : Word)
  | slide (t : DataType) (address value : Word) (count : ℕ) (addressStep valueStep : ℤ)
  | copy (dest src : Word) (count : ℕ) (pointers : Bool)

/-- The bytes of a value. -/
def DataType.width (t : DataType) : ℕ := (t.bytes 0).length

/-- The sum in memory. -/
def increased (t : DataType) (address amount : Word) (memory : σ) : Word :=
  match t with
  | .bit8 => (host.read8 memory address).setWidth 32 + amount
  | .bit16 => (host.read16 memory address).setWidth 32 + amount
  | .bit32 => host.read32 memory address + amount
  | .bit32Float => host.addFloat (host.read32 memory address) amount

/-- The operation on the memory. -/
def Op.run (op : Op) (m : Machine σ) : Machine σ :=
  match op with
  | .idle => m
  | .fill t address value count =>
    (List.range count).foldl (fun m i => applyMemoryPatch host t value (address + BitVec.ofNat 32 (i * t.width)) m) m
  | .pointerWrite t pointer offset value => applyMemoryPatch host t value (host.read32 m.memory pointer + offset) m
  | .increase t address amount => applyMemoryPatch host t (increased host t address amount m.memory) address m
  | .slide t address value count addressStep valueStep =>
    (List.range count).foldl (fun m (i : ℕ) => applyMemoryPatch host t (value +
      BitVec.ofInt 32 ((i : ℤ) * valueStep))
      (address + BitVec.ofInt 32 ((i : ℤ) * addressStep)) m) m
  | .copy dest src count false => copyLoop host count src dest m
  | .copy dest src count true => copyLoop host count (host.read32 m.memory src) (host.read32 m.memory dest) m

/-- The number of bytes of a copy. -/
def Op.copied : Op → ℕ
  | .copy _ _ count _ => count
  | _ => 0

/-- The number of values that a word says. -/
def DataType.fillCount (t : DataType) (data : Word) : ℕ :=
  match t with
  | .bit8 => data.toNat / 2 ^ 8 + 1
  | .bit16 => data.toNat / 2 ^ 16 + 1
  | .bit32 | .bit32Float => 1

/-- The distance from a pointer that a word says. -/
def DataType.pointerOffset (t : DataType) (data : Word) : ℕ :=
  match t with
  | .bit8 => data.toNat / 2 ^ 8
  | .bit16 => data.toNat / 2 ^ 16 * 2
  | .bit32 | .bit32Float => 0

/-- The codes of one line that are not conditions. -/
def Op.ofLine (addr data : Word) : Op :=
  let t := ARAddr.size addr
  let address := ARAddr.gcAddress addr
  match ARAddr.subtype addr with
  | 0 => .fill t address data (t.fillCount data)
  | 1 => .pointerWrite t address (BitVec.ofNat 32 (t.pointerOffset data)) data
  | 2 => .increase t address data
  | _ => .idle

/-- The codes of two lines, from the value of the first one. -/
def Op.ofLines (first addr data : Word) : Op :=
  if first.toNat / 2 ^ 25 % 4 = 3 then
    .copy (first &&& ~~~0x06000000) (ARAddr.gcAddress addr) (data.toNat % 2 ^ 15) (decide (2 ^ 24 ≤ data.toNat))
  else
    let t := ARAddr.size first
    .slide t (ARAddr.gcAddress first) addr (data.toNat / 2 ^ 16 % 2 ^ 8) ((data.setWidth 16).toInt * t.width)
      ((data >>> 24).setWidth 8).toInt

/-- The line that ends a condition. -/
def endIf : AREntry := ⟨0, 0x40000000⟩

/-- The lines after a condition that does not hold. -/
def skipLines (subtype : ℕ) (rest : List AREntry) : List AREntry :=
  match subtype with
  | 0 => rest.drop 1
  | 1 => rest.drop 2
  | 2 => (rest.dropWhile (· ≠ endIf)).drop 1
  | _ => []

theorem length_skipLines_le (subtype : ℕ) (rest : List AREntry) : (skipLines subtype rest).length ≤ rest.length := by
  have huntil := (List.dropWhile_suffix (l := rest) fun entry => decide (entry ≠ endIf)).length_le
  unfold skipLines
  split
  · rw [List.length_drop]
    omega
  · rw [List.length_drop]
    omega
  · rw [List.length_drop]
    omega
  · exact Nat.zero_le _

/-- The lines after a condition. -/
def afterCondition (addr data : Word) (memory : σ) (rest : List AREntry) : List AREntry :=
  if conditionHolds host addr data memory then rest else skipLines (ARAddr.subtype addr) rest

theorem length_afterCondition_le (addr data : Word) (memory : σ) (rest : List AREntry) :
    (afterCondition host addr data memory rest).length ≤ rest.length := by
  unfold afterCondition
  split_ifs
  · exact le_rfl
  · exact length_skipLines_le _ rest

/-- The operations of the lines, each with the memory after it. -/
def formatRun : List AREntry → Machine σ → List (Op × Machine σ)
  | [], _ => []
  | entry :: rest, m =>
    if entry.cmdAddr = 0 then
      if entry.value.toNat / 2 ^ 29 = 2 then (.idle, m) :: formatRun rest m
      else if entry.value.toNat / 2 ^ 29 = 4 then
        match rest with
        | [] => [(.idle, m)]
        | second :: rest =>
          let op := Op.ofLines entry.value second.cmdAddr second.value
          (.idle, m) :: (op, op.run host m) :: formatRun rest (op.run host m)
      else []
    else if ARAddr.type entry.cmdAddr = 0 then
      let op := Op.ofLine entry.cmdAddr entry.value
      (op, op.run host m) :: formatRun rest (op.run host m)
    else (.idle, m) :: formatRun (afterCondition host entry.cmdAddr entry.value m.memory rest) m
termination_by lines => lines.length
decreasing_by
  · exact Nat.lt_succ_self _
  · exact Nat.lt_succ_of_lt (Nat.lt_succ_self _)
  · exact Nat.lt_succ_self _
  · exact Nat.lt_succ_of_le (length_afterCondition_le host _ _ _ _)

/-! ## Operations -/

variable {m m' : Machine σ} {addr data v : Word}

theorem toNat_ushiftRight (x : Word) (n : ℕ) : (x >>> n).toNat = x.toNat / 2 ^ n := by
  rw [BitVec.toNat_ushiftRight, Nat.shiftRight_eq_div_pow]

theorem ramWriteAndFill_eq (addr data : Word) (m : Machine σ) : ramWriteAndFill host addr data m
    = (Op.fill (ARAddr.size addr) (ARAddr.gcAddress addr) data ((ARAddr.size addr).fillCount data)).run host m := by
  rw [ramWriteAndFill, Op.run]
  cases ARAddr.size addr with
  | bit8 =>
    dsimp only [DataType.fillCount]
    rw [toNat_ushiftRight]
    congr 1
    funext m i
    rw [show DataType.bit8.width = 1 from rfl, Nat.mul_one]
  | bit16 =>
    dsimp only [DataType.fillCount]
    rw [toNat_ushiftRight]
    congr 1
    funext m i
    rw [show DataType.bit16.width = 2 from rfl, BitVec.ofNat_mul]
    rfl
  | bit32 =>
    change _ = applyMemoryPatch host .bit32 data (ARAddr.gcAddress addr + BitVec.ofNat 32 (0 * _)) m
    rw [Nat.zero_mul, BitVec.ofNat_eq_ofNat, BitVec.add_zero]
  | bit32Float =>
    change _ = applyMemoryPatch host .bit32 data (ARAddr.gcAddress addr + BitVec.ofNat 32 (0 * _)) m
    rw [Nat.zero_mul, BitVec.ofNat_eq_ofNat, BitVec.add_zero]

theorem writeToPointer_eq (addr data : Word) (m : Machine σ) : writeToPointer host addr data m
    = (Op.pointerWrite (ARAddr.size addr) (ARAddr.gcAddress addr)
      (BitVec.ofNat 32 ((ARAddr.size addr).pointerOffset data)) data).run host m := by
  have hdata := data.isLt
  rw [writeToPointer, Op.run]
  cases ARAddr.size addr with
  | bit8 =>
    have hoffset : data >>> 8 = BitVec.ofNat 32 (data.toNat / 2 ^ 8) := by
      apply BitVec.eq_of_toNat_eq
      rw [toNat_ushiftRight, BitVec.toNat_ofNat]
      omega
    dsimp only [DataType.pointerOffset]
    rw [hoffset]
  | bit16 =>
    have hoffset : (data >>> 16) <<< 1 = BitVec.ofNat 32 (data.toNat / 2 ^ 16 * 2) := by
      apply BitVec.eq_of_toNat_eq
      rw [BitVec.toNat_shiftLeft, toNat_ushiftRight, BitVec.toNat_ofNat, Nat.shiftLeft_eq]
    dsimp only [DataType.pointerOffset]
    rw [hoffset]
  | bit32 =>
    dsimp only [DataType.pointerOffset]
    rw [BitVec.add_zero]
  | bit32Float =>
    dsimp only [DataType.pointerOffset]
    rw [BitVec.add_zero]
    rfl

theorem addCode_eq (addr data : Word) (m : Machine σ) : addCode host addr data m
    = (Op.increase (ARAddr.size addr) (ARAddr.gcAddress addr) data).run host m := by
  rw [addCode, Op.run]
  cases ARAddr.size addr with
  | bit8 => rfl
  | bit16 => rfl
  | bit32 => rfl
  | bit32Float => rfl

/-- **A code of one line** does what it says. -/
theorem normalCode_run (h : normalCode host addr data m = some m') :
    (Op.ofLine addr data).run host m = m' ∧ (Op.ofLine addr data).copied = 0 := by
  rw [normalCode] at h
  rw [Op.ofLine]
  generalize ARAddr.subtype addr = subtype at *
  obtain rfl | rfl | rfl | hge : subtype = 0 ∨ subtype = 1 ∨ subtype = 2 ∨ 3 ≤ subtype := by omega
  · cases h
    exact ⟨(ramWriteAndFill_eq host addr data m).symm, rfl⟩
  · cases h
    exact ⟨(writeToPointer_eq host addr data m).symm, rfl⟩
  · cases h
    exact ⟨(addCode_eq host addr data m).symm, rfl⟩
  · obtain ⟨n, rfl⟩ := Nat.exists_eq_add_of_le' hge
    cases h

theorem slideLoop_eq (t : DataType) (addressStep valueStep : ℤ) (n : ℕ) (val currAddr : Word) (m : Machine σ) :
    slideLoop host t (BitVec.ofInt 32 addressStep) (BitVec.ofInt 32 valueStep) n val currAddr m
      = (Op.slide t currAddr val n addressStep valueStep).run host m := by
  rw [Op.run]
  induction n generalizing val currAddr m with
  | zero => rfl
  | succ n ih =>
    rw [slideLoop, ih, List.range_succ_eq_map, List.foldl_cons, List.foldl_map]
    have hfirst : ∀ (x : Word) (step : ℤ), x + BitVec.ofInt 32 ((0 : ℕ) * step) = x := by
      intro x step
      rw [Nat.cast_zero, zero_mul]
      exact BitVec.add_zero x
    have hnext : ∀ (x : Word) (step : ℤ) (i : ℕ), x + BitVec.ofInt 32 step + BitVec.ofInt 32 (i * step)
        = x + BitVec.ofInt 32 (i.succ * step) := by
      intro x step i
      rw [BitVec.add_assoc, ← BitVec.ofInt_add, Nat.cast_succ, add_mul, one_mul, add_comm step]
    rw [hfirst, hfirst]
    congr 1
    funext m i
    rw [hnext, hnext]

/-- **A fill and slide** does what it says. -/
theorem fillAndSlide_run (h : fillAndSlide host v addr data m = some m') (hsize : v.toNat / 2 ^ 25 % 4 ≠ 3) :
    (Op.ofLines v addr data).run host m = m' ∧ (Op.ofLines v addr data).copied = 0 := by
  have hcount : ((data &&& 0xFF0000) >>> 16).toNat = data.toNat / 2 ^ 16 % 2 ^ 8 := by
    rw [BitVec.toNat_ushiftRight, BitVec.toNat_and, Nat.shiftRight_and_distrib]
    change _ &&& 2 ^ 8 - 1 = _
    rw [Nat.and_two_pow_sub_one_eq_mod, Nat.shiftRight_eq_div_pow]
  rw [Op.ofLines, if_neg hsize]
  refine ⟨?_, rfl⟩
  rw [fillAndSlide] at h
  dsimp only at h ⊢
  rw [hcount] at h
  generalize ARAddr.size v = t at *
  cases t with
  | bit8 =>
    rw [show DataType.bit8.width = 1 from rfl, Nat.cast_one, mul_one, ← slideLoop_eq]
    exact Option.some.inj h
  | bit16 =>
    rw [show DataType.bit16.width = 2 from rfl, ← slideLoop_eq, BitVec.ofInt_mul]
    exact Option.some.inj h
  | bit32 =>
    rw [show DataType.bit32.width = 4 from rfl, ← slideLoop_eq, BitVec.ofInt_mul]
    exact Option.some.inj h
  | bit32Float => cases h

theorem length_copyLoop (n : ℕ) (src dest : Word) (m : Machine σ) :
    (copyLoop host n src dest m).patches.length = m.patches.length + n := by
  have hloop : ∀ (is : List ℕ) (m : Machine σ), (is.foldl (fun m i => applyMemoryPatch host .bit8
      ((host.read8 m.memory (src + BitVec.ofNat 32 i)).setWidth 32) (dest + BitVec.ofNat 32 i) m) m).patches.length
        = m.patches.length + is.length := by
    intro is
    induction is with
    | nil => exact fun m => rfl
    | cons i is ih =>
      intro m
      rw [List.foldl_cons, ih, applyMemoryPatch, List.length_append, List.length_singleton, List.length_cons]
      omega
  rw [copyLoop, hloop, List.length_range]

theorem copyLoop_eq_iff (n : ℕ) (src dest : Word) (m : Machine σ) :
    copyLoop host (n % 2 ^ 8) src dest m = copyLoop host n src dest m ↔ n < 256 := by
  constructor
  · intro h
    have hlength := congrArg (fun m => m.patches.length) h
    rw [length_copyLoop, length_copyLoop] at hlength
    omega
  · intro h
    rw [Nat.mod_eq_of_lt (show n < 2 ^ 8 from h)]

/-- **A memory copy** does what it says if it is of less than 256 bytes. -/
theorem memoryCopy_run (h : memoryCopy host v addr data m = some m') (hsize : v.toNat / 2 ^ 25 % 4 = 3) :
    m' = (Op.ofLines v addr data).run host m ↔ (Op.ofLines v addr data).copied < 256 := by
  have hcount : ((data &&& 0x7FFF).setWidth 8).toNat = data.toNat % 2 ^ 15 % 2 ^ 8 := by
    rw [BitVec.toNat_setWidth, BitVec.toNat_and]
    change (_ &&& 2 ^ 15 - 1) % _ = _
    rw [Nat.and_two_pow_sub_one_eq_mod]
  have hpointers : data >>> 24 ≠ 0 ↔ 2 ^ 24 ≤ data.toNat := by
    rw [Ne, BitVec.toNat_eq, toNat_ushiftRight]
    change ¬_ = 0 ↔ _
    omega
  rw [Op.ofLines, if_pos hsize]
  rw [memoryCopy] at h
  dsimp only at h
  rw [hcount] at h
  split_ifs at h with hvalue hnonzero
  · cases h
    rw [decide_eq_true (hpointers.mp hnonzero)]
    exact copyLoop_eq_iff host _ _ _ m
  · cases h
    rw [decide_eq_false (fun hle => hnonzero (hpointers.mpr hle))]
    exact copyLoop_eq_iff host _ _ _ m

/-! ## Skipped lines -/

theorem eq_endIf_iff (entry : AREntry) : entry = endIf ↔ entry.cmdAddr = 0 ∧ entry.value = 0x40000000 := by
  cases entry
  rw [endIf, AREntry.mk.injEq]

theorem runLines_skip (k : ℕ) (ops : List AREntry) (v : Word) (m : Machine σ) :
    runLines host ops ⟨false, false, k, v, m⟩ = runLines host (ops.drop k) ⟨false, false, 0, v, m⟩ := by
  induction k generalizing ops with
  | zero => rfl
  | succ k ih =>
    cases ops with
    | nil => rfl
    | cons entry rest =>
      have hpos : (0 : ℤ) < ((k + 1 : ℕ) : ℤ) := by omega
      have hpred : ((k + 1 : ℕ) : ℤ) - 1 = k := by omega
      rw [runLines, if_pos hpos.ne', skipLine, if_pos hpos]
      dsimp only
      rw [hpred, ih, List.drop_succ_cons]

theorem runLines_until (ops : List AREntry) (v : Word) (m : Machine σ) :
    runLines host ops ⟨false, false, -2, v, m⟩
      = runLines host ((ops.dropWhile (· ≠ endIf)).drop 1) ⟨false, false, 0, v, m⟩ := by
  induction ops with
  | nil => rfl
  | cons entry rest ih =>
    rw [runLines, if_pos (show (-2 : ℤ) ≠ 0 by decide), skipLine, if_neg (show ¬(0 : ℤ) < -2 by decide),
      if_neg (show ¬(-2 : ℤ) = -3 by decide), if_pos rfl]
    dsimp only
    by_cases hend : entry = endIf
    · rw [if_pos ((eq_endIf_iff entry).mp hend), List.dropWhile_cons_of_neg (by simpa using hend)]
      rfl
    · rw [if_neg (mt (eq_endIf_iff entry).mpr hend), ih, List.dropWhile_cons_of_pos (by simpa using hend)]

theorem runLines_all (ops : List AREntry) (v : Word) (m : Machine σ) :
    runLines host ops ⟨false, false, -3, v, m⟩ = some [] := by
  cases ops with
  | nil => rfl
  | cons entry rest => rfl

/-- **A condition** skips the lines that it says. -/
theorem runLines_condition (addr data v : Word) (rest : List AREntry) (m : Machine σ) :
    runLines host rest ⟨false, false, conditionalCode host addr data 0 m.memory, v, m⟩
      = runLines host (afterCondition host addr data m.memory rest) ⟨false, false, 0, v, m⟩ := by
  rw [conditionalCode, afterCondition]
  cases conditionHolds host addr data m.memory with
  | true => rfl
  | false =>
    have hlt : ARAddr.subtype addr < 4 := by
      rw [ARAddr.subtype, toNat_ushiftRight]
      have haddr := addr.isLt
      omega
    rw [if_pos rfl, if_neg Bool.false_ne_true]
    generalize ARAddr.subtype addr = subtype at *
    obtain rfl | rfl | rfl | rfl : subtype = 0 ∨ subtype = 1 ∨ subtype = 2 ∨ subtype = 3 := by omega
    · exact runLines_skip host 1 rest v m
    · exact runLines_skip host 2 rest v m
    · exact runLines_until host rest v m
    · exact runLines_all host rest v m

/-! ## The run -/

/-- The memories are those of the operations if and only if no copy is of 256 bytes or more. -/
def AgreeIff (states : List (Machine σ)) (run : List (Op × Machine σ)) : Prop :=
  states = run.map Prod.snd ↔ ∀ x ∈ run, x.1.copied < 256

theorem agreeIff_nil : AgreeIff ([] : List (Machine σ)) [] :=
  iff_of_true rfl fun _ hx => absurd hx List.not_mem_nil

variable {states : List (Machine σ)} {run : List (Op × Machine σ)} {op : Op}

theorem AgreeIff.cons (hop : m' = m ↔ op.copied < 256) (h : m' = m → AgreeIff states run) :
    AgreeIff (m' :: states) ((op, m) :: run) := by
  rw [AgreeIff, List.map_cons, List.cons.injEq, List.forall_mem_cons]
  constructor
  · rintro ⟨hm, hstates⟩
    exact ⟨hop.mp hm, (h hm).mp hstates⟩
  · rintro ⟨hcopied, hrun⟩
    have hm := hop.mpr hcopied
    exact ⟨hm, (h hm).mpr hrun⟩

theorem AgreeIff.idle (h : AgreeIff states run) : AgreeIff (m :: states) ((.idle, m) :: run) :=
  AgreeIff.cons (iff_of_true rfl (by decide)) fun _ => h

theorem zeroCode_cases (data : Word) (s : Loop σ) :
    (data.toNat / 2 ^ 29 = 2 ∧ zeroCode data s = .executed s) ∨
      (data.toNat / 2 ^ 29 = 4 ∧ data.toNat / 2 ^ 25 % 4 = 3 ∧
        zeroCode data s = .executed { s with doMemoryCopy := true, valLast := data }) ∨
      (data.toNat / 2 ^ 29 = 4 ∧ data.toNat / 2 ^ 25 % 4 ≠ 3 ∧
        zeroCode data s = .executed { s with doFillAndSlide := true, valLast := data }) ∨
      (data.toNat / 2 ^ 29 = 0 ∧ zeroCode data s = .returnTrue) ∨ zeroCode data s = .returnFalse := by
  have hsize : (data >>> 25) &&& 3 = 3 ↔ data.toNat / 2 ^ 25 % 4 = 3 := by
    rw [BitVec.toNat_eq, BitVec.toNat_and, toNat_ushiftRight]
    change _ &&& 2 ^ 2 - 1 = 3 ↔ _
    rw [Nat.and_two_pow_sub_one_eq_mod]
  rw [zeroCode, toNat_ushiftRight]
  generalize data.toNat / 2 ^ 29 = code
  obtain rfl | rfl | rfl | rfl | rfl | hge :
      code = 0 ∨ code = 1 ∨ code = 2 ∨ code = 3 ∨ code = 4 ∨ 5 ≤ code := by omega
  · exact Or.inr (Or.inr (Or.inr (Or.inl ⟨rfl, rfl⟩)))
  · exact Or.inr (Or.inr (Or.inr (Or.inr rfl)))
  · exact Or.inl ⟨rfl, rfl⟩
  · exact Or.inr (Or.inr (Or.inr (Or.inr rfl)))
  · by_cases hcopy : data.toNat / 2 ^ 25 % 4 = 3
    · exact Or.inr (Or.inl ⟨rfl, hcopy, if_pos (hsize.mpr hcopy)⟩)
    · exact Or.inr (Or.inr (Or.inl ⟨rfl, hcopy, if_neg (mt hsize.mp hcopy)⟩))
  · obtain ⟨n, rfl⟩ := Nat.exists_eq_add_of_le' hge
    exact Or.inr (Or.inr (Or.inr (Or.inr rfl)))

theorem executeLine_clean (entry : AREntry) (v : Word) (m : Machine σ) :
    executeLine host entry ⟨false, false, 0, v, m⟩ =
      if 0x2000 ≤ entry.cmdAddr.toNat ∧ entry.cmdAddr.toNat < 0x3000 then .returnFalse
      else if entry.cmdAddr = 0 then zeroCode entry.value ⟨false, false, 0, v, m⟩
      else if ARAddr.type entry.cmdAddr = 0 then
        (normalCode host entry.cmdAddr entry.value m).elim .returnFalse fun m => .executed ⟨false, false, 0, v, m⟩
      else .executed ⟨false, false, conditionalCode host entry.cmdAddr entry.value 0 m.memory, v, m⟩ := by
  rw [executeLine]
  dsimp only
  rw [if_neg Bool.false_ne_true, if_neg Bool.false_ne_true]
  cases normalCode host entry.cmdAddr entry.value m with
  | none => rfl
  | some m => rfl

theorem executeLine_slide (entry : AREntry) (v : Word) (m : Machine σ) :
    executeLine host entry ⟨true, false, 0, v, m⟩ =
      (fillAndSlide host v entry.cmdAddr entry.value m).elim .returnFalse fun m =>
        .executed ⟨false, false, 0, v, m⟩ := by
  rw [executeLine]
  dsimp only
  rw [if_pos rfl]
  cases fillAndSlide host v entry.cmdAddr entry.value m with
  | none => rfl
  | some m => rfl

theorem executeLine_copy (entry : AREntry) (v : Word) (m : Machine σ) :
    executeLine host entry ⟨false, true, 0, v, m⟩ =
      (memoryCopy host v entry.cmdAddr entry.value m).elim .returnFalse fun m =>
        .executed ⟨false, false, 0, v, m⟩ := by
  rw [executeLine]
  dsimp only
  rw [if_neg Bool.false_ne_true, if_pos rfl]
  cases memoryCopy host v entry.cmdAddr entry.value m with
  | none => rfl
  | some m => rfl

section Line

variable {entry : AREntry} {rest : List AREntry} {slide copy : Bool}

theorem runLines_executed {s : Loop σ} (h : runLines host (entry :: rest) ⟨slide, copy, 0, v, m⟩ = some states)
    (hline : executeLine host entry ⟨slide, copy, 0, v, m⟩ = .executed s) :
    ∃ states', runLines host rest s = some states' ∧ states = s.machine :: states' := by
  rw [runLines, if_neg (fun hne => hne rfl), hline] at h
  obtain ⟨states', hrest, hstates⟩ := Option.map_eq_some_iff.mp h
  exact ⟨states', hrest, hstates.symm⟩

theorem runLines_returned (h : runLines host (entry :: rest) ⟨slide, copy, 0, v, m⟩ = some states)
    (hline : executeLine host entry ⟨slide, copy, 0, v, m⟩ = .returnTrue) : states = [] := by
  rw [runLines, if_neg (fun hne => hne rfl), hline] at h
  exact (Option.some.inj h).symm

theorem runLines_failed (h : runLines host (entry :: rest) ⟨slide, copy, 0, v, m⟩ = some states)
    (hline : executeLine host entry ⟨slide, copy, 0, v, m⟩ = .returnFalse) : False := by
  rw [runLines, if_neg (fun hne => hne rfl), hline] at h
  cases h

end Line

theorem formatRun_twoLines {first second : AREntry} {rest : List AREntry} (m : Machine σ) (haddr : first.cmdAddr = 0)
    (hcode : first.value.toNat / 2 ^ 29 = 4) : formatRun host (first :: second :: rest) m =
      (.idle, m) :: (Op.ofLines first.value second.cmdAddr second.value,
        (Op.ofLines first.value second.cmdAddr second.value).run host m) ::
          formatRun host rest ((Op.ofLines first.value second.cmdAddr second.value).run host m) := by
  rw [formatRun, if_pos haddr, if_neg (by omega), if_pos hcode]

section SecondLine

variable {second : AREntry} {rest : List AREntry}

theorem copyLine_agree (hsize : v.toNat / 2 ^ 25 % 4 = 3)
    (h : runLines host (second :: rest) ⟨false, true, 0, v, m⟩ = some states)
    (ih : ∀ m' states', runLines host rest ⟨false, false, 0, v, m'⟩ = some states' →
      AgreeIff states' (formatRun host rest m')) :
    AgreeIff states ((Op.ofLines v second.cmdAddr second.value,
      (Op.ofLines v second.cmdAddr second.value).run host m) ::
      formatRun host rest ((Op.ofLines v second.cmdAddr second.value).run host m)) := by
  have hsecond := executeLine_copy host second v m
  cases hcopy : memoryCopy host v second.cmdAddr second.value m with
  | none =>
    rw [hcopy] at hsecond
    exact (runLines_failed host h hsecond).elim
  | some m' =>
    rw [hcopy] at hsecond
    obtain ⟨states', hstates, rfl⟩ := runLines_executed host h hsecond
    refine AgreeIff.cons (memoryCopy_run host hcopy hsize) fun hm => ?_
    rw [← hm]
    exact ih m' states' hstates

theorem slideLine_agree (hsize : v.toNat / 2 ^ 25 % 4 ≠ 3)
    (h : runLines host (second :: rest) ⟨true, false, 0, v, m⟩ = some states)
    (ih : ∀ m' states', runLines host rest ⟨false, false, 0, v, m'⟩ = some states' →
      AgreeIff states' (formatRun host rest m')) :
    AgreeIff states ((Op.ofLines v second.cmdAddr second.value,
      (Op.ofLines v second.cmdAddr second.value).run host m) ::
      formatRun host rest ((Op.ofLines v second.cmdAddr second.value).run host m)) := by
  have hsecond := executeLine_slide host second v m
  cases hslide : fillAndSlide host v second.cmdAddr second.value m with
  | none =>
    rw [hslide] at hsecond
    exact (runLines_failed host h hsecond).elim
  | some m' =>
    rw [hslide] at hsecond
    obtain ⟨states', hstates, rfl⟩ := runLines_executed host h hsecond
    obtain ⟨hrun, hcopied⟩ := fillAndSlide_run host hslide hsize
    refine AgreeIff.cons (iff_of_true hrun.symm (by omega)) fun hm => ?_
    rw [← hm]
    exact ih m' states' hstates

end SecondLine

/-- **The run and the format**, for the lines up to some number. -/
theorem runLines_iff (n : ℕ) : ∀ (ops : List AREntry), ops.length ≤ n → ∀ (v : Word) (m : Machine σ)
    (states : List (Machine σ)), runLines host ops ⟨false, false, 0, v, m⟩ = some states →
      AgreeIff states (formatRun host ops m) := by
  induction n with
  | zero =>
    intro ops hops v m states h
    rw [List.length_eq_zero_iff.mp (Nat.le_zero.mp hops)] at h ⊢
    cases h
    rw [formatRun]
    exact agreeIff_nil
  | succ n ih =>
    intro ops hops v m states h
    cases ops with
    | nil =>
      cases h
      rw [formatRun]
      exact agreeIff_nil
    | cons entry rest =>
      have hrest : rest.length ≤ n := Nat.le_of_succ_le_succ hops
      have hline := executeLine_clean host entry v m
      rw [formatRun.eq_def]
      dsimp only
      by_cases hself : 0x2000 ≤ entry.cmdAddr.toNat ∧ entry.cmdAddr.toNat < 0x3000
      · rw [if_pos hself] at hline
        exact (runLines_failed host h hline).elim
      rw [if_neg hself] at hline
      by_cases haddr : entry.cmdAddr = 0
      · rw [if_pos haddr] at hline ⊢
        obtain ⟨hcode, hzero⟩ | ⟨hcode, hsize, hzero⟩ | ⟨hcode, hsize, hzero⟩ | ⟨hcode, hzero⟩ | hzero :=
          zeroCode_cases entry.value (⟨false, false, 0, v, m⟩ : Loop σ)
        · obtain ⟨states', hstates, rfl⟩ := runLines_executed host h (hline.trans hzero)
          rw [if_pos hcode]
          exact AgreeIff.idle (ih rest hrest v m states' hstates)
        · obtain ⟨states', hstates, rfl⟩ := runLines_executed host h (hline.trans hzero)
          rw [if_neg (by omega), if_pos hcode]
          cases rest with
          | nil =>
            cases hstates
            exact AgreeIff.idle agreeIff_nil
          | cons second rest =>
            have hlast : rest.length ≤ n := Nat.le_of_succ_le hrest
            exact AgreeIff.idle (copyLine_agree host hsize hstates (ih rest hlast entry.value))
        · obtain ⟨states', hstates, rfl⟩ := runLines_executed host h (hline.trans hzero)
          rw [if_neg (by omega), if_pos hcode]
          cases rest with
          | nil =>
            cases hstates
            exact AgreeIff.idle agreeIff_nil
          | cons second rest =>
            have hlast : rest.length ≤ n := Nat.le_of_succ_le hrest
            exact AgreeIff.idle (slideLine_agree host hsize hstates (ih rest hlast entry.value))
        · rw [if_neg (by omega), if_neg (by omega), runLines_returned host h (hline.trans hzero)]
          exact agreeIff_nil
        · exact (runLines_failed host h (hline.trans hzero)).elim
      rw [if_neg haddr] at hline ⊢
      by_cases htype : ARAddr.type entry.cmdAddr = 0
      · rw [if_pos htype] at hline ⊢
        cases hnormal : normalCode host entry.cmdAddr entry.value m with
        | none =>
          rw [hnormal] at hline
          exact (runLines_failed host h hline).elim
        | some m' =>
          rw [hnormal] at hline
          obtain ⟨states', hstates, rfl⟩ := runLines_executed host h hline
          obtain ⟨hrun, hcopied⟩ := normalCode_run host hnormal
          refine AgreeIff.cons (iff_of_true hrun.symm (by omega)) fun hm => ?_
          rw [← hm]
          exact ih rest hrest v m' states' hstates
      · rw [if_neg htype] at hline ⊢
        obtain ⟨states', hstates, rfl⟩ := runLines_executed host h hline
        rw [runLines_condition] at hstates
        exact AgreeIff.idle (ih _ ((length_afterCondition_le host _ _ _ rest).trans hrest) v m states' hstates)

end Run

/-- A memory of bytes. There is no sum of floats here. -/
def sampleHost : Host (Word → Byte) where
  isRam _ address := decide (0x80000000 ≤ address.toNat ∧ address.toNat < 0x81800000)
  read8 memory address := memory address
  read16 memory address := memory address ++ memory (address + 1)
  read32 memory address := memory address ++ memory (address + 1) ++ memory (address + 2) ++ memory (address + 3)
  write8 memory address value := Function.update memory address value
  addFloat a _ := a

def sampleMachine : Machine (Word → Byte) := ⟨fun _ => 1, []⟩

/-- A word that is written, and a copy of four bytes. -/
def sampleCode : List AREntry := [⟨0x04000100, 0x11223344⟩, ⟨0, 0x86000200⟩, ⟨0x100, 4⟩]

def sampleStates : List (Machine (Word → Byte)) := (runCodeLocked sampleHost sampleCode sampleMachine).getD []

theorem memory_patch_of_ne {address other : Word} (h : other ≠ address) (value : Word) (m : Machine (Word → Byte)) :
    (applyMemoryPatch sampleHost .bit8 value address m).memory other = m.memory other := by
  simp only [applyMemoryPatch, DataType.bytes, patchLoop, sampleHost]
  split_ifs
  · exact Function.update_of_ne h ..
  · rfl
  · rfl

/-- The first byte of a copy keeps its value to the end. -/
theorem memory_copyLoop {n : ℕ} (hn : n < 2 ^ 32) (src : Word) {dest : Word} (m : Machine (Word → Byte))
    (hram : sampleHost.isRam m.memory dest = true) :
    (copyLoop sampleHost (n + 1) src dest m).memory dest = m.memory src := by
  induction n with
  | zero =>
    have hfirst : copyLoop sampleHost 1 src dest m =
        applyMemoryPatch sampleHost .bit8 ((m.memory src).setWidth 32) dest m := by
      change applyMemoryPatch sampleHost .bit8 ((m.memory (src + 0#32)).setWidth 32) (dest + 0#32) m = _
      rw [BitVec.add_zero, BitVec.add_zero]
    rw [hfirst, applyMemoryPatch, if_pos hram]
    simp only [DataType.bytes, patchLoop, sampleHost, BitVec.setWidth_setWidth_of_le _ (by decide : 8 ≤ 32),
      BitVec.setWidth_eq]
    split_ifs with hsame
    · exact Function.update_self ..
    · exact not_not.mp hsame
  | succ n ih =>
    have hlast : dest ≠ dest + BitVec.ofNat 32 (n + 1) := by
      intro heq
      have htoNat := congrArg BitVec.toNat heq
      rw [BitVec.toNat_add, BitVec.toNat_ofNat] at htoNat
      have hdest := dest.isLt
      omega
    rw [copyLoop, List.range_succ, List.foldl_append, List.foldl_cons, List.foldl_nil, memory_patch_of_ne hlast]
    exact ih (by omega)

/-- A copy of 256 bytes, of which the first one is not as the others. -/
def longCopy : List AREntry := [⟨0, 0x86000200⟩, ⟨0x100, 0x100⟩]

def copyMachine : Machine (Word → Byte) := ⟨fun address => if address = 0x80000100 then 2 else 1, []⟩

end RunCode

end ActionReplay
