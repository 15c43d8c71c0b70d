import Mathlib.Data.BitVec
import Mathlib.Data.Nat.SuccPred
import PrimedSteam.Lib.ByteOrder

/-!
# SYSCONF

The settings of the system are entries with a type, a name and bytes, behind a table of their offsets in a file of
0x4000 bytes.

* `loadFromFile`, `saveBuffer`: reading and writing.
* `loadFromFile_wellFormed`: the entries that are read have the lengths of their types.
* `survives_iff`: when the entries are read again as they were saved.
-/

set_option autoImplicit false

namespace SysConf

open ByteOrder

abbrev Byte := BitVec 8

/-- `SYSCONF_SIZE` -/
def sysconfSize : ℕ := 0x4000

inductive EntryType where
  | bigArray
  | smallArray
  | byte
  | short
  | long
  | longLong
  | byteBool
deriving DecidableEq

namespace EntryType

def code : EntryType → ℕ
  | bigArray => 1
  | smallArray => 2
  | byte => 3
  | short => 4
  | long => 5
  | longLong => 6
  | byteBool => 7

def ofCode : ℕ → Option EntryType
  | 1 => some bigArray
  | 2 => some smallArray
  | 3 => some byte
  | 4 => some short
  | 5 => some long
  | 6 => some longLong
  | 7 => some byteBool
  | _ => none

/-- `GetNonArrayEntrySize`; an array has no size of its own. -/
def nonArrayEntrySize : EntryType → Option ℕ
  | bigArray => none
  | smallArray => none
  | byte => some 1
  | short => some 2
  | long => some 4
  | longLong => some 8
  | byteBool => some 1

end EntryType

structure Entry where
  type : EntryType
  name : List Byte
  bytes : List Byte
deriving DecidableEq

/-! ## Reading -/

/-- `Seek` from the start; past the end of the file the position stays. -/
def seek (file : List Byte) (offset position : ℕ) : ℕ := if file.length < offset then position else offset

/-- `Read` into a buffer, which keeps what the file does not reach. -/
def readBytes (file buffer : List Byte) (position : ℕ) : List Byte × ℕ :=
  let count := min buffer.length (file.length - position)
  ((file.drop position).take count ++ buffer.drop count, position + count)

/-- The table of offsets. -/
def readOffsets (file : List Byte) : ℕ → ℕ → List ℕ × ℕ
  | 0, position => ([], position)
  | count + 1, position =>
    let (bytes, position) := readBytes file [0, 0] position
    let (offsets, position) := readOffsets file count position
    (bigEndian bytes :: offsets, position)

/-- The length of the data, which the file has for an array. -/
def readDataLength (file : List Byte) (type : EntryType) (position : ℕ) : ℕ × ℕ :=
  match type with
  | .bigArray =>
    let (length, position) := readBytes file [0, 0] position
    (bigEndian length + 1, position)
  | .smallArray =>
    let (length, position) := readBytes file [0] position
    (bigEndian length + 1, position)
  | type => (type.nonArrayEntrySize.getD 0, position)

/-- One entry, and the position behind it. `none` is an unknown type. -/
def readEntry (file : List Byte) (offset position : ℕ) : Option (Entry × ℕ) :=
  let (description, position) := readBytes file [0] (seek file offset position)
  let description := description.headD 0
  let nameLength := (description &&& 0x1f).toNat + 1
  let (name, position) := readBytes file (List.replicate nameLength 0) position
  match EntryType.ofCode ((description &&& 0xe0) >>> 5).toNat with
  | none => none
  | some type =>
    let (dataLength, position) := readDataLength file type position
    let (data, position) := readBytes file (List.replicate dataLength 0) position
    some (⟨type, name, data⟩, position)

def readEntries (file : List Byte) : List ℕ → ℕ → Option (List Entry)
  | [], _ => some []
  | offset :: offsets, position =>
    match readEntry file offset position with
    | none => none
    | some (entry, position) =>
      match readEntries file offsets position with
      | none => none
      | some entries => some (entry :: entries)

/-- `LoadFromFile` -/
def loadFromFile (file : List Byte) : Option (List Entry) :=
  let (numberOfEntries, position) := readBytes file [0, 0] (seek file 4 0)
  let (offsets, position) := readOffsets file (bigEndian numberOfEntries) position
  readEntries file offsets position

/-! ## Writing -/

/-- `AppendToBuffer<u16>` -/
def u16Bytes (value : ℕ) : List Byte := (toBytes 2 value).reverse

/-- The data of an entry. Lengths are narrowed to the type of `data_size`, and stored minus one. -/
def encodeData (entry : Entry) : List Byte :=
  match entry.type with
  | .bigArray =>
    let dataSize := BitVec.ofNat 16 entry.bytes.length
    u16Bytes (dataSize - 1).toNat ++ entry.bytes.take dataSize.toNat
  | .smallArray =>
    let dataSize := BitVec.ofNat 8 entry.bytes.length
    (dataSize - 1) :: entry.bytes.take dataSize.toNat
  | _ => entry.bytes

def encodeEntry (entry : Entry) : List Byte :=
  (BitVec.ofNat 8 (entry.type.code <<< 5) ||| (BitVec.ofNat 8 entry.name.length - 1)) ::
    (entry.name ++ encodeData entry)

/-- The offsets of the entries, and of the end. -/
def encodeOffsets : ℕ → List Entry → List Byte
  | offset, [] => u16Bytes offset
  | offset, entry :: entries => u16Bytes offset ++ encodeOffsets (offset + (encodeEntry entry).length) entries

def version : List Byte := [0x53, 0x43, 0x76, 0x30]

def footer : List Byte := [0x53, 0x43, 0x65, 0x64]

/-- The header and the entries. -/
def mainData (entries : List Entry) : List Byte :=
  version ++ u16Bytes entries.length ++ encodeOffsets (6 + 2 * (entries.length + 1)) entries ++
    entries.flatMap encodeEntry

/-- What `Save` writes: the buffer with the size of the file, and the footer at its end. -/
def saveBuffer (entries : List Entry) : List Byte :=
  let buffer := mainData entries
  let resized := buffer.take sysconfSize ++ List.replicate (sysconfSize - buffer.length) 0
  resized.take (sysconfSize - footer.length) ++ footer

/-! ## What is read -/

/-- The lengths that the format can express. -/
structure Entry.WellFormed (entry : Entry) : Prop where
  name_pos : 0 < entry.name.length
  name_le : entry.name.length ≤ 32
  bytes_pos : 0 < entry.bytes.length
  big : entry.type = .bigArray → entry.bytes.length ≤ 65536
  small : entry.type = .smallArray → entry.bytes.length ≤ 256
  other : ∀ size, entry.type.nonArrayEntrySize = some size → entry.bytes.length = size

theorem length_readBytes (file buffer : List Byte) (position : ℕ) :
    (readBytes file buffer position).1.length = buffer.length := by
  simp only [readBytes, List.length_append, List.length_take, List.length_drop]
  omega

theorem readDataLength_spec (file : List Byte) (type : EntryType) (position : ℕ) :
    0 < (readDataLength file type position).1 ∧
      (type = .bigArray → (readDataLength file type position).1 ≤ 65536) ∧
      (type = .smallArray → (readDataLength file type position).1 ≤ 256) ∧
      ∀ size, type.nonArrayEntrySize = some size → (readDataLength file type position).1 = size := by
  have h2 := bigEndian_lt (readBytes file [0, 0] position).1
  have h1 := bigEndian_lt (readBytes file [0] position).1
  rw [length_readBytes] at h1 h2
  norm_num at h1 h2
  cases type with
  | bigArray =>
    refine ⟨Nat.succ_pos _, fun _ => ?_, by simp, by simp [EntryType.nonArrayEntrySize]⟩
    simp only [readDataLength]
    omega
  | smallArray =>
    refine ⟨Nat.succ_pos _, by simp, fun _ => ?_, by simp [EntryType.nonArrayEntrySize]⟩
    simp only [readDataLength]
    omega
  | byte =>
    exact ⟨by simp [readDataLength, EntryType.nonArrayEntrySize], by simp, by simp,
      fun size h => by simp [readDataLength, h]⟩
  | short =>
    exact ⟨by simp [readDataLength, EntryType.nonArrayEntrySize], by simp, by simp,
      fun size h => by simp [readDataLength, h]⟩
  | long =>
    exact ⟨by simp [readDataLength, EntryType.nonArrayEntrySize], by simp, by simp,
      fun size h => by simp [readDataLength, h]⟩
  | longLong =>
    exact ⟨by simp [readDataLength, EntryType.nonArrayEntrySize], by simp, by simp,
      fun size h => by simp [readDataLength, h]⟩
  | byteBool =>
    exact ⟨by simp [readDataLength, EntryType.nonArrayEntrySize], by simp, by simp,
      fun size h => by simp [readDataLength, h]⟩

theorem readEntry_wellFormed {file : List Byte} {offset position position' : ℕ} {entry : Entry}
    (h : readEntry file offset position = some (entry, position')) : entry.WellFormed := by
  rw [readEntry] at h
  dsimp only at h
  generalize (readBytes file [0] (seek file offset position)).1.headD 0 = description at h
  generalize (readBytes file [0] (seek file offset position)).2 = p at h
  cases htype : EntryType.ofCode ((description &&& 0xe0) >>> 5).toNat with
  | none =>
    rw [htype] at h
    cases h
  | some type =>
    rw [htype] at h
    dsimp only at h
    rw [Option.some_inj, Prod.mk.injEq] at h
    obtain ⟨rfl, -⟩ := h
    have hname : (description &&& 0x1f).toNat < 32 := by
      have hle : (description &&& 0x1f).toNat ≤ 0x1f := by
        rw [BitVec.toNat_and]
        exact Nat.and_le_right
      omega
    obtain ⟨hpos, hbig, hsmall, hother⟩ := readDataLength_spec file type
      (readBytes file (List.replicate ((description &&& 0x1f).toNat + 1) 0) p).2
    refine ⟨?_, ?_, ?_, fun ht => ?_, fun ht => ?_, fun size hs => ?_⟩
    · rw [length_readBytes, List.length_replicate]
      exact Nat.succ_pos _
    · rw [length_readBytes, List.length_replicate]
      omega
    · rw [length_readBytes, List.length_replicate]
      exact hpos
    · rw [length_readBytes, List.length_replicate]
      exact hbig ht
    · rw [length_readBytes, List.length_replicate]
      exact hsmall ht
    · rw [length_readBytes, List.length_replicate]
      exact hother size hs

theorem readEntries_wellFormed {file : List Byte} {offsets : List ℕ} {position : ℕ} {entries : List Entry}
    (h : readEntries file offsets position = some entries) : ∀ entry ∈ entries, entry.WellFormed := by
  induction offsets generalizing position entries with
  | nil =>
    rw [readEntries, Option.some_inj] at h
    subst h
    exact fun entry hentry => absurd hentry List.not_mem_nil
  | cons offset offsets ih =>
    rw [readEntries] at h
    cases hentry : readEntry file offset position with
    | none =>
      rw [hentry] at h
      cases h
    | some r =>
      rw [hentry] at h
      dsimp only at h
      cases hrest : readEntries file offsets r.2 with
      | none =>
        rw [hrest] at h
        cases h
      | some rest =>
        rw [hrest] at h
        cases h
        intro entry hmem
        rcases List.mem_cons.mp hmem with rfl | hmem
        · exact readEntry_wellFormed hentry
        · exact ih hrest entry hmem

theorem loadFromFile_wellFormed {file : List Byte} {entries : List Entry} (h : loadFromFile file = some entries) :
    ∀ entry ∈ entries, entry.WellFormed := readEntries_wellFormed h

/-! ## What was written is read -/

/-- The encoded entries end before the footer. -/
def Fits (entries : List Entry) : Prop :=
  6 + 2 * (entries.length + 1) + (entries.flatMap encodeEntry).length ≤ sysconfSize - footer.length

/-- An array whose length is zero in the type of `data_size`. -/
def Entry.IsFull (entry : Entry) : Prop :=
  entry.type = .smallArray ∧ entry.bytes.length = 256 ∨ entry.type = .bigArray ∧ entry.bytes.length = 65536

instance (entry : Entry) : Decidable entry.IsFull := by
  unfold Entry.IsFull
  infer_instance

/-- The first bytes of a part of the file, with zeros behind the end of the file. -/
def firstBytes (count : ℕ) (rest : List Byte) : List Byte :=
  rest.take count ++ List.replicate (count - rest.length) 0

/-- What is read of the entries before a part of the file: nothing of a full array was written. -/
def reloaded : List Entry → List Byte → List Entry
  | [], _ => []
  | entry :: entries, rest =>
    (if entry.IsFull then
      { entry with bytes := firstBytes entry.bytes.length (entries.flatMap encodeEntry ++ rest) } else entry) ::
      reloaded entries rest

section Reload

variable {file buffer pre mid rest : List Byte} {entry : Entry} {entries : List Entry}

theorem readBytes_append (pre rest buffer : List Byte) : readBytes (pre ++ rest) buffer pre.length
    = (rest.take buffer.length ++ buffer.drop rest.length, pre.length + min buffer.length rest.length) := by
  rw [readBytes, List.drop_left, List.length_append, Nat.add_sub_cancel_left]
  rcases Nat.le_total buffer.length rest.length with h | h
  · rw [Nat.min_eq_left h, List.drop_length, List.drop_eq_nil_of_le h]
  · rw [Nat.min_eq_right h, List.take_length, List.take_of_length_le h]

/-- A part of the file that has the length of the buffer. -/
theorem readBytes_eq (h : mid.length = buffer.length) (pre rest : List Byte) :
    readBytes (pre ++ (mid ++ rest)) buffer pre.length = (mid, (pre ++ mid).length) := by
  rw [readBytes_append, List.length_append, List.length_append, Nat.min_eq_left (by omega), ← h, List.take_left,
    List.drop_eq_nil_of_le (by omega), List.append_nil]

theorem readBytes_byte (b : Byte) (pre rest : List Byte) :
    readBytes (pre ++ ([b] ++ rest)) [0] pre.length = ([b], (pre ++ [b]).length) :=
  readBytes_eq (show [b].length = [(0 : Byte)].length from rfl) pre rest

theorem length_u16Bytes (value : ℕ) : (u16Bytes value).length = 2 := by
  rw [u16Bytes, List.length_reverse]
  rfl

theorem readBytes_u16Bytes (value : ℕ) (pre rest : List Byte) : readBytes (pre ++ (u16Bytes value ++ rest)) [0, 0]
    pre.length = (u16Bytes value, (pre ++ u16Bytes value).length) :=
  readBytes_eq (length_u16Bytes value) pre rest

theorem bigEndian_u16Bytes {value : ℕ} (h : value < 65536) : bigEndian (u16Bytes value) = value := by
  rw [bigEndian, u16Bytes, List.reverse_reverse, littleEndian_toBytes]
  exact Nat.mod_eq_of_lt h

/-- The type and the length of the name share a byte. -/
theorem description_spec (type : EntryType) {n : ℕ} (hpos : 0 < n) (hle : n ≤ 32) :
    EntryType.ofCode (((BitVec.ofNat 8 (type.code <<< 5) ||| (BitVec.ofNat 8 n - 1)) &&& 0xe0) >>> 5).toNat
        = some type ∧
      ((BitVec.ofNat 8 (type.code <<< 5) ||| (BitVec.ofNat 8 n - 1)) &&& 0x1f).toNat + 1 = n := by
  have hall : ∀ type : EntryType, ∀ n < 33, 0 < n →
      EntryType.ofCode (((BitVec.ofNat 8 (type.code <<< 5) ||| (BitVec.ofNat 8 n - 1)) &&& 0xe0) >>> 5).toNat
          = some type ∧
        ((BitVec.ofNat 8 (type.code <<< 5) ||| (BitVec.ofNat 8 n - 1)) &&& 0x1f).toNat + 1 = n := by
    intro type
    cases type with
    | bigArray => decide
    | smallArray => decide
    | byte => decide
    | short => decide
    | long => decide
    | longLong => decide
    | byteBool => decide
  exact hall type n (Nat.lt_succ_of_le hle) hpos

theorem toNat_ofNat_sub_one {w n : ℕ} (hpos : 0 < n) (hlt : n < 2 ^ w) :
    (BitVec.ofNat w n - 1).toNat = n - 1 := by
  have hw : 1 < 2 ^ w := lt_of_le_of_lt hpos hlt
  have hn : (BitVec.ofNat w n).toNat = n := by rw [BitVec.toNat_ofNat, Nat.mod_eq_of_lt hlt]
  have hone : (1 : BitVec w).toNat = 1 := by
    change (BitVec.ofNat w 1).toNat = 1
    rw [BitVec.toNat_ofNat, Nat.mod_eq_of_lt hw]
  rw [BitVec.toNat_sub_of_le (BitVec.le_def.mpr (by rw [hn, hone]; exact hpos)), hn, hone]

/-- The data of an entry is read where it is encoded: what follows takes its place if nothing of it was written. -/
def DataRead (entry : Entry) (pre rest : List Byte) : Prop :=
  ∃ position, readDataLength (pre ++ (encodeData entry ++ rest)) entry.type pre.length
      = (entry.bytes.length, position) ∧
    (readBytes (pre ++ (encodeData entry ++ rest)) (List.replicate entry.bytes.length 0) position).1
      = if entry.IsFull then firstBytes entry.bytes.length rest else entry.bytes

theorem dataRead_of_stored (stored : List Byte) (hnot : ¬entry.IsFull)
    (hencode : encodeData entry = stored ++ entry.bytes)
    (hlength : ∀ rest, readDataLength (pre ++ (stored ++ rest)) entry.type pre.length
      = (entry.bytes.length, (pre ++ stored).length)) (rest : List Byte) : DataRead entry pre rest := by
  rw [DataRead, hencode, List.append_assoc]
  refine ⟨(pre ++ stored).length, hlength _, ?_⟩
  rw [if_neg hnot, ← List.append_assoc, readBytes_eq (by rw [List.length_replicate])]

theorem dataRead_of_full (hfull : entry.IsFull)
    (hlength : readDataLength (pre ++ (encodeData entry ++ rest)) entry.type pre.length
      = (entry.bytes.length, (pre ++ encodeData entry).length)) : DataRead entry pre rest := by
  refine ⟨(pre ++ encodeData entry).length, hlength, ?_⟩
  rw [if_pos hfull, ← List.append_assoc, readBytes_append, List.length_replicate, firstBytes, List.drop_replicate]

theorem dataRead_of_size (h : entry.WellFormed) {size : ℕ} (hsize : entry.type.nonArrayEntrySize = some size)
    (hencode : encodeData entry = entry.bytes)
    (hlength : ∀ file position, readDataLength file entry.type position = (size, position))
    (pre rest : List Byte) : DataRead entry pre rest := by
  refine dataRead_of_stored [] ?_ hencode (fun rest => ?_) rest
  · rintro (⟨htype, -⟩ | ⟨htype, -⟩)
    · rw [htype] at hsize
      cases hsize
    · rw [htype] at hsize
      cases hsize
  · rw [hlength, h.other size hsize, List.append_nil]

theorem readDataLength_bigArray {value : ℕ} (h : value < 65536) (pre rest : List Byte) :
    readDataLength (pre ++ (u16Bytes value ++ rest)) .bigArray pre.length
      = (value + 1, (pre ++ u16Bytes value).length) := by
  rw [readDataLength, readBytes_u16Bytes]
  dsimp only
  rw [bigEndian_u16Bytes h]

theorem readDataLength_smallArray (b : Byte) (pre rest : List Byte) :
    readDataLength (pre ++ ([b] ++ rest)) .smallArray pre.length = (b.toNat + 1, (pre ++ [b]).length) := by
  rw [readDataLength, readBytes_byte]
  dsimp only
  rw [bigEndian, List.reverse_singleton, littleEndian, littleEndian, Nat.mul_zero, Nat.add_zero]

theorem readData_spec (h : entry.WellFormed) (pre rest : List Byte) : DataRead entry pre rest := by
  obtain ⟨type, name, bytes⟩ := entry
  have hpos : 0 < bytes.length := h.bytes_pos
  cases type with
  | bigArray =>
    rcases (show bytes.length ≤ 65536 from h.big rfl).lt_or_eq with hlt | h65536
    · refine dataRead_of_stored (u16Bytes (bytes.length - 1)) ?_ ?_ (fun rest => ?_) rest
      · rintro (⟨htype, -⟩ | ⟨-, hfull⟩)
        · cases htype
        · exact absurd hfull hlt.ne
      · have hstored := toNat_ofNat_sub_one (w := 16) hpos hlt
        simp only [encodeData, BitVec.toNat_ofNat, Nat.mod_eq_of_lt hlt, hstored, List.take_length]
      · rw [readDataLength_bigArray (by omega), Nat.sub_add_cancel hpos]
    · -- the length is zero in two bytes
      have hencode : encodeData ⟨.bigArray, name, bytes⟩ = u16Bytes 65535 := by
        simp only [encodeData, h65536]
        rfl
      refine dataRead_of_full (Or.inr ⟨rfl, h65536⟩) ?_
      rw [hencode, readDataLength_bigArray (by decide)]
      exact Prod.ext h65536.symm rfl
  | smallArray =>
    rcases (show bytes.length ≤ 256 from h.small rfl).lt_or_eq with hlt | h256
    · refine dataRead_of_stored [BitVec.ofNat 8 bytes.length - 1] ?_ ?_ (fun rest => ?_) rest
      · rintro (⟨-, hfull⟩ | ⟨htype, -⟩)
        · exact absurd hfull hlt.ne
        · cases htype
      · simp only [encodeData, BitVec.toNat_ofNat, Nat.mod_eq_of_lt hlt, List.take_length, List.singleton_append]
      · rw [readDataLength_smallArray, toNat_ofNat_sub_one hpos hlt, Nat.sub_add_cancel hpos]
    · -- the length is zero in a byte, and no data is written
      have hencode : encodeData ⟨.smallArray, name, bytes⟩ = [255] := by
        simp only [encodeData, h256]
        rfl
      refine dataRead_of_full (Or.inl ⟨rfl, h256⟩) ?_
      rw [hencode, readDataLength_smallArray]
      exact Prod.ext h256.symm rfl
  | byte => exact dataRead_of_size h rfl rfl (fun _ _ => rfl) pre rest
  | short => exact dataRead_of_size h rfl rfl (fun _ _ => rfl) pre rest
  | long => exact dataRead_of_size h rfl rfl (fun _ _ => rfl) pre rest
  | longLong => exact dataRead_of_size h rfl rfl (fun _ _ => rfl) pre rest
  | byteBool => exact dataRead_of_size h rfl rfl (fun _ _ => rfl) pre rest

theorem readEntry_spec (h : entry.WellFormed) (pre rest : List Byte) (position : ℕ) :
    ∃ position', readEntry (pre ++ (encodeEntry entry ++ rest)) pre.length position
      = some (if entry.IsFull then { entry with bytes := firstBytes entry.bytes.length rest } else entry,
        position') := by
  obtain ⟨htype, hname⟩ := description_spec entry.type h.name_pos h.name_le
  generalize hd : BitVec.ofNat 8 (entry.type.code <<< 5) ||| (BitVec.ofNat 8 entry.name.length - 1) = description
    at htype hname
  have hfile : pre ++ (encodeEntry entry ++ rest)
      = pre ++ ([description] ++ (entry.name ++ (encodeData entry ++ rest))) := by
    rw [encodeEntry, hd, List.singleton_append, List.cons_append, List.append_assoc]
  have hseek : seek (pre ++ (encodeEntry entry ++ rest)) pre.length position = pre.length := by
    rw [seek, if_neg]
    rw [List.length_append]
    omega
  obtain ⟨p, hlength, hdata⟩ := readData_spec h (pre ++ [description] ++ entry.name) rest
  rw [readEntry, hseek, hfile, readBytes_byte]
  dsimp only
  rw [List.headD_cons, htype, ← List.append_assoc pre, readBytes_eq (by rw [List.length_replicate, hname])]
  dsimp only
  rw [← List.append_assoc (pre ++ [description]), hlength]
  dsimp only
  rw [hdata]
  refine ⟨_, congrArg some (Prod.ext ?_ rfl)⟩
  split_ifs
  · rfl
  · rfl

/-- The offsets as they are read again. -/
def offsetsFrom : ℕ → List Entry → List ℕ
  | _, [] => []
  | offset, entry :: entries => offset :: offsetsFrom (offset + (encodeEntry entry).length) entries

theorem readEntries_spec (h : ∀ entry ∈ entries, entry.WellFormed) (pre rest : List Byte) (position : ℕ) :
    readEntries (pre ++ (entries.flatMap encodeEntry ++ rest)) (offsetsFrom pre.length entries) position
      = some (reloaded entries rest) := by
  induction entries generalizing pre position with
  | nil => rfl
  | cons entry entries ih =>
    rw [offsetsFrom, readEntries, List.flatMap_cons, List.append_assoc]
    obtain ⟨position', hread⟩ := readEntry_spec (h entry List.mem_cons_self) pre
      (entries.flatMap encodeEntry ++ rest) position
    rw [hread]
    dsimp only
    have hrest := ih (fun e he => h e (List.mem_cons_of_mem _ he)) (pre ++ encodeEntry entry) position'
    rw [List.length_append, List.append_assoc] at hrest
    rw [hrest]
    rfl

theorem length_encodeOffsets (offset : ℕ) (entries : List Entry) :
    (encodeOffsets offset entries).length = 2 * (entries.length + 1) := by
  induction entries generalizing offset with
  | nil => exact length_u16Bytes offset
  | cons entry entries ih =>
    rw [encodeOffsets, List.length_append, length_u16Bytes, ih, List.length_cons]
    omega

/-- The table of offsets is read up to the last one, which is not used. -/
theorem readOffsets_spec {offset : ℕ} (hlt : offset + (entries.flatMap encodeEntry).length < 65536)
    (pre rest : List Byte) :
    (readOffsets (pre ++ (encodeOffsets offset entries ++ rest)) entries.length pre.length).1
      = offsetsFrom offset entries := by
  induction entries generalizing offset pre with
  | nil => rfl
  | cons entry entries ih =>
    rw [List.flatMap_cons, List.length_append] at hlt
    rw [encodeOffsets, List.append_assoc, List.length_cons, readOffsets,
      readBytes_u16Bytes]
    dsimp only
    rw [← List.append_assoc, ih (by omega), bigEndian_u16Bytes (by omega), offsetsFrom]

/-- What the file has behind the entries. -/
def padding (entries : List Entry) : List Byte :=
  List.replicate (sysconfSize - footer.length - (mainData entries).length) 0 ++ footer

theorem length_mainData (entries : List Entry) : (mainData entries).length
    = 6 + 2 * (entries.length + 1) + (entries.flatMap encodeEntry).length := by
  rw [mainData, List.length_append, List.length_append, List.length_append, length_u16Bytes, length_encodeOffsets]
  rfl

theorem saveBuffer_eq (h : Fits entries) : saveBuffer entries = mainData entries ++ padding entries := by
  have hlength := length_mainData entries
  have hfit : (mainData entries).length ≤ sysconfSize - footer.length := by
    rw [Fits] at h
    omega
  have hsize : sysconfSize - footer.length = 0x3FFC := rfl
  have hfull : sysconfSize = 0x4000 := rfl
  rw [saveBuffer, padding, List.take_of_length_le (show (mainData entries).length ≤ sysconfSize by omega),
    List.take_append, List.take_of_length_le hfit, List.take_replicate,
    Nat.min_eq_left (by omega), List.append_assoc]

/-- The saved file is read up to the data of full arrays. -/
theorem loadFromFile_saveBuffer (h : ∀ entry ∈ entries, entry.WellFormed) (hfit : Fits entries) :
    loadFromFile (saveBuffer entries) = some (reloaded entries (padding entries)) := by
  have hbound : 6 + 2 * (entries.length + 1) + (entries.flatMap encodeEntry).length ≤ 0x3FFC := hfit
  have hfile : saveBuffer entries = version ++ (u16Bytes entries.length ++
      (encodeOffsets (6 + 2 * (entries.length + 1)) entries ++
        (entries.flatMap encodeEntry ++ padding entries))) := by
    rw [saveBuffer_eq hfit, mainData]
    simp only [List.append_assoc]
  have hseek : seek (saveBuffer entries) 4 0 = version.length := by
    rw [seek, if_neg]
    · rfl
    · rw [hfile, List.length_append]
      have hversion : version.length = 4 := rfl
      omega
  have hoffsets := readOffsets_spec (show 6 + 2 * (entries.length + 1) +
    (entries.flatMap encodeEntry).length < 65536 by
    omega) (version ++ u16Bytes entries.length) (entries.flatMap encodeEntry ++ padding entries)
  rw [loadFromFile, hseek, hfile, readBytes_u16Bytes]
  dsimp only
  rw [bigEndian_u16Bytes (by omega), ← List.append_assoc version, hoffsets, ← List.append_assoc]
  have hpre : (version ++ u16Bytes entries.length ++ encodeOffsets (6 + 2 * (entries.length + 1)) entries).length
      = 6 + 2 * (entries.length + 1) := by
    rw [List.length_append, List.length_append, length_u16Bytes, length_encodeOffsets]
    rfl
  have hread := fun position => readEntries_spec h
    (version ++ u16Bytes entries.length ++ encodeOffsets (6 + 2 * (entries.length + 1)) entries)
      (padding entries) position
  rw [hpre] at hread
  exact hread _

/-- Each full array has just the bytes that the file has behind its length. -/
def FullEntriesMatch : List Entry → List Byte → Prop
  | [], _ => True
  | entry :: entries, rest =>
    (entry.IsFull → entry.bytes = firstBytes entry.bytes.length (entries.flatMap encodeEntry ++ rest)) ∧
      FullEntriesMatch entries rest

theorem reloaded_eq_iff : reloaded entries rest = entries ↔ FullEntriesMatch entries rest := by
  induction entries with
  | nil => exact iff_of_true rfl trivial
  | cons entry entries ih =>
    rw [reloaded, List.cons.injEq, ih, FullEntriesMatch]
    refine and_congr_left fun _ => ?_
    by_cases hfull : entry.IsFull
    · rw [if_pos hfull]
      constructor
      · intro heq _
        exact (congrArg Entry.bytes heq).symm
      · intro heq
        rw [← heq hfull]
    · rw [if_neg hfull]
      exact iff_of_true rfl fun h => absurd h hfull

theorem fullEntriesMatch_of_none (h : ∀ entry ∈ entries, ¬entry.IsFull) : FullEntriesMatch entries rest := by
  induction entries with
  | nil => trivial
  | cons entry entries ih =>
    exact ⟨fun hfull => absurd hfull (h entry List.mem_cons_self), ih fun e he => h e (List.mem_cons_of_mem _ he)⟩

end Reload

section Main

variable {entries : List Entry}

/-- **When the entries survive a save**: if and only if each full array has the bytes that are behind it anyway,
and so whenever there is no full array. -/
theorem survives_iff {file : List Byte} (hload : loadFromFile file = some entries) (hfit : Fits entries) :
    (loadFromFile (saveBuffer entries) = some entries ↔ FullEntriesMatch entries (padding entries)) ∧
      ((∀ entry ∈ entries, ¬entry.IsFull) → loadFromFile (saveBuffer entries) = some entries) := by
  have h := loadFromFile_saveBuffer (loadFromFile_wellFormed hload) hfit
  have hiff : loadFromFile (saveBuffer entries) = some entries ↔ FullEntriesMatch entries (padding entries) := by
    rw [h, Option.some_inj]
    exact reloaded_eq_iff
  exact ⟨hiff, fun hnone => hiff.mpr (fullEntriesMatch_of_none hnone)⟩

/-- A file with one array. -/
def arrayFile (bytes : List Byte) : List Byte :=
  version ++ (u16Bytes 1 ++ (u16Bytes 8 ++ ([0x40] ++ ([0x41] ++ ([BitVec.ofNat 8 bytes.length - 1] ++ (bytes ++
    List.replicate (sysconfSize - 11 - bytes.length) 0))))))

theorem loadFromFile_arrayFile {bytes : List Byte} (hpos : 0 < bytes.length) (hle : bytes.length ≤ 256) :
    (arrayFile bytes).length = sysconfSize ∧
      loadFromFile (arrayFile bytes) = some [⟨.smallArray, [0x41], bytes⟩] := by
  have hsize : sysconfSize = 0x4000 := rfl
  have hversion : version.length = 4 := rfl
  have hstored : bigEndian [BitVec.ofNat 8 bytes.length - 1] + 1 = bytes.length := by
    have hnat : (BitVec.ofNat 8 bytes.length - 1).toNat = bytes.length - 1 := by
      rw [BitVec.toNat_sub, BitVec.toNat_ofNat]
      have hone : (1 : BitVec 8).toNat = 1 := rfl
      rw [hone]
      omega
    simp only [bigEndian, List.reverse_singleton, littleEndian, hnat, Nat.mul_zero, Nat.add_zero]
    omega
  have hlength : (arrayFile bytes).length = sysconfSize := by
    simp only [arrayFile, List.length_append, length_u16Bytes, List.length_replicate, List.length_singleton]
    omega
  refine ⟨hlength, ?_⟩
  have hseek : ∀ offset position, offset ≤ 0x4000 → seek (arrayFile bytes) offset position = offset := by
    intro offset position h
    rw [seek, if_neg (by omega)]
  have hdescription : EntryType.ofCode (((0x40 : Byte) &&& 0xe0) >>> 5).toNat = some .smallArray := rfl
  have hname : ((0x40 : Byte) &&& 0x1f).toNat + 1 = 1 := rfl
  generalize hrest : List.replicate (sysconfSize - 11 - bytes.length) (0 : Byte) = rest
  have hcount : readBytes (arrayFile bytes) [0, 0] 4 = (u16Bytes 1, 6) := by
    rw [arrayFile, hrest]
    exact readBytes_u16Bytes 1 version _
  have hoffset : readBytes (arrayFile bytes) [0, 0] 6 = (u16Bytes 8, 8) := by
    rw [arrayFile, hrest, ← List.append_assoc version]
    exact readBytes_u16Bytes 8 (version ++ u16Bytes 1) _
  have hfirst : readBytes (arrayFile bytes) [0] 8 = ([0x40], 9) := by
    rw [arrayFile, hrest, ← List.append_assoc version, ← List.append_assoc (version ++ _)]
    exact readBytes_byte 0x40 (version ++ u16Bytes 1 ++ u16Bytes 8) _
  have hletter : readBytes (arrayFile bytes) (List.replicate 1 0) 9 = ([0x41], 10) := by
    rw [arrayFile, hrest, ← List.append_assoc version, ← List.append_assoc (version ++ _),
      ← List.append_assoc (version ++ _ ++ _)]
    exact readBytes_byte 0x41 (version ++ u16Bytes 1 ++ u16Bytes 8 ++ [0x40]) _
  have hdatasize : readBytes (arrayFile bytes) [0] 10 = ([BitVec.ofNat 8 bytes.length - 1], 11) := by
    rw [arrayFile, hrest, ← List.append_assoc version, ← List.append_assoc (version ++ _),
      ← List.append_assoc (version ++ _ ++ _), ← List.append_assoc (version ++ _ ++ _ ++ _)]
    exact readBytes_byte _ (version ++ u16Bytes 1 ++ u16Bytes 8 ++ [0x40] ++ [0x41]) _
  have hdata : (readBytes (arrayFile bytes) (List.replicate bytes.length 0) 11).1 = bytes := by
    rw [arrayFile, hrest, ← List.append_assoc version, ← List.append_assoc (version ++ _),
      ← List.append_assoc (version ++ _ ++ _), ← List.append_assoc (version ++ _ ++ _ ++ _),
      ← List.append_assoc (version ++ _ ++ _ ++ _ ++ _)]
    have hread := @readBytes_eq (List.replicate bytes.length 0) bytes (by rw [List.length_replicate])
      (version ++ u16Bytes 1 ++ u16Bytes 8 ++ [0x40] ++ [0x41] ++ [BitVec.ofNat 8 bytes.length - 1]) rest
    exact congrArg Prod.fst hread
  have hone : bigEndian (u16Bytes 1) = 1 := rfl
  have height : bigEndian (u16Bytes 8) = 8 := rfl
  rw [loadFromFile, hseek 4 0 (by decide), hcount]
  dsimp only
  rw [hone, readOffsets, hoffset]
  dsimp only
  rw [readOffsets, height]
  dsimp only
  rw [readEntries, readEntry, hseek 8 _ (by decide), hfirst]
  dsimp only
  rw [List.headD_cons, hdescription, hname, hletter]
  dsimp only
  rw [readDataLength, hdatasize]
  dsimp only
  rw [hstored, hdata]
  rfl

/-- An array of three bytes. -/
theorem survives_sample : loadFromFile (saveBuffer [⟨.smallArray, [0x41], [1, 2, 3]⟩])
    = some [⟨.smallArray, [0x41], [1, 2, 3]⟩] :=
  (survives_iff (@loadFromFile_arrayFile [1, 2, 3] (by decide) (by decide)).2
    (by unfold Fits; decide)).1.mpr (fullEntriesMatch_of_none (by decide))

/-- The data of a full array. -/
def ones : List Byte := List.replicate 256 1

theorem length_ones : ones.length = 256 := List.length_replicate

/-- An array of 256 ones becomes an array of zeros. -/
theorem not_survives_full :
    (arrayFile ones).length = sysconfSize ∧ loadFromFile (arrayFile ones) = some [⟨.smallArray, [0x41], ones⟩] ∧
      Fits [⟨.smallArray, [0x41], ones⟩] ∧
      loadFromFile (saveBuffer [⟨.smallArray, [0x41], ones⟩]) ≠ some [⟨.smallArray, [0x41], ones⟩] := by
  have hload := @loadFromFile_arrayFile ones (by rw [length_ones]; decide) (by rw [length_ones])
  have hfit : Fits [⟨.smallArray, [0x41], ones⟩] := by
    simp [Fits, encodeEntry, encodeData, sysconfSize, footer, length_ones]
  refine ⟨hload.1, hload.2, hfit, ?_⟩
  rw [loadFromFile_saveBuffer (loadFromFile_wellFormed hload.2) hfit]
  intro heq
  have hmatch := (reloaded_eq_iff.mp (Option.some_inj.mp heq)).1 (Or.inl ⟨rfl, length_ones⟩)
  have hlength : (mainData [⟨.smallArray, [0x41], ones⟩]).length = 13 := by
    rw [length_mainData]
    simp [encodeEntry, encodeData, length_ones]
  have hfirst : ∀ n rest, (firstBytes 256 ([] ++ (List.replicate (n + 1) 0 ++ rest))).head? = some 0 := by
    intro n rest
    simp [firstBytes, List.replicate_succ]
  rw [padding, hlength, length_ones] at hmatch
  have hhead := congrArg List.head? hmatch
  have hcount : sysconfSize - footer.length - 13 = 16366 + 1 := rfl
  rw [List.flatMap_nil, hcount, hfirst 16366] at hhead
  exact absurd hhead (by decide)

end Main

end SysConf
