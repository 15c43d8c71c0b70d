import PrimedSteam.IOS.SysConf

/-!
# The default SYSCONF

Without a valid file the entries are the default ones. They are inserted where the entries of the file were read to.

* `load`: reading the file, or the defaults.
* `readEntriesInto_eq`: the entries that stay of a rejected file.
* `loadsDefaults_iff`: nothing stays if and only if the first entry was the unknown one.
-/

set_option autoImplicit false

namespace SysConf

/-- The bytes of a name. -/
def nameBytes (name : String) : List Byte := name.toList.map fun c => BitVec.ofNat 8 c.toNat

/-- `AddEntry` -/
def addEntry (entries : List Entry) (entry : Entry) : List Entry := entries ++ [entry]

/-- `GetEntry`: the first entry with the name. -/
def getEntry (entries : List Entry) (key : List Byte) : Option Entry := entries.find? fun entry => entry.name == key

/-- The nickname, its zeros and its length. -/
def consoleNick : List Byte :=
  [0, 0x64, 0, 0x6f, 0, 0x6c, 0, 0x70, 0, 0x68, 0, 0x69, 0, 0x6e] ++ List.replicate 7 0 ++ [7]

def defaultEntries : List Entry :=
  [⟨.bigArray, nameBytes "BT.DINF", List.replicate (0x460 + 1) 0⟩,
    ⟨.bigArray, nameBytes "BT.CDIF", List.replicate (0x204 + 1) 0⟩,
    ⟨.long, nameBytes "BT.SENS", [0, 0, 0, 3]⟩,
    ⟨.byte, nameBytes "BT.BAR", [1]⟩,
    ⟨.byte, nameBytes "BT.SPKV", [0x58]⟩,
    ⟨.byte, nameBytes "BT.MOT", [1]⟩,
    ⟨.smallArray, nameBytes "IPL.NIK", consoleNick⟩,
    ⟨.byte, nameBytes "IPL.LNG", [1]⟩,
    ⟨.bigArray, nameBytes "IPL.SADR", 0x6c :: List.replicate 0x1007 0⟩,
    ⟨.smallArray, nameBytes "IPL.PC", [0, 0x04, 0x14] ++ List.replicate (0x49 - 2) 0⟩,
    ⟨.long, nameBytes "IPL.CB", [0, 0, 0, 0]⟩,
    ⟨.byte, nameBytes "IPL.AR", [1]⟩,
    ⟨.byte, nameBytes "IPL.SSV", [1]⟩,
    ⟨.byteBool, nameBytes "IPL.CD", [0]⟩,
    ⟨.byteBool, nameBytes "IPL.CD2", [0]⟩,
    ⟨.byteBool, nameBytes "IPL.EULA", [1]⟩,
    ⟨.byte, nameBytes "IPL.UPT", [2]⟩,
    ⟨.byte, nameBytes "IPL.PGS", [0]⟩,
    ⟨.byte, nameBytes "IPL.E60", [1]⟩,
    ⟨.byte, nameBytes "IPL.DH", [0]⟩,
    ⟨.long, nameBytes "IPL.INC", [0, 0, 0, 8]⟩,
    ⟨.long, nameBytes "IPL.FRC", [0, 0, 0, 0x28]⟩,
    ⟨.smallArray, nameBytes "IPL.IDL", [0, 1]⟩,
    ⟨.long, nameBytes "NET.WCFG", [0, 0, 0, 1]⟩,
    ⟨.long, nameBytes "NET.CTPC", List.replicate 4 0⟩,
    ⟨.byte, nameBytes "WWW.RST", [0]⟩,
    ⟨.byteBool, nameBytes "MPLS.MOVIE", [1]⟩]

/-- `InsertDefaultEntries` -/
def insertDefaultEntries (entries : List Entry) : List Entry := defaultEntries.foldl addEntry entries

/-! ## Loading -/

/-- The entries with those that are read before an unknown type, and whether there is none. -/
def readEntriesInto (file : List Byte) : List Entry → List ℕ → ℕ → List Entry × Bool
  | entries, [], _ => (entries, true)
  | entries, offset :: offsets, position =>
    match readEntry file offset position with
    | none => (entries, false)
    | some (entry, position) => readEntriesInto file (addEntry entries entry) offsets position

/-- The table of offsets of a file, and the position behind it. -/
def fileOffsets (file : List Byte) : List ℕ × ℕ :=
  let (numberOfEntries, position) := readBytes file [0, 0] (seek file 4 0)
  readOffsets file (ByteOrder.bigEndian numberOfEntries) position

/-- `LoadFromFile`, with the entries it leaves. -/
def loadFromFileInto (entries : List Entry) (file : List Byte) : List Entry × Bool :=
  let (offsets, position) := fileOffsets file
  readEntriesInto file entries offsets position

/-- `Load`, where there may be no file. -/
def load : Option (List Byte) → List Entry
  | none => insertDefaultEntries []
  | some file =>
    if file.length ≠ sysconfSize then
      insertDefaultEntries []
    else
      let (entries, loaded) := loadFromFileInto [] file
      if loaded then entries else insertDefaultEntries entries

/-! ## What stays of a file -/

section Load

variable {file : List Byte} {entries : List Entry}

theorem insertDefaultEntries_eq (entries : List Entry) :
    insertDefaultEntries entries = entries ++ defaultEntries := by
  have h : ∀ added entries : List Entry, added.foldl addEntry entries = entries ++ added := by
    intro added
    induction added with
    | nil => exact fun entries => (List.append_nil entries).symm
    | cons entry added ih =>
      intro entries
      rw [List.foldl_cons, ih, addEntry, List.append_assoc, List.singleton_append]
  exact h defaultEntries entries

theorem defaultEntries_nodup : (defaultEntries.map Entry.name).Nodup := by
  simp only [defaultEntries, List.map_cons, List.map_nil]
  decide

/-- Reading stops at the first unknown type, with the entries before it. -/
theorem readEntriesInto_eq (entries : List Entry) (offsets : List ℕ) (position : ℕ) :
    ∃ read, (readEntriesInto file entries offsets position).1 = entries ++ read ∧
      ((readEntriesInto file entries offsets position).2 = true → readEntries file offsets position = some read) ∧
      ((readEntriesInto file entries offsets position).2 = false → readEntries file offsets position = none ∧
        (read = [] ↔ ∀ offset ∈ offsets.head?, readEntry file offset position = none)) := by
  induction offsets generalizing entries position with
  | nil =>
    refine ⟨[], (List.append_nil entries).symm, fun _ => rfl, fun h => ?_⟩
    cases h
  | cons offset offsets ih =>
    rw [readEntriesInto, readEntries, List.head?_cons]
    cases hentry : readEntry file offset position with
    | none =>
      refine ⟨[], (List.append_nil entries).symm, fun h => ?_, fun _ => ⟨rfl, iff_of_true rfl ?_⟩⟩
      · cases h
      · intro first hfirst
        rw [← Option.some_inj.mp hfirst, hentry]
    | some r =>
      obtain ⟨entry, position'⟩ := r
      obtain ⟨read, hentries, htrue, hfalse⟩ := ih (addEntry entries entry) position'
      refine ⟨entry :: read, ?_, fun h => ?_, fun h => ?_⟩
      · exact hentries.trans (by rw [addEntry, List.append_assoc, List.singleton_append])
      · simp only [htrue h]
      · simp only [(hfalse h).1, true_and]
        refine iff_of_false (List.cons_ne_nil entry read) fun hnone => ?_
        have hsome := hnone offset rfl
        rw [hentry] at hsome
        cases hsome

theorem loadFromFile_eq_readEntries (file : List Byte) :
    loadFromFile file = readEntries file (fileOffsets file).1 (fileOffsets file).2 := rfl

/-- The first entry of the file has the unknown type. -/
def UnknownAtFirst (file : List Byte) : Prop :=
  ∀ offset ∈ (fileOffsets file).1.head?, readEntry file offset (fileOffsets file).2 = none

theorem loadFromFileInto_spec (file : List Byte) :
    ((loadFromFileInto [] file).2 = true ∧ loadFromFile file = some (loadFromFileInto [] file).1) ∨
      ((loadFromFileInto [] file).2 = false ∧ loadFromFile file = none ∧
        ((loadFromFileInto [] file).1 = [] ↔ UnknownAtFirst file)) := by
  obtain ⟨read, hread, htrue, hfalse⟩ := @readEntriesInto_eq file [] (fileOffsets file).1 (fileOffsets file).2
  have hentries : (loadFromFileInto [] file).1 = read := hread
  cases hloaded : (loadFromFileInto [] file).2 with
  | true => exact Or.inl ⟨rfl, by rw [hentries]; exact htrue hloaded⟩
  | false =>
    obtain ⟨hnone, hfirst⟩ := hfalse hloaded
    exact Or.inr ⟨rfl, hnone, by rw [hentries]; exact hfirst⟩

theorem load_rejected (hsize : file.length = sysconfSize) (h : loadFromFile file = none) :
    load (some file) = (loadFromFileInto [] file).1 ++ defaultEntries ∧
      ((loadFromFileInto [] file).1 = [] ↔ UnknownAtFirst file) := by
  rcases loadFromFileInto_spec file with ⟨-, hsome⟩ | ⟨hloaded, -, hfirst⟩
  · rw [h] at hsome
    cases hsome
  · refine ⟨?_, hfirst⟩
    simp only [load, ne_eq, hsize, not_true_eq_false, if_false, hloaded, Bool.false_eq_true, insertDefaultEntries_eq]

/-- The entries are the default ones, and so is what is got and saved. -/
structure LoadsDefaults (entries : List Entry) : Prop where
  entries_eq : entries = insertDefaultEntries []
  nodup : (entries.map Entry.name).Nodup
  getEntry_eq : ∀ key, getEntry entries key = getEntry (insertDefaultEntries []) key
  saveBuffer_eq : saveBuffer entries = saveBuffer (insertDefaultEntries [])

theorem loadsDefaults_iff_eq : LoadsDefaults entries ↔ entries = insertDefaultEntries [] := by
  constructor
  · exact fun h => h.entries_eq
  · rintro rfl
    refine ⟨rfl, ?_, fun _ => rfl, rfl⟩
    rw [insertDefaultEntries_eq, List.nil_append]
    exact defaultEntries_nodup

/-- **When a rejected file leaves no trace**: if and only if its first entry is the one of the unknown type. -/
theorem loadsDefaults_iff (hsize : file.length = sysconfSize) (h : loadFromFile file = none) :
    LoadsDefaults (load (some file)) ↔ UnknownAtFirst file := by
  obtain ⟨hload, hfirst⟩ := load_rejected hsize h
  rw [loadsDefaults_iff_eq, hload, insertDefaultEntries_eq, ← hfirst]
  constructor
  · exact fun heq => List.append_cancel_right heq
  · exact fun heq => by rw [heq]

end Load

/-! ## Rejected files -/

/-- A file that begins with these bytes. -/
def paddedFile (start : List Byte) : List Byte := start ++ List.replicate (sysconfSize - start.length) 0

theorem length_paddedFile {start : List Byte} (h : start.length ≤ sysconfSize) :
    (paddedFile start).length = sysconfSize := by
  rw [paddedFile, List.length_append, List.length_replicate]
  omega

theorem readBytes_start {start buffer : List Byte} {position : ℕ} (h : position + buffer.length ≤ start.length)
    (rest : List Byte) : readBytes (start ++ rest) buffer position
      = ((start.drop position).take buffer.length, position + buffer.length) := by
  have hcount : min buffer.length ((start ++ rest).length - position) = buffer.length := by
    rw [List.length_append]
    omega
  rw [readBytes, hcount, List.drop_length, List.append_nil, List.drop_append_of_le_length (by omega),
    List.take_append_of_le_length (by rw [List.length_drop]; omega)]

/-- One entry of the unknown type. -/
def unknownStart : List Byte := version ++ [0, 1, 0, 8, 0, 0x42]

/-- An entry of one byte, and one of the unknown type. -/
def partlyUnknownStart : List Byte := version ++ [0, 2, 0, 10, 0, 13, 0x60, 0x41, 1, 0, 0x42]

theorem seek_paddedFile {start : List Byte} {offset : ℕ} (hstart : start.length ≤ sysconfSize)
    (h : offset ≤ sysconfSize) (position : ℕ) : seek (paddedFile start) offset position = offset := by
  rw [seek, length_paddedFile hstart, if_neg (by omega)]

theorem fileOffsets_unknown : fileOffsets (paddedFile unknownStart) = ([8], 8) := by
  rw [fileOffsets, seek_paddedFile (by decide) (by decide), paddedFile, readBytes_start (by decide)]
  change readOffsets (unknownStart ++ _) 1 6 = _
  rw [readOffsets, readBytes_start (by decide)]
  rfl

theorem fileOffsets_partlyUnknown : fileOffsets (paddedFile partlyUnknownStart) = ([10, 13], 10) := by
  rw [fileOffsets, seek_paddedFile (by decide) (by decide), paddedFile]
  generalize List.replicate (sysconfSize - partlyUnknownStart.length) (0 : Byte) = rest
  rw [readBytes_start (by decide)]
  change readOffsets (partlyUnknownStart ++ rest) 2 6 = _
  rw [readOffsets, readBytes_start (by decide)]
  change (let (offsets, position) := readOffsets (partlyUnknownStart ++ rest) 1 8; (10 :: offsets, position)) = _
  rw [readOffsets, readBytes_start (by decide)]
  rfl

theorem readEntry_unknown (position : ℕ) : readEntry (paddedFile unknownStart) 8 position = none := by
  rw [readEntry, seek_paddedFile (by decide) (by decide), paddedFile, readBytes_start (by decide)]
  rfl

theorem readEntry_partlyUnknown (position : ℕ) : readEntry (paddedFile partlyUnknownStart) 10 position
      = some (⟨.byte, [0x41], [1]⟩, 13) ∧
    readEntry (paddedFile partlyUnknownStart) 13 position = none := by
  constructor
  · rw [readEntry, seek_paddedFile (by decide) (by decide), paddedFile]
    generalize List.replicate (sysconfSize - partlyUnknownStart.length) (0 : Byte) = rest
    rw [readBytes_start (by decide)]
    change (let (name, position) := readBytes (partlyUnknownStart ++ rest) [0] 11
      let (data, position) := readBytes (partlyUnknownStart ++ rest) [0] position
      some (Entry.mk .byte name data, position)) = _
    rw [readBytes_start (by decide)]
    dsimp only
    rw [readBytes_start (by decide)]
    rfl
  · rw [readEntry, seek_paddedFile (by decide) (by decide), paddedFile, readBytes_start (by decide)]
    rfl

/-- A file whose only entry has the unknown type leaves no trace. -/
theorem loadsDefaults_unknown : (paddedFile unknownStart).length = sysconfSize ∧
    loadFromFile (paddedFile unknownStart) = none ∧
    (LoadsDefaults (load (some (paddedFile unknownStart))) ↔ UnknownAtFirst (paddedFile unknownStart)) := by
  have hnone : loadFromFile (paddedFile unknownStart) = none := by
    rw [loadFromFile_eq_readEntries, fileOffsets_unknown, readEntries, readEntry_unknown]
  exact ⟨length_paddedFile (by decide), hnone, loadsDefaults_iff (length_paddedFile (by decide)) hnone⟩

/-- The entry before the unknown one stays before the defaults. -/
theorem not_loadsDefaults_partlyUnknown : (paddedFile partlyUnknownStart).length = sysconfSize ∧
    loadFromFile (paddedFile partlyUnknownStart) = none ∧
    ¬LoadsDefaults (load (some (paddedFile partlyUnknownStart))) := by
  have hlength : (paddedFile partlyUnknownStart).length = sysconfSize := length_paddedFile (by decide)
  have hnone : loadFromFile (paddedFile partlyUnknownStart) = none := by
    rw [loadFromFile_eq_readEntries, fileOffsets_partlyUnknown, readEntries, (readEntry_partlyUnknown 10).1]
    dsimp only
    rw [readEntries, (readEntry_partlyUnknown 13).2]
  have hread : (loadFromFileInto [] (paddedFile partlyUnknownStart)).1 = [⟨.byte, [0x41], [1]⟩] := by
    rw [loadFromFileInto, fileOffsets_partlyUnknown]
    dsimp only
    rw [readEntriesInto, (readEntry_partlyUnknown 10).1]
    dsimp only
    rw [readEntriesInto, (readEntry_partlyUnknown 13).2]
    rfl
  refine ⟨hlength, hnone, fun h => ?_⟩
  have heq := h.entries_eq
  rw [(load_rejected hlength hnone).1, hread, insertDefaultEntries_eq] at heq
  exact absurd (congrArg List.length heq) (by simp)

end SysConf
