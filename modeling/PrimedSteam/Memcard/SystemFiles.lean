import PrimedSteam.Memcard.CardRuns

/-!
# The system files of F-Zero GX and Phantasy Star Online

`ImportFile` writes the serial of the card into the files of these names.

* `readSavefile`: the three formats of a savefile.
* `fixUps`: the changes of `ImportFile`, with each access to a block checked.
* **`fixUps_in_bounds_iff`**: the accesses stay in the file iff it has the second block that a file of
  Phantasy Star Online needs.
-/

set_option autoImplicit false

namespace GCMemcard

open Memcard (Byte GCMBlock blockSize)

/-! ## Savefiles of the host -/

inductive SavefileFormat where
  | gci | gcs | sav
  deriving DecidableEq

def SavefileFormat.headerSize : SavefileFormat → ℕ
  | gci => 0x40
  | gcs => 0x150
  | sav => 0xC0

/-- A file of the host: its size, the entry that its header has in each format, whether the magic of
the format is there, and the blocks after the header that can be read. -/
structure HostSavefile where
  size : ℕ
  entry : SavefileFormat → DEntry
  magic : SavefileFormat → Bool
  blocks : List GCMBlock

namespace HostSavefile

variable (file : HostSavefile)

/-- `ReadBlocksFromIOFile` -/
def readBlocks (n : ℕ) : Option (List GCMBlock) :=
  if n ≤ file.blocks.length then some (file.blocks.take n) else none

theorem length_readBlocks {file : HostSavefile} {n : ℕ} {blocks : List GCMBlock}
    (h : file.readBlocks n = some blocks) : blocks.length = n := by
  rw [readBlocks, Option.ite_none_right_eq_some, Option.some_inj] at h
  rw [← h.2, List.length_take]
  exact min_eq_left h.1

/-- `ReadSavefileInternalGCI` and `ReadSavefileInternalSAV`: the entry has the number of blocks. -/
def readCounted (format : SavefileFormat) : Option Savefile :=
  let e := file.entry format
  if format.headerSize + e.blockCount.toNat * blockSize ≠ file.size then none
  else
    match h : file.readBlocks e.blockCount.toNat with
    | some blocks => some ⟨e, blocks, by rw [length_readBlocks h, BitVec.ofNat_toNat,
        BitVec.setWidth_eq]⟩
    | none => none

/-- `ReadSavefileInternalGCS`: the size of the file has the number of blocks. -/
def readGCS : Option Savefile :=
  let n := (file.size - SavefileFormat.gcs.headerSize) / blockSize
  match h : file.readBlocks n with
  | some blocks =>
    some ⟨{ file.entry .gcs with blockCount := BitVec.ofNat 16 n }, blocks, by
      rw [length_readBlocks h]⟩
  | none => none

/-- `ReadSavefile` of a file that can be opened. -/
def readSavefile : Option Savefile :=
  let headerSize := file.size % blockSize
  if headerSize = SavefileFormat.gci.headerSize then file.readCounted .gci
  else if headerSize = SavefileFormat.gcs.headerSize then
    if file.magic .gcs then file.readGCS else none
  else if headerSize = SavefileFormat.sav.headerSize then
    if file.magic .sav then file.readCounted .sav else none
  else none

end HostSavefile

theorem exists_readSavefile (savefile : Savefile)
    (h : savefile.blocks.length = savefile.dirEntry.blockCount.toNat) :
    ∃ file : HostSavefile, file.readSavefile = some savefile := by
  obtain ⟨e, blocks, hcount⟩ := savefile
  refine ⟨⟨0x40 + e.blockCount.toNat * blockSize, fun _ => e, fun _ => true, blocks⟩, ?_⟩
  have hmod : (0x40 + e.blockCount.toNat * blockSize) % blockSize = 0x40 :=
    Nat.add_mul_mod_self_right _ _ _
  have hread : (⟨0x40 + e.blockCount.toNat * blockSize, fun _ => e, fun _ => true, blocks⟩ :
      HostSavefile).readBlocks e.blockCount.toNat = some blocks := by
    rw [HostSavefile.readBlocks, if_pos h.ge, ← h, List.take_length]
  rw [HostSavefile.readSavefile]
  simp only [hmod, SavefileFormat.headerSize, if_true, HostSavefile.readCounted, ne_eq,
    not_true_eq_false, if_false]
  split
  · rename_i hblocks
    rw [hread, Option.some_inj] at hblocks
    simp only [hblocks]
  · rename_i hnone
    rw [hread] at hnone
    cases hnone

/-! ## Accesses to blocks -/

/-- `patch` of a block that has to exist. -/
def patch? (fileBuffer : List GCMBlock) (block offset : ℕ) (bytes : List Byte) :
    Option (List GCMBlock) :=
  if block < fileBuffer.length then some (patch fileBuffer block offset bytes) else none

/-- `fileBytes` of blocks that have to exist. -/
def fileBytes? (fileBuffer : List GCMBlock) (start stop : ℕ) : Option (List Byte) :=
  if ∀ i < stop, start ≤ i → i / blockSize < fileBuffer.length then
    some (fileBytes fileBuffer start stop)
  else none

/-- `FZEROGX_MakeSaveGameValid`; `none` is an access to a block that does not exist. -/
def fzerogxMakeSaveGameValid? (h : Header) (e : DEntry) (fileBuffer : List GCMBlock) :
    Option (List GCMBlock) :=
  if e.named "f_zero.dat".toList = false then some fileBuffer
  else if fileBuffer.length ≠ 4 then some fileBuffer
  else do
    let (serial1, serial2) := h.calculateSerial
    let fileBuffer ← patch? fileBuffer 1 0x0066 (bytes16 (serial1.extractLsb' 16 16))
    let fileBuffer ← patch? fileBuffer 3 0x1580 (bytes16 (serial2.extractLsb' 16 16))
    let fileBuffer ← patch? fileBuffer 1 0x0060 (bytes16 (serial1.extractLsb' 0 16))
    let fileBuffer ← patch? fileBuffer 1 0x0200 (bytes16 (serial2.extractLsb' 0 16))
    let area ← fileBytes? fileBuffer 0x02 0x8000
    patch? fileBuffer 0 0x00 (bytes16 (~~~(area.foldl crc16 0xFFFF)))

/-- `PSO_MakeSaveGameValid`; `none` is an access to a block that does not exist. -/
def psoMakeSaveGameValid? (h : Header) (e : DEntry) (fileBuffer : List GCMBlock) :
    Option (List GCMBlock) :=
  match psoOffset e with
  | none => some fileBuffer
  | some pso3Offset => do
    let (serial1, serial2) := h.calculateSerial
    let fileBuffer ← patch? fileBuffer 1 0x0158 (bytes32 serial1)
    let fileBuffer ← patch? fileBuffer 1 0x015C (bytes32 serial2)
    let area ← fileBytes? fileBuffer (blockSize + 0x004C) (blockSize + 0x0164 + pso3Offset)
    patch? fileBuffer 1 0x0048 (bytes32 (area.foldl crc32 0xDEBB20E3 ^^^ 0xFFFFFFFF))

/-- The changes of `ImportFile` to a copy of the blocks. -/
def fixUps (h : Header) (savefile : Savefile) : Option (List GCMBlock) :=
  (fzerogxMakeSaveGameValid? h savefile.dirEntry savefile.blocks).bind
    (psoMakeSaveGameValid? h savefile.dirEntry)

variable {h : Header} {e : DEntry} {fileBuffer : List GCMBlock}

theorem patch?_eq {block offset : ℕ} {bytes : List Byte} (hblock : block < fileBuffer.length) :
    patch? fileBuffer block offset bytes = some (patch fileBuffer block offset bytes) :=
  if_pos hblock

theorem fileBytes?_eq {start stop : ℕ} (hstop : stop ≤ fileBuffer.length * blockSize) :
    fileBytes? fileBuffer start stop = some (fileBytes fileBuffer start stop) := by
  refine if_pos fun i hi _ => ?_
  exact (Nat.div_lt_iff_lt_mul (by decide)).mpr (hi.trans_le hstop)

/-- **The size of the file is checked for F-Zero GX**, so that the accesses are in bounds. -/
theorem fzerogxMakeSaveGameValid?_eq :
    fzerogxMakeSaveGameValid? h e fileBuffer = some (fzerogxMakeSaveGameValid h e fileBuffer) := by
  unfold fzerogxMakeSaveGameValid? fzerogxMakeSaveGameValid
  by_cases hname : e.named "f_zero.dat".toList = false
  · rw [if_pos hname, if_pos hname]
  · rw [if_neg hname, if_neg hname]
    by_cases hlength : fileBuffer.length ≠ 4
    · rw [if_pos hlength, if_pos hlength]
    · rw [if_neg hlength, if_neg hlength]
      have hfour : fileBuffer.length = 4 := not_not.mp hlength
      have hpatch : ∀ {f : List GCMBlock} {block offset : ℕ} {bytes : List Byte}, f.length = 4 →
          block < 4 → patch? f block offset bytes = some (patch f block offset bytes) :=
        fun hf hblock => patch?_eq (by rw [hf]; exact hblock)
      have hbytes : ∀ {f : List GCMBlock}, f.length = 4 →
          fileBytes? f 0x02 0x8000 = some (fileBytes f 0x02 0x8000) :=
        fun hf => fileBytes?_eq (by rw [hf]; decide)
      simp only [Option.bind_eq_bind]
      rw [hpatch hfour (by decide), Option.bind_some, hpatch (by simpa using hfour) (by decide),
        Option.bind_some, hpatch (by simpa using hfour) (by decide), Option.bind_some,
        hpatch (by simpa using hfour) (by decide), Option.bind_some,
        hbytes (by simpa using hfour), Option.bind_some, hpatch (by simpa using hfour) (by decide)]

/-- **The size of the file is not checked for Phantasy Star Online.** -/
theorem psoMakeSaveGameValid?_eq :
    psoMakeSaveGameValid? h e fileBuffer = psoMakeSaveGameValid h e fileBuffer := by
  unfold psoMakeSaveGameValid? psoMakeSaveGameValid
  cases hoffset : psoOffset e with
  | none => rfl
  | some pso3Offset =>
    simp only [Option.bind_eq_bind]
    by_cases hshort : fileBuffer.length < 2
    · rw [if_pos hshort, patch?, if_neg (by omega), Option.bind_none]
    · rw [if_neg hshort]
      have hpso : pso3Offset ≤ 0x10 := by
        rw [psoOffset] at hoffset
        split_ifs at hoffset
        · cases hoffset
          decide
        · cases hoffset
          decide
      have hpatch : ∀ {f : List GCMBlock} {offset : ℕ} {bytes : List Byte},
          f.length = fileBuffer.length → patch? f 1 offset bytes = some (patch f 1 offset bytes) :=
        fun hf => patch?_eq (by omega)
      rw [hpatch rfl, Option.bind_some, hpatch (by simp), Option.bind_some,
        fileBytes?_eq, Option.bind_some, hpatch (by simp)]
      simp only [length_patch]
      have htwo : 2 * blockSize ≤ fileBuffer.length * blockSize :=
        Nat.mul_le_mul_right _ (by omega)
      have hsize : blockSize = 0x2000 := rfl
      omega

theorem psoMakeSaveGameValid_isSome_iff :
    (psoMakeSaveGameValid h e fileBuffer).isSome ↔
      ((psoOffset e).isSome → 2 ≤ fileBuffer.length) := by
  rw [psoMakeSaveGameValid]
  cases psoOffset e with
  | none => simp
  | some pso3Offset =>
    by_cases hshort : fileBuffer.length < 2
    · simp [hshort]
    · simp [hshort, Nat.not_lt.mp hshort]

/-- **The fix-ups access only blocks of the savefile** iff a system file of Phantasy Star Online has
two blocks. -/
theorem fixUps_in_bounds_iff (h : Header) (savefile : Savefile) :
    (fixUps h savefile).isSome ↔
      ((psoOffset savefile.dirEntry).isSome → 2 ≤ savefile.blocks.length) := by
  rw [fixUps, fzerogxMakeSaveGameValid?_eq, Option.bind_some, psoMakeSaveGameValid?_eq,
    psoMakeSaveGameValid_isSome_iff, length_fzerogxMakeSaveGameValid]

/-- The file name `PSO_SYSTEM`. -/
def psoSystemName : Fin dentryStrlen → Byte := fun i =>
  ("PSO_SYSTEM".toList.map fun c => BitVec.ofNat 8 c.toNat).getD i 0

/-- A savefile of this name with one block. -/
def psoSample : Savefile where
  dirEntry := { DEntry.erased with gamecode := 0x47505345, filename := psoSystemName, blockCount := 1 }
  blocks := [.erased]
  blockCount_eq := rfl

theorem fixUps_out_of_bounds :
    (∃ file : HostSavefile, file.readSavefile = some psoSample) ∧
      ∀ h : Header, fixUps h psoSample = none := by
  refine ⟨exists_readSavefile psoSample rfl, fun h => ?_⟩
  have hnone := mt (fixUps_in_bounds_iff h psoSample).mp (by decide)
  exact Option.not_isSome_iff_eq_none.mp hnone

end GCMemcard
