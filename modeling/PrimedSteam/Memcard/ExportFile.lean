import PrimedSteam.Memcard.CardRuns
import Mathlib.Logic.Function.Iterate

/-!
# Reading a file from the card

* `getSaveData`, `exportFile`: the blocks of a file along its chain in the BAT, with each access to
  the data checked.
* `Accepted`: what `Open` makes sure of (`accepted_of_open`).
* **`export_on_card_iff`**: on a card that is opened the accesses stay on the card iff the chain does.
* `exports_of_no_data_in_unused_area`: the chain does if the BAT has nothing behind the card.
-/

set_option autoImplicit false

namespace GCMemcard

open Memcard (GCMBlock mcFstBlocks)
open Successors BlockAlloc

inductive GetSaveDataRetVal where
  | success
  | fail
  | noMemcard
  deriving DecidableEq

namespace Card

variable (card : Card)

/-- `DEntry_FirstBlock` -/
def dentryFirstBlock (index : ℕ) : ℕ :=
  if h : card.valid = true ∧ index < dirLen then
    let block := (card.directory.dirEntries ⟨index, h.2⟩).firstBlock.toNat
    if block > card.sizeBlocks % 2 ^ 16 then noBlock else block
  else noBlock

/-- `DEntry_BlockCount` -/
def dentryBlockCount (index : ℕ) : ℕ :=
  if h : card.valid = true ∧ index < dirLen then
    let blocks := (card.directory.dirEntries ⟨index, h.2⟩).blockCount.toNat
    if blocks > card.sizeBlocks % 2 ^ 16 then noBlock else blocks
  else noBlock

/-- The element of `m_data_blocks` for a block, which may not exist. -/
def dataBlock? (block : ℕ) : Option GCMBlock :=
  if block < mcFstBlocks then none else card.dataBlocks[block - mcFstBlocks]?

/-- The loop of `GetSaveData`; `none` is an access outside `m_data_blocks`. -/
def copyBlocks : ℕ → ℕ → List GCMBlock → Option (GetSaveDataRetVal × List GCMBlock)
  | 0, _, blocks => some (.success, blocks)
  | n + 1, nextBlock, blocks =>
    if nextBlock = 0 ∨ nextBlock = noBlock then some (.fail, blocks)
    else
      (card.dataBlock? nextBlock).bind fun block =>
        copyBlocks n (card.bat.getNextBlock nextBlock) (blocks ++ [block])

/-- `GetSaveData` -/
def getSaveData (index : ℕ) (blocks : List GCMBlock) :
    Option (GetSaveDataRetVal × List GCMBlock) :=
  if card.valid = false then some (.noMemcard, blocks)
  else
    let block := card.dentryFirstBlock index
    let blockCount := card.dentryBlockCount index
    if block = noBlock ∨ blockCount = noBlock then some (.fail, blocks)
    else card.copyBlocks blockCount block blocks

variable {card} {n a index : ℕ} {blocks blocks' : List GCMBlock}

/-- **A loop that succeeds has copied the blocks of a chain** to the end. -/
theorem copyBlocks_success (h : card.copyBlocks n a blocks = some (.success, blocks')) :
    ∃ l z data, Linked card.bat.getNextBlock a l z ∧ l.length = n ∧
      l.map card.dataBlock? = data.map some ∧ blocks' = blocks ++ data := by
  induction n generalizing a blocks with
  | zero =>
    obtain ⟨-, rfl⟩ := Prod.mk.inj (Option.some_inj.mp h)
    exact ⟨[], a, [], rfl, rfl, rfl, (List.append_nil _).symm⟩
  | succ n ih =>
    rw [copyBlocks] at h
    by_cases hstop : a = 0 ∨ a = noBlock
    · rw [if_pos hstop] at h
      cases h
    · rw [if_neg hstop] at h
      obtain ⟨block, hblock, hrest⟩ := Option.bind_eq_some_iff.mp h
      obtain ⟨l, z, data, hlinked, hlength, hdata, rfl⟩ := ih hrest
      refine ⟨a :: l, z, block :: data, ⟨rfl, hlinked⟩, congrArg (· + 1) hlength, ?_, ?_⟩
      · rw [List.map_cons, List.map_cons, hblock, hdata]
      · rw [List.append_assoc, List.singleton_append]

theorem length_copyBlocks (h : card.copyBlocks n a blocks = some (.success, blocks')) :
    blocks'.length = blocks.length + n := by
  obtain ⟨l, z, data, -, hlength, hdata, rfl⟩ := copyBlocks_success h
  have hcount := congrArg List.length hdata
  rw [List.length_map, List.length_map, hlength] at hcount
  rw [List.length_append, ← hcount]

theorem dentryBlockCount_eq (hindex : index < dirLen) (h : card.dentryBlockCount index ≠ noBlock) :
    card.dentryBlockCount index = (card.directory.dirEntries ⟨index, hindex⟩).blockCount.toNat := by
  unfold dentryBlockCount at h ⊢
  split at h
  · rename_i hvalid
    rw [dif_pos hvalid]
    dsimp only at h ⊢
    split at h
    · exact absurd rfl h
    · rename_i hle
      exact if_neg hle
  · exact absurd rfl h

theorem length_getSaveData (hindex : index < dirLen)
    (h : card.getSaveData index blocks = some (.success, blocks')) :
    blocks'.length =
      blocks.length + (card.directory.dirEntries ⟨index, hindex⟩).blockCount.toNat := by
  unfold getSaveData at h
  split at h
  · cases h
  · dsimp only at h
    split at h
    · cases h
    · rename_i hfound
      rw [not_or] at hfound
      rw [length_copyBlocks h, dentryBlockCount_eq hindex hfound.2]

variable (card index) in
/-- `ExportFile`; `none` is an access outside `m_data_blocks`. -/
def exportFile : Option (Option Savefile) :=
  if h : card.valid = true ∧ index < dirLen then
    let dirEntry := card.directory.dirEntries ⟨index, h.2⟩
    if dirEntry.Used then
      match hdata : card.getSaveData index [] with
      | none => none
      | some (.success, blocks) =>
        some (some ⟨dirEntry, blocks, by
          rw [length_getSaveData h.2 hdata, List.length_nil, Nat.zero_add, BitVec.ofNat_toNat,
            BitVec.setWidth_eq]⟩)
      | some _ => some none
    else some none
  else some none

theorem exportFile_data (hvalid : card.valid = true) (hindex : index < dirLen)
    (hused : (card.directory.dirEntries ⟨index, hindex⟩).Used) :
    (card.exportFile index).map (Option.map fun savefile => (savefile.dirEntry, savefile.blocks)) =
      (card.getSaveData index []).map fun r =>
        if r.1 = .success then some (card.directory.dirEntries ⟨index, hindex⟩, r.2) else none := by
  rw [exportFile, dif_pos ⟨hvalid, hindex⟩]
  dsimp only
  rw [if_pos hused]
  split
  · rename_i hnone
    rw [hnone]
    rfl
  · rename_i hdata
    refine Eq.symm ((congrArg (Option.map _) hdata).trans ?_)
    rfl
  · rename_i r hne hdata
    rw [hdata]
    obtain ⟨ret, data⟩ := r
    cases ret with
    | success => exact absurd rfl (hne data)
    | fail => rfl
    | noMemcard => rfl

theorem exportFile_unused (h : ∀ hindex : index < dirLen,
    ¬(card.directory.dirEntries ⟨index, hindex⟩).Used) : card.exportFile index = some none := by
  unfold exportFile
  split
  · rename_i hvalid
    exact if_neg (h hvalid.2)
  · rfl

/-! ## Where the blocks lie -/

variable (card) in
/-- The loop of `GetSaveData` stops at the block, or reads it. -/
def Readable (block : ℕ) : Prop :=
  block = 0 ∨ block = noBlock ∨ mcFstBlocks ≤ block ∧ block < mcFstBlocks + card.dataBlocks.length

theorem dataBlock?_isSome_iff {block : ℕ} : (card.dataBlock? block).isSome ↔
    mcFstBlocks ≤ block ∧ block < mcFstBlocks + card.dataBlocks.length := by
  unfold dataBlock?
  by_cases hlow : block < mcFstBlocks
  · rw [if_pos hlow]
    exact iff_of_false (by simp) fun h => by omega
  · rw [if_neg hlow, Option.isSome_iff_exists]
    simp only [List.getElem?_eq_some_iff]
    refine ⟨fun h => ?_, fun h => ⟨_, by omega, rfl⟩⟩
    obtain ⟨_, hlt, -⟩ := h
    omega

theorem iterate_getNextBlock_zero (bat : BlockAlloc) (k : ℕ) : bat.getNextBlock^[k] 0 = 0 :=
  Function.iterate_fixed rfl k

/-- **The loop stays on the card iff each block of the chain does**, up to a stop. -/
theorem copyBlocks_isSome_iff : (card.copyBlocks n a blocks).isSome ↔
    ∀ k < n, card.Readable (card.bat.getNextBlock^[k] a) := by
  induction n generalizing a blocks with
  | zero => exact iff_of_true rfl fun k hk => absurd hk (Nat.not_lt_zero k)
  | succ n ih =>
    rw [copyBlocks]
    by_cases hstop : a = 0 ∨ a = noBlock
    · rw [if_pos hstop]
      refine iff_of_true rfl fun k _ => ?_
      cases k with
      | zero => exact hstop.imp_right Or.inl
      | succ k =>
        have hnext : card.bat.getNextBlock a = 0 := by
          rcases hstop with rfl | rfl
          · rfl
          · rfl
        rw [Function.iterate_succ_apply, hnext, iterate_getNextBlock_zero]
        exact Or.inl rfl
    · rw [if_neg hstop]
      rw [not_or] at hstop
      cases hblock : card.dataBlock? a with
      | none =>
        refine iff_of_false (by simp) fun h => ?_
        obtain h₀ | h₀ | h₀ := h 0 (Nat.succ_pos n)
        · exact hstop.1 h₀
        · exact hstop.2 h₀
        · have hsome := dataBlock?_isSome_iff.mpr h₀
          rw [Function.iterate_zero, id_eq, hblock] at hsome
          cases hsome
      | some block =>
        have hread : card.Readable a := Or.inr (Or.inr (dataBlock?_isSome_iff.mp (by rw [hblock]; rfl)))
        rw [Option.bind_some, ih]
        constructor
        · intro h k hk
          cases k with
          | zero => exact hread
          | succ k => exact h k (Nat.lt_of_succ_lt_succ hk)
        · exact fun h k hk => h (k + 1) (Nat.succ_lt_succ hk)

end Card

/-! ## What `Open` makes sure of -/

namespace ErrorCode

/-- `Test`; it is not unfolded, since the errors of a directory are a long computation. -/
@[irreducible] def test (e : ErrorCode) (code : ValidityIssue) : Prop := code ∈ e

variable {e e' : ErrorCode} {code : ValidityIssue}

theorem test_union : test (e ∪ e') code ↔ e.test code ∨ e'.test code := by
  unfold test
  exact Finset.mem_union

theorem test_issue {p : Prop} [Decidable p] : test (issue p code) code ↔ p := by
  unfold test issue
  by_cases hp : p
  · simp [hp]
  · simp [hp]

theorem hasCriticalErrors_of_test (h : e.test code) (hcode : code ≠ .dataInUnusedArea) :
    e.hasCriticalErrors := by
  unfold test at h
  unfold hasCriticalErrors
  cases code with
  | dataInUnusedArea => exact absurd rfl hcode
  | _ => simp [h]

end ErrorCode

open ErrorCode

/-- The directory and the BAT in use passed the checks. -/
structure Accepted (card : Card) : Prop where
  valid : card.valid = true
  size : ∃ megabits ∈ validMegabits, card.sizeBlocks = megabits * mbitToBlocks
  data : card.dataBlocks.length = card.sizeBlocks - mcFstBlocks
  freeBlocks : card.bat.freeBlocks.toNat = (card.bat.free card.sizeBlocks).card
  files : ∀ i, (card.directory.dirEntries i).Used → Directory.batBlockCountMatches card.bat
    (card.directory.dirEntries i).blockCount.toNat (card.directory.dirEntries i).firstBlock.toNat = true

variable {image : Image} {errors : ErrorCode} {card : Card}

theorem Accepted.size_bounds (h : Accepted card) :
    mcFstBlocks ≤ card.sizeBlocks ∧ card.sizeBlocks ≤ 2048 := by
  obtain ⟨megabits, hvalid, hsize⟩ := h.size
  have hbounds := megabits_bounds _ hvalid
  have hblocks : card.sizeBlocks = megabits * 16 := hsize
  unfold mcFstBlocks
  omega

theorem length_dataBlocks (h : image.megabits ∈ validMegabits) :
    image.dataBlocks.length = image.megabits * mbitToBlocks - mcFstBlocks := by
  have hpos := (megabits_bounds _ h).1
  have hblocks : image.megabits * mbitToBlocks = image.megabits * 16 := rfl
  have hbytes : image.megabits = if Memcard.blockSize * (mcFstBlocks + image.dataBlocks.length) %
      131072 ≠ 0 then 0 else Memcard.blockSize * (mcFstBlocks + image.dataBlocks.length) / 131072 := rfl
  rw [hblocks]
  unfold Memcard.blockSize mcFstBlocks at *
  split at hbytes
  · omega
  · omega

theorem dataBlocks_mk (header : Header) (directories : Fin 2 → Directory) (bats : Fin 2 → BlockAlloc)
    (data : List GCMBlock) : (⟨header, directories, bats, data⟩ : Image).dataBlocks = data := rfl

/-- The card is that of an image with the same data, which is the file with its corrupted block
replaced. -/
theorem open_cases (h : image.open' = (errors, some card)) :
    image.megabits ∈ validMegabits ∧ ¬errors.hasCriticalErrors ∧
      ∃ image' : Image, image'.dataBlocks = image.dataBlocks ∧ card = image'.card ∧
        (∀ code, test image'.blockErrors code → errors.test code) ∧
        ∀ code, test (card.directory.checkForErrorsWithBat card.bat) code → errors.test code := by
  unfold Image.open' at h
  split at h
  · cases congrArg Prod.snd h
  rename_i hmegabits
  dsimp only at h
  split at h
  · cases congrArg Prod.snd h
  split at h
  · cases congrArg Prod.snd h
  split at h
  · cases congrArg Prod.snd h
  rename_i hcritical
  obtain ⟨rfl, hcard⟩ := Prod.mk.inj h
  obtain rfl := Option.some_inj.mp hcard
  refine ⟨not_not.mp hmegabits, hcritical, image.repaired, dataBlocks_mk _ _ _ _, rfl,
    fun code hcode => ?_, fun code hcode => ?_⟩
  · exact test_union.mpr (Or.inl (test_union.mpr (Or.inr hcode)))
  · exact test_union.mpr (Or.inr hcode)

theorem test_blockErrors {i : Fin 2} {code : ValidityIssue} (h : test (image.batErrors i) code) :
    test image.blockErrors code := by
  unfold Image.blockErrors
  obtain rfl | rfl : i = 0 ∨ i = 1 := by omega
  · exact test_union.mpr (Or.inl (test_union.mpr (Or.inr h)))
  · exact test_union.mpr (Or.inr h)

theorem freeBlocks_of_check {bat : BlockAlloc} {sizeMb : Word} (hvalid : sizeMb.toNat ∈ validMegabits)
    (h : ¬test (bat.checkForErrors sizeMb) .freeBlockMismatch) :
    bat.freeBlocks.toNat = (bat.free (sizeMb.toNat * mbitToBlocks)).card := by
  have hbounds := megabits_bounds _ hvalid
  have hin : 0 < sizeMb.toNat ∧ sizeMb.toNat ≤ 256 := by omega
  have hfst : mcFstBlocks ≤ sizeMb.toNat * mbitToBlocks := by
    have hblocks : sizeMb.toNat * mbitToBlocks = sizeMb.toNat * 16 := rfl
    unfold mcFstBlocks
    omega
  rw [← countP_used bat hfst]
  by_contra hne
  refine h ?_
  rw [BlockAlloc.checkForErrors, if_pos hin]
  exact test_union.mpr (Or.inr (test_union.mpr (Or.inl (test_issue.mpr fun heq => hne heq.symm))))

theorem files_of_check {d : Directory} {bat : BlockAlloc}
    (h : ¬test (d.checkForErrorsWithBat bat) .dirBatInconsistent) (i : Fin dirLen)
    (hi : (d.dirEntries i).Used) : Directory.batBlockCountMatches bat
      (d.dirEntries i).blockCount.toNat (d.dirEntries i).firstBlock.toNat = true := by
  rw [Directory.checkForErrorsWithBat, test_issue] at h
  by_contra hfalse
  exact h ⟨i, hi, Bool.eq_false_iff.mpr hfalse⟩

theorem map_of_check {bat : BlockAlloc} {sizeMb : Word} (hvalid : sizeMb.toNat ∈ validMegabits)
    (h : ¬test (bat.checkForErrors sizeMb) .dataInUnusedArea) (block : ℕ)
    (hlow : sizeMb.toNat * mbitToBlocks ≤ block) (hhigh : block < mcFstBlocks + batSize) :
    bat.map block = 0 := by
  have hbounds := megabits_bounds _ hvalid
  have hin : 0 < sizeMb.toNat ∧ sizeMb.toNat ≤ 256 := by omega
  have hfst : mcFstBlocks ≤ sizeMb.toNat * mbitToBlocks := by
    have hblocks : sizeMb.toNat * mbitToBlocks = sizeMb.toNat * 16 := rfl
    unfold mcFstBlocks
    omega
  by_contra hne
  refine h ?_
  rw [BlockAlloc.checkForErrors, if_pos hin]
  refine test_union.mpr (Or.inr (test_union.mpr (Or.inr (test_issue.mpr ⟨block, ?_, hne⟩))))
  rw [List.mem_range'_1]
  omega

/-- **A card that is opened passed the checks.** -/
theorem accepted_of_open (h : image.open' = (errors, some card)) : Accepted card := by
  obtain ⟨hmegabits, hcritical, image', hdata, rfl, hblocks, hconsistent⟩ := open_cases h
  have hsame : image'.megabits = image.megabits := by
    unfold Image.megabits
    rw [hdata]
  have hmod : (BitVec.ofNat 16 image'.megabits).toNat = image'.megabits := by
    have hbounds := megabits_bounds _ (hsame ▸ hmegabits)
    rw [BitVec.toNat_ofNat]
    omega
  have hsize : image'.card.sizeBlocks = image'.megabits * mbitToBlocks := rfl
  constructor
  case valid => rfl
  case size => exact ⟨image'.megabits, hsame ▸ hmegabits, rfl⟩
  case data => exact length_dataBlocks (hsame ▸ hmegabits)
  case freeBlocks =>
    have hcheck : ¬test (image'.batErrors image'.card.activeBat) .freeBlockMismatch := fun htest =>
      hcritical (hasCriticalErrors_of_test (hblocks _ (test_blockErrors htest)) (by decide))
    rw [Image.batErrors] at hcheck
    have hfree := freeBlocks_of_check (by rwa [hmod, hsame]) hcheck
    rw [hmod] at hfree
    exact hfree
  case files =>
    exact files_of_check fun htest =>
      hcritical (hasCriticalErrors_of_test (hconsistent _ htest) (by decide))

/-! ## Files on the card -/

theorem bounds_of_getNextBlock {bat : BlockAlloc} {block : ℕ} (h : bat.getNextBlock block ≠ 0) :
    mcFstBlocks ≤ block ∧ block ≤ 4091 ∧ bat.map block ≠ 0 := by
  unfold getNextBlock at h
  split at h
  · exact absurd rfl h
  · rename_i hrange
    refine ⟨by omega, by omega, fun hmap => h ?_⟩
    rw [hmap]
    rfl

theorem chain_of_matches {bat : BlockAlloc} {n a : ℕ}
    (h : Directory.batBlockCountMatches bat n a = true) :
    ∃ l, l ≠ [] ∧ l.length = n ∧ Linked bat.getNextBlock a l noBlock ∧
      ∀ block ∈ l, bat.getNextBlock block ≠ 0 := by
  induction n generalizing a with
  | zero => cases h
  | succ n ih =>
    rw [Directory.batBlockCountMatches] at h
    split at h
    · cases h
    rename_i hzero
    split at h
    · rename_i hlast
      have hn : n = 0 := by simpa using h
      subst hn
      exact ⟨[a], List.cons_ne_nil _ _, rfl, ⟨rfl, hlast⟩, by simpa using hzero⟩
    · obtain ⟨l, -, hlength, hlinked, hnext⟩ := ih h
      exact ⟨a :: l, List.cons_ne_nil _ _, congrArg (· + 1) hlength, ⟨rfl, hlinked⟩,
        List.forall_mem_cons.mpr ⟨hzero, hnext⟩⟩

namespace Card

variable (card : Card)

/-- The block of the file after `k` others. -/
def blockAt (e : DEntry) (k : ℕ) : ℕ := card.bat.getNextBlock^[k] e.firstBlock.toNat

/-- `GetSaveData` does not look for the file. -/
def Refuses (e : DEntry) : Prop :=
  card.sizeBlocks < e.firstBlock.toNat ∨ card.sizeBlocks < e.blockCount.toNat

/-- The data are the blocks of the chain of `e` in order, as many as the entry tells. -/
def IsData (e : DEntry) (data : List GCMBlock) : Prop :=
  data.length = e.blockCount.toNat ∧ ∃ l z,
    Linked card.bat.getNextBlock e.firstBlock.toNat l z ∧ l.map card.dataBlock? = data.map some

/-- `GetSaveData` stays on the card, and has all the blocks if it succeeds. -/
def SaveDataOnCard (index : ℕ) : Prop :=
  ∀ blocks, ∃ ret blocks', card.getSaveData index blocks = some (ret, blocks') ∧
    (ret = .success → ∃ h : index < dirLen, ∃ data, blocks' = blocks ++ data ∧
      card.IsData (card.directory.dirEntries ⟨index, h⟩) data)

/-- `ExportFile` stays on the card, and has all the blocks if it succeeds. -/
def ExportOnCard (index : ℕ) : Prop :=
  ∃ ret, card.exportFile index = some ret ∧ ∀ savefile ∈ ret, ∃ h : index < dirLen,
    savefile.dirEntry = card.directory.dirEntries ⟨index, h⟩ ∧
      card.IsData savefile.dirEntry savefile.blocks

end Card

section OnCard

variable {index : ℕ} {blocks blocks' : List GCMBlock}

theorem dentry_eq (h : Accepted card) (hindex : index < dirLen) :
    card.dentryFirstBlock index =
        (if card.sizeBlocks < (card.directory.dirEntries ⟨index, hindex⟩).firstBlock.toNat then noBlock
          else (card.directory.dirEntries ⟨index, hindex⟩).firstBlock.toNat) ∧
      card.dentryBlockCount index =
        if card.sizeBlocks < (card.directory.dirEntries ⟨index, hindex⟩).blockCount.toNat then noBlock
          else (card.directory.dirEntries ⟨index, hindex⟩).blockCount.toNat := by
  have hmod : card.sizeBlocks % 2 ^ 16 = card.sizeBlocks :=
    Nat.mod_eq_of_lt (h.size_bounds.2.trans_lt (by decide))
  unfold Card.dentryFirstBlock Card.dentryBlockCount
  rw [dif_pos ⟨h.valid, hindex⟩, dif_pos ⟨h.valid, hindex⟩, hmod]
  exact ⟨rfl, rfl⟩

theorem getSaveData_of_refuses (h : Accepted card) (hindex : index < dirLen)
    (hrefuses : card.Refuses (card.directory.dirEntries ⟨index, hindex⟩)) :
    card.getSaveData index blocks = some (.fail, blocks) := by
  obtain ⟨hfirst, hcount⟩ := dentry_eq h hindex
  have hvalid : ¬card.valid = false := by simp [h.valid]
  rw [Card.getSaveData, if_neg hvalid]
  refine if_pos (hrefuses.imp (fun hlt => ?_) fun hlt => ?_)
  · rw [hfirst, if_pos hlt]
  · rw [hcount, if_pos hlt]

theorem getSaveData_of_not_refuses (h : Accepted card) (hindex : index < dirLen)
    (hfound : ¬card.Refuses (card.directory.dirEntries ⟨index, hindex⟩)) :
    card.getSaveData index blocks =
      card.copyBlocks (card.directory.dirEntries ⟨index, hindex⟩).blockCount.toNat
        (card.directory.dirEntries ⟨index, hindex⟩).firstBlock.toNat blocks := by
  obtain ⟨hfirst, hcount⟩ := dentry_eq h hindex
  have hvalid : ¬card.valid = false := by simp [h.valid]
  have hbounds := h.size_bounds
  have hno : noBlock = 65535 := rfl
  rw [Card.Refuses, not_or] at hfound
  rw [if_neg hfound.1] at hfirst
  rw [if_neg hfound.2] at hcount
  rw [Card.getSaveData, if_neg hvalid]
  dsimp only
  rw [hfirst, hcount, if_neg (by omega)]

theorem readable_iff (h : Accepted card) {block : ℕ} : card.Readable block ↔
    block = 0 ∨ block = noBlock ∨ mcFstBlocks ≤ block ∧ block < card.sizeBlocks := by
  have hbounds := h.size_bounds
  rw [Card.Readable, h.data, Nat.add_sub_cancel' hbounds.1]

theorem getSaveData_isSome_iff (h : Accepted card) (hindex : index < dirLen) :
    (card.getSaveData index blocks).isSome ↔
      card.Refuses (card.directory.dirEntries ⟨index, hindex⟩) ∨
        ∀ k < (card.directory.dirEntries ⟨index, hindex⟩).blockCount.toNat,
          card.Readable (card.blockAt (card.directory.dirEntries ⟨index, hindex⟩) k) := by
  by_cases hrefuses : card.Refuses (card.directory.dirEntries ⟨index, hindex⟩)
  · rw [getSaveData_of_refuses h hindex hrefuses]
    exact iff_of_true rfl (Or.inl hrefuses)
  · rw [getSaveData_of_not_refuses h hindex hrefuses, Card.copyBlocks_isSome_iff]
    exact (or_iff_right hrefuses).symm

/-- **What is copied is the whole file.** -/
theorem getSaveData_success (h : Accepted card) (hindex : index < dirLen)
    (hdata : card.getSaveData index blocks = some (.success, blocks')) :
    ∃ data, blocks' = blocks ++ data ∧
      card.IsData (card.directory.dirEntries ⟨index, hindex⟩) data := by
  by_cases hrefuses : card.Refuses (card.directory.dirEntries ⟨index, hindex⟩)
  · rw [getSaveData_of_refuses h hindex hrefuses] at hdata
    cases hdata
  · rw [getSaveData_of_not_refuses h hindex hrefuses] at hdata
    obtain ⟨l, z, data, hlinked, hlength, hmap, rfl⟩ := Card.copyBlocks_success hdata
    refine ⟨data, rfl, ?_, l, z, hlinked, hmap⟩
    have hcount := congrArg List.length hmap
    rwa [List.length_map, List.length_map, hlength, eq_comm] at hcount

theorem saveDataOnCard_iff (h : Accepted card) : card.SaveDataOnCard index ↔
    ∀ hindex : index < dirLen, card.Refuses (card.directory.dirEntries ⟨index, hindex⟩) ∨
      ∀ k < (card.directory.dirEntries ⟨index, hindex⟩).blockCount.toNat,
        card.Readable (card.blockAt (card.directory.dirEntries ⟨index, hindex⟩) k) := by
  constructor
  · intro hon hindex
    obtain ⟨ret, blocks', hdata, -⟩ := hon []
    exact (getSaveData_isSome_iff h hindex).mp (by rw [hdata]; rfl)
  · intro hread blocks
    by_cases hindex : index < dirLen
    · obtain ⟨⟨ret, blocks'⟩, hdata⟩ : ∃ r, card.getSaveData index blocks = some r :=
        Option.isSome_iff_exists.mp ((getSaveData_isSome_iff h hindex).mpr (hread hindex))
      refine ⟨ret, blocks', hdata, fun hret => ⟨hindex, ?_⟩⟩
      subst hret
      exact getSaveData_success h hindex hdata
    · have hfirst : card.dentryFirstBlock index = noBlock := dif_neg fun hi => hindex hi.2
      have hvalid : ¬card.valid = false := by simp [h.valid]
      refine ⟨.fail, blocks, ?_, fun hret => nomatch hret⟩
      rw [Card.getSaveData, if_neg hvalid]
      exact if_pos (Or.inl hfirst)

theorem blockAt_bounds (h : Accepted card) {i : Fin dirLen} (hi : (card.directory.dirEntries i).Used)
    {k : ℕ} (hk : k < (card.directory.dirEntries i).blockCount.toNat) :
    mcFstBlocks ≤ card.blockAt (card.directory.dirEntries i) k ∧
      card.blockAt (card.directory.dirEntries i) k ≤ 4091 ∧
      card.bat.map (card.blockAt (card.directory.dirEntries i) k) ≠ 0 := by
  obtain ⟨l, -, hlength, hlinked, hnext⟩ := chain_of_matches (h.files i hi)
  have hblock := hlinked.getElem?_eq (hlength.symm ▸ hk)
  exact bounds_of_getNextBlock (hnext _ (List.mem_of_getElem? hblock))

theorem exportOnCard_iff (h : Accepted card) : card.ExportOnCard index ↔
    ∀ hindex : index < dirLen, (card.directory.dirEntries ⟨index, hindex⟩).Used →
      card.Refuses (card.directory.dirEntries ⟨index, hindex⟩) ∨
        ∀ k < (card.directory.dirEntries ⟨index, hindex⟩).blockCount.toNat,
          card.blockAt (card.directory.dirEntries ⟨index, hindex⟩) k < card.sizeBlocks := by
  have hread : ∀ hindex : index < dirLen, (card.directory.dirEntries ⟨index, hindex⟩).Used →
      ((card.getSaveData index []).isSome ↔
        card.Refuses (card.directory.dirEntries ⟨index, hindex⟩) ∨
          ∀ k < (card.directory.dirEntries ⟨index, hindex⟩).blockCount.toNat,
            card.blockAt (card.directory.dirEntries ⟨index, hindex⟩) k < card.sizeBlocks) := by
    intro hindex hused
    rw [getSaveData_isSome_iff h hindex]
    refine or_congr_right (forall₂_congr fun k hk => ?_)
    have hbounds := blockAt_bounds h hused hk
    have hfst : mcFstBlocks = 5 := rfl
    have hno : noBlock = 65535 := rfl
    rw [readable_iff h]
    omega
  constructor
  · intro hon hindex hused
    rw [← hread hindex hused]
    obtain ⟨ret, hexport, -⟩ := hon
    have hdata := Card.exportFile_data h.valid hindex hused
    rw [hexport, Option.map_some, eq_comm] at hdata
    obtain ⟨r, hr, -⟩ := Option.map_eq_some_iff.mp hdata
    rw [hr]
    rfl
  · intro hblocks
    by_cases hfile : ∃ hindex : index < dirLen, (card.directory.dirEntries ⟨index, hindex⟩).Used
    · obtain ⟨hindex, hused⟩ := hfile
      obtain ⟨⟨ret, data⟩, hdata⟩ :=
        Option.isSome_iff_exists.mp ((hread hindex hused).mpr (hblocks hindex hused))
      have hexport := Card.exportFile_data h.valid hindex hused
      rw [hdata, Option.map_some] at hexport
      obtain ⟨r, hr, hsavefile⟩ := Option.map_eq_some_iff.mp hexport
      refine ⟨r, hr, fun savefile hmem => ⟨hindex, ?_⟩⟩
      rw [Option.mem_def.mp hmem, Option.map_some, eq_comm, Option.ite_none_right_eq_some] at hsavefile
      obtain ⟨hret, heq⟩ := hsavefile
      obtain ⟨hentry, hcopied⟩ := Prod.mk.inj (Option.some_inj.mp heq)
      dsimp only at hret hcopied
      subst hret
      obtain ⟨data', rfl, hisData⟩ := getSaveData_success h hindex hdata
      rw [← hentry, ← hcopied]
      exact ⟨rfl, hisData⟩
    · push Not at hfile
      exact ⟨none, Card.exportFile_unused hfile, fun _ hmem => nomatch hmem⟩

/-- **Which files are read on the card.** A card that is opened is read outside its data iff a block of
the file lies behind it or, for an entry that is not in use, before its data. -/
theorem export_on_card_iff (h : image.open' = (errors, some card)) (index : ℕ) :
    (card.SaveDataOnCard index ↔
      ∀ hindex : index < dirLen, card.Refuses (card.directory.dirEntries ⟨index, hindex⟩) ∨
        ∀ k < (card.directory.dirEntries ⟨index, hindex⟩).blockCount.toNat,
          card.blockAt (card.directory.dirEntries ⟨index, hindex⟩) k = 0 ∨
          card.blockAt (card.directory.dirEntries ⟨index, hindex⟩) k = noBlock ∨
          mcFstBlocks ≤ card.blockAt (card.directory.dirEntries ⟨index, hindex⟩) k ∧
            card.blockAt (card.directory.dirEntries ⟨index, hindex⟩) k < card.sizeBlocks) ∧
    (card.ExportOnCard index ↔
      ∀ hindex : index < dirLen, (card.directory.dirEntries ⟨index, hindex⟩).Used →
        card.Refuses (card.directory.dirEntries ⟨index, hindex⟩) ∨
          ∀ k < (card.directory.dirEntries ⟨index, hindex⟩).blockCount.toNat,
            card.blockAt (card.directory.dirEntries ⟨index, hindex⟩) k < card.sizeBlocks) := by
  have haccepted := accepted_of_open h
  refine ⟨?_, exportOnCard_iff haccepted⟩
  simp only [← readable_iff haccepted]
  exact saveDataOnCard_iff haccepted

/-- **Every file is read on the card** if nothing is said to lie behind it. -/
theorem exports_of_no_data_in_unused_area (h : image.open' = (errors, some card))
    (hunused : ¬errors.test .dataInUnusedArea) (index : ℕ) : card.ExportOnCard index := by
  have haccepted := accepted_of_open h
  refine (exportOnCard_iff haccepted).mpr fun hindex hused => Or.inr fun k hk => ?_
  obtain ⟨hlow, hhigh, hmap⟩ := blockAt_bounds haccepted hused hk
  obtain ⟨hmegabits, -, image', hdata, rfl, hblocks, -⟩ := open_cases h
  have hcheck : ¬test (image'.batErrors image'.card.activeBat) .dataInUnusedArea := fun htest =>
    hunused (hblocks _ (test_blockErrors htest))
  have hsame : image'.megabits = image.megabits := by
    unfold Image.megabits
    rw [hdata]
  rw [← hsame] at hmegabits
  have hmod : (BitVec.ofNat 16 image'.megabits).toNat = image'.megabits := by
    have hbounds := megabits_bounds _ hmegabits
    rw [BitVec.toNat_ofNat]
    omega
  rw [Image.batErrors] at hcheck
  have hfree := map_of_check (by rwa [hmod]) hcheck
  rw [hmod] at hfree
  by_contra hge
  have hzero := hfree _ (not_lt.mp hge) (hhigh.trans_lt (by decide))
  exact hmap hzero

end OnCard

/-! ## A file behind the card -/

/-- The blocks of a card of 4 Mbit with a directory and a BAT. -/
def sampleImage (d : Directory) (bat : BlockAlloc) : Image where
  headerBlock := .formatted (initializeHeaderData (List.replicate 12 0) 4 false 0 0 0)
  directoryBlocks := fun _ => d
  batBlocks := fun _ => bat
  dataBlocks := List.replicate 59 .erased

/-- A file of one block, which would be the next one after the last block of the card. -/
def behindEntry : DEntry :=
  { DEntry.erased with gamecode := 0x47414D45, firstBlock := 64, blockCount := 1 }

def behindDirectory : Directory :=
  { Directory.empty with
    dirEntries := Function.update (fun _ => .erased) ⟨0, by decide⟩ behindEntry }

def behindBat : BlockAlloc := { BlockAlloc.formatted 4 with map := Function.update (fun _ => 0) 64 0xFFFF }

theorem sampleImage_megabits (d : Directory) (bat : BlockAlloc) : (sampleImage d bat).megabits = 4 := by
  have hlength : (sampleImage d bat).dataBlocks.length = 59 := List.length_replicate
  rw [Image.megabits, hlength]
  decide

theorem open_sampleImage {d : Directory} {bat : BlockAlloc} {e : ErrorCode}
    (hd : d.checkForErrors = ∅) (hbat : bat.checkForErrors (BitVec.ofNat 16 4) = e)
    (he : ¬e.hasCriticalErrors) (hfiles : d.checkForErrorsWithBat bat = ∅) :
    (sampleImage d bat).open' = (e, some (sampleImage d bat).card) := by
  have hheader : (sampleImage d bat).headerBlock.checkForErrors (BitVec.ofNat 16 4) = ∅ :=
    Header.checkForErrors_eq ⟨rfl, fun _ hw => List.eq_of_mem_replicate hw,
      fun _ hw => List.eq_of_mem_replicate hw⟩ (Header.checked_formatted _)
  have hdirectory : ∀ k, (sampleImage d bat).directoryErrors k = ∅ := fun _ => hd
  have hbats : ∀ k, (sampleImage d bat).batErrors k = e := fun k => by
    rw [Image.batErrors, sampleImage_megabits]
    exact hbat
  have hcorrupted : ¬(sampleImage d bat).numberOfCorruptedBlocks > 1 := by
    simp [Image.numberOfCorruptedBlocks, hdirectory, hbats, he]
  have hrepaired : (sampleImage d bat).repaired = sampleImage d bat := by
    have hsound : ∀ k, ¬((sampleImage d bat).directoryErrors k).hasCriticalErrors := fun k => by
      rw [hdirectory]
      exact not_hasCriticalErrors_empty
    have hsoundBat : ∀ k, ¬((sampleImage d bat).batErrors k).hasCriticalErrors := fun k => by
      rw [hbats]
      exact he
    rw [Image.repaired, repair_sound hsound, repair_sound hsoundBat]
  have hagrees : (sampleImage d bat).card.directory.checkForErrorsWithBat
      (sampleImage d bat).card.bat = ∅ := hfiles
  have hblocks : (sampleImage d bat).blockErrors = e := by
    simp [Image.blockErrors, hdirectory, hbats]
  rw [Image.open', sampleImage_megabits, if_neg (by decide)]
  simp only [hheader, not_hasCriticalErrors_empty, if_false, if_neg hcorrupted, hrepaired, hblocks,
    hagrees, Finset.empty_union, Finset.union_empty, if_neg he]

theorem behindBat_checkForErrors :
    behindBat.fixChecksums.checkForErrors (BitVec.ofNat 16 4) = {.dataInUnusedArea} := by
  have hin : 0 < (BitVec.ofNat 16 4).toNat ∧ (BitVec.ofNat 16 4).toNat ≤ 256 := by decide
  have hsum : ¬behindBat.fixChecksums.calculateChecksums ≠
      (behindBat.fixChecksums.checksum, behindBat.fixChecksums.checksumInv) :=
    not_not.mpr (BlockAlloc.checked_fixChecksums behindBat)
  have hmap : behindBat.fixChecksums.map = Function.update (fun _ => 0) 64 0xFFFF := by
    rw [fixChecksums_map, behindBat]
  have hfree : behindBat.fixChecksums.freeBlocks = 59 := by
    rw [fixChecksums_freeBlocks, behindBat, BlockAlloc.formatted, fixChecksums_freeBlocks]
    decide
  have hmatch : ¬(BitVec.ofNat 16 4).toNat * mbitToBlocks - mcFstBlocks -
      (List.range' mcFstBlocks ((BitVec.ofNat 16 4).toNat * mbitToBlocks - mcFstBlocks)).countP
        (fun i => behindBat.fixChecksums.map i ≠ 0) ≠
      behindBat.fixChecksums.freeBlocks.toNat := by
    rw [hmap, hfree]
    decide
  have hunused : ∃ i ∈ List.range'
      (mcFstBlocks + ((BitVec.ofNat 16 4).toNat * mbitToBlocks - mcFstBlocks))
      (batSize - ((BitVec.ofNat 16 4).toNat * mbitToBlocks - mcFstBlocks)),
      behindBat.fixChecksums.map i ≠ 0 := by
    refine ⟨64, List.mem_range'_1.mpr (by decide), ?_⟩
    rw [hmap]
    decide
  have hissue : issue (∃ i ∈ List.range'
      (mcFstBlocks + ((BitVec.ofNat 16 4).toNat * mbitToBlocks - mcFstBlocks))
      (batSize - ((BitVec.ofNat 16 4).toNat * mbitToBlocks - mcFstBlocks)),
      behindBat.fixChecksums.map i ≠ 0) .dataInUnusedArea = {.dataInUnusedArea} := if_pos hunused
  simp only [BlockAlloc.checkForErrors, if_pos hin, issue_neg hsum, issue_neg hmatch, hissue,
    Finset.empty_union]

theorem behindDirectory_dirEntries : behindDirectory.fixChecksums.dirEntries =
    Function.update (fun _ => .erased) ⟨0, by decide⟩ behindEntry := by
  rw [Directory.fixChecksums, behindDirectory]

theorem behindDirectory_checkForErrorsWithBat :
    behindDirectory.fixChecksums.checkForErrorsWithBat behindBat.fixChecksums = ∅ := by
  have hnext : behindBat.fixChecksums.getNextBlock 64 = noBlock := by
    rw [getNextBlock_congr (b := behindBat) (congrFun (fixChecksums_map behindBat) 64)]
    decide
  rw [Directory.checkForErrorsWithBat, issue_neg]
  rintro ⟨i, hi, hmatches⟩
  rw [behindDirectory_dirEntries] at hi hmatches
  by_cases hzero : i = ⟨0, by decide⟩
  · rw [hzero, Function.update_self] at hmatches
    have hcount : behindEntry.blockCount.toNat = 1 := rfl
    have hfirst : behindEntry.firstBlock.toNat = 64 := rfl
    rw [hcount, hfirst, Directory.batBlockCountMatches, hnext] at hmatches
    exact absurd hmatches (by decide)
  · rw [Function.update_of_ne hzero] at hi
    exact hi rfl

theorem open_behind : (sampleImage behindDirectory.fixChecksums behindBat.fixChecksums).open' =
    ({.dataInUnusedArea},
      some (sampleImage behindDirectory.fixChecksums behindBat.fixChecksums).card) := by
  refine open_sampleImage ?_ behindBat_checkForErrors (by decide)
    behindDirectory_checkForErrorsWithBat
  refine Directory.checkForErrors_eq (Directory.checked_fixChecksums _) fun w hw => ?_
  rw [Directory.fixChecksums, behindDirectory] at hw
  exact List.eq_of_mem_replicate hw

/-- **A card is opened and a file of it is read behind its data.** -/
theorem opened_card_read_behind :
    ∃ image errors card, Image.open' image = (errors, some card) ∧ ¬card.ExportOnCard 0 := by
  refine ⟨_, _, _, open_behind, fun hon => ?_⟩
  have hsize : (sampleImage behindDirectory.fixChecksums behindBat.fixChecksums).card.sizeBlocks =
      64 := by
    change (sampleImage _ _).megabits * mbitToBlocks = 64
    rw [sampleImage_megabits]
    rfl
  have hentry : (sampleImage behindDirectory.fixChecksums
      behindBat.fixChecksums).card.directory.dirEntries ⟨0, by decide⟩ = behindEntry := by
    change behindDirectory.fixChecksums.dirEntries _ = _
    rw [behindDirectory_dirEntries, Function.update_self]
  have hblocks := (exportOnCard_iff (accepted_of_open open_behind)).mp hon (by decide)
  rw [hentry, Card.Refuses, hsize] at hblocks
  obtain hrefuses | hread := hblocks (by decide)
  · exact absurd hrefuses (by decide)
  · have hlt := hread 0 (by decide)
    exact absurd hlt (by decide)

/-- A card with a file of two blocks. -/
theorem export_on_card_iff_imported :
    ∃ image errors card, Image.open' image = (errors, some card) ∧ card.SaveDataOnCard 0 ∧
      card.ExportOnCard 0 ∧ (card.exportFile 0).map (Option.map fun f => f.blocks.length) =
        some (some 2) := by
  have hinv : Inv (Card.format (List.replicate 12 0) 4 false 0 0 0) := inv_format _ _ _ _ _ (by decide)
  have hsound : (Operation.importFile (sample 2)).Sound := by
    refine ⟨iff_of_false (by decide) (not_not.mpr (by decide)), ?_⟩
    have hnone : psoOffset (sample 2).dirEntry = none := by decide
    rw [hnone]
    exact fun h => absurd h (by decide)
  obtain ⟨ret, card, himport, hcard⟩ := hinv.importFile hsound
  have hvalues : ((Card.format (List.replicate 12 0) 4 false 0 0 0).importFile (sample 2)).map (fun r =>
      let e := r.2.save.card.directory.dirEntries ⟨0, by decide⟩
      (e.blockCount, r.2.save.card.blockAt e 0, r.2.save.card.blockAt e 1, r.2.save.card.sizeBlocks,
        (r.2.save.card.exportFile 0).map (Option.map fun f => f.blocks.length))) =
      some (2, 5, 6, 64, some (some 2)) := by
    decide +kernel
  rw [himport, Option.map_some] at hvalues
  simp only [Option.some_inj, Prod.mk.injEq] at hvalues
  obtain ⟨hcount, hfirst, hsecond, hsize, hexported⟩ := hvalues
  have hblock : ∀ k < (card.save.card.directory.dirEntries ⟨0, by decide⟩).blockCount.toNat,
      mcFstBlocks ≤ card.save.card.blockAt (card.save.card.directory.dirEntries ⟨0, by decide⟩) k ∧
        card.save.card.blockAt (card.save.card.directory.dirEntries ⟨0, by decide⟩) k <
          card.save.card.sizeBlocks := by
    intro k hk
    rw [hcount] at hk
    rw [hsize]
    have htwo : k < 2 := hk
    obtain rfl | rfl : k = 0 ∨ k = 1 := by omega
    · rw [hfirst]
      decide
    · rw [hsecond]
      decide
  have hiff := export_on_card_iff (open_save hcard) 0
  exact ⟨_, _, _, open_save hcard,
    hiff.1.mpr fun _ => Or.inr fun k hk => Or.inr (Or.inr (hblock k hk)),
    hiff.2.mpr fun _ _ => Or.inr fun k hk => (hblock k hk).2, hexported⟩
end GCMemcard
