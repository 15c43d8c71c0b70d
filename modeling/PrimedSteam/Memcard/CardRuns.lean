import PrimedSteam.Memcard.Agreement

/-!
# Runs of a memory card

* `Inv`: the two copies of the directory and of the BAT are pairs that agree, with right checksums.
* `Inv.importFile`, `Inv.removeFile`: every operation keeps it.
* `open_save`: a card that is saved is accepted again.
* `consistent_of_run`: what holds after every sequence of imports and removals.
-/

set_option autoImplicit false

namespace GCMemcard

open Memcard (Byte GCMBlock mcFstBlocks)
open BlockAlloc Card

/-! ## Checksums and checks of a single block -/

theorem issue_neg {p : Prop} [Decidable p] {code : ValidityIssue} (h : ¬p) : issue p code = ∅ :=
  if_neg h

@[simp] theorem not_hasCriticalErrors_empty : ¬ErrorCode.hasCriticalErrors ∅ := by
  simp [ErrorCode.hasCriticalErrors]

theorem sum_replicate_ffff (n : ℕ) : (List.replicate n (0xFFFF : Word)).sum = -BitVec.ofNat 16 n := by
  induction n with
  | zero => rfl
  | succ n ih =>
    rw [List.replicate_succ, List.sum_cons, ih]
    bv_omega

theorem sum_replicate_zero (n : ℕ) : (List.replicate n (0 : Word)).sum = 0 := by
  induction n with
  | zero => rfl
  | succ n ih => rw [List.replicate_succ, List.sum_cons, ih]; rfl

theorem words_erased : DEntry.erased.words = List.replicate 32 0xFFFF := by
  decide

theorem flatMap_replicate_erased (n : ℕ) :
    (List.replicate n DEntry.erased).flatMap DEntry.words = List.replicate (32 * n) 0xFFFF := by
  induction n with
  | zero => rfl
  | succ n ih =>
    rw [List.replicate_succ, List.flatMap_cons, ih, words_erased, List.replicate_append_replicate,
      Nat.mul_succ, Nat.add_comm]

theorem words_empty : Directory.empty.words = List.replicate 4093 0xFFFF ++ [0] := by
  have hentries : List.ofFn Directory.empty.dirEntries = List.replicate dirLen .erased :=
    List.ofFn_const ..
  rw [Directory.words, hentries, flatMap_replicate_erased]
  have hpadding : Directory.empty.padding = List.replicate 29 0xFFFF := rfl
  have hcounter : Directory.empty.updateCounter = 0 := rfl
  rw [hpadding, hcounter, List.replicate_append_replicate]
  rfl

theorem calculateChecksums_empty :
    Directory.empty.calculateChecksums = (Directory.empty.checksum, Directory.empty.checksumInv) := by
  have hsum : (List.replicate 4093 (0xFFFF : Word) ++ [0]).sum = 0xF003 := by
    rw [List.sum_append, sum_replicate_ffff]
    decide
  have hinv : ((List.replicate 4093 (0xFFFF : Word) ++ [0]).map (· ^^^ 0xFFFF)).sum = 0xFFFF := by
    have hzero : (0xFFFF : Word) ^^^ 0xFFFF = 0 := by decide
    rw [List.map_append, List.sum_append, List.map_replicate, hzero, sum_replicate_zero]
    decide
  rw [Directory.calculateChecksums, calculateMemcardChecksums, words_empty, hsum, hinv]
  decide

/-- The checksums of a block are those that are computed. -/
def Directory.Checked (d : Directory) : Prop := d.calculateChecksums = (d.checksum, d.checksumInv)

def BlockAlloc.Checked (b : BlockAlloc) : Prop := b.calculateChecksums = (b.checksum, b.checksumInv)

def Header.Checked (h : Header) : Prop := h.calculateChecksums = (h.checksum, h.checksumInv)

theorem Directory.checked_set (d : Directory) {sums : Word × Word} (h : d.calculateChecksums = sums) :
    { d with checksum := sums.1, checksumInv := sums.2 : Directory }.Checked := h

theorem Directory.checked_fixChecksums (d : Directory) : d.fixChecksums.Checked :=
  d.checked_set rfl

theorem BlockAlloc.checked_set (b : BlockAlloc) {sums : Word × Word} (h : b.calculateChecksums = sums) :
    { b with checksum := sums.1, checksumInv := sums.2 : BlockAlloc }.Checked := h

theorem BlockAlloc.checked_fixChecksums (b : BlockAlloc) : b.fixChecksums.Checked :=
  b.checked_set rfl

theorem Header.checked_fixChecksums (h : Header) : h.fixChecksums.Checked := by
  unfold Header.Checked Header.fixChecksums
  simp only [Header.calculateChecksums]

theorem Directory.checked_empty : Directory.empty.Checked := calculateChecksums_empty

theorem BlockAlloc.checked_formatted (sizeMbits : Word) : (BlockAlloc.formatted sizeMbits).Checked :=
  BlockAlloc.checked_fixChecksums _

theorem Header.checked_formatted (data : HeaderData) : (Header.formatted data).Checked :=
  Header.checked_fixChecksums _

/-- A header of a card of `sizeMb` megabits whose unused bytes are all 0xFF. -/
structure Header.Formatted (h : Header) (sizeMb : Word) : Prop where
  size : h.data.sizeMb = sizeMb
  unused1 : ∀ w ∈ h.unused1, w = 0xFFFF
  unused2 : ∀ w ∈ h.unused2, w = 0xFFFF

theorem Header.checkForErrors_eq {h : Header} {sizeMb : Word} (hf : h.Formatted sizeMb)
    (hc : h.Checked) : h.checkForErrors sizeMb = ∅ := by
  have hunused : ¬((∃ w ∈ h.unused1, w ≠ 0xFFFF) ∨ ∃ w ∈ h.unused2, w ≠ 0xFFFF) := by
    rintro (⟨w, hw, hne⟩ | ⟨w, hw, hne⟩)
    · exact hne (hf.unused1 w hw)
    · exact hne (hf.unused2 w hw)
  have hsum : ¬h.calculateChecksums ≠ (h.checksum, h.checksumInv) := not_not.mpr hc
  rw [Header.checkForErrors, issue_neg (not_not.mpr hf.size), issue_neg hunused, issue_neg hsum]
  rfl

theorem Directory.checkForErrors_eq {d : Directory} (hc : d.Checked)
    (hpadding : ∀ w ∈ d.padding, w = 0xFFFF) : d.checkForErrors = ∅ := by
  have hunused : ¬∃ w ∈ d.padding, w ≠ 0xFFFF := fun ⟨w, hw, hne⟩ => hne (hpadding w hw)
  have hsum : ¬d.calculateChecksums ≠ (d.checksum, d.checksumInv) := not_not.mpr hc
  rw [Directory.checkForErrors, issue_neg hsum, issue_neg hunused]
  rfl

variable {size : ℕ} {entries : Fin dirLen → DEntry} {chain : Fin dirLen → List ℕ}

/-- The blocks of the card that are in use and those that are free. -/
theorem countP_used (bat : BlockAlloc) (hfst : mcFstBlocks ≤ size) :
    size - mcFstBlocks -
        (List.range' mcFstBlocks (size - mcFstBlocks)).countP (fun i => bat.map i ≠ 0) =
      (bat.free size).card := by
  have hcount := List.length_eq_countP_add_countP (fun i => decide (bat.map i = 0))
    (l := List.range' mcFstBlocks (size - mcFstBlocks))
  have hfree := countP_range' (fun i => bat.map i = 0) mcFstBlocks (size - mcFstBlocks)
  rw [Nat.add_sub_cancel' hfst] at hfree
  simp only [List.length_range', decide_eq_true_eq, ← ne_eq] at hcount
  rw [BlockAlloc.free, ← hfree]
  omega

/-- **A BAT that agrees with a directory passes its own check.** -/
theorem BlockAlloc.checkForErrors_eq {bat : BlockAlloc} {sizeMb : Word}
    (hvalid : sizeMb.toNat ∈ validMegabits) (hsize : size = sizeMb.toNat * mbitToBlocks)
    (h : Agree size entries bat chain) (hc : bat.Checked) : bat.checkForErrors sizeMb = ∅ := by
  have hbounds := megabits_bounds _ hvalid
  have hle : mcFstBlocks ≤ size := by
    have hblocks : size = sizeMb.toNat * 16 := hsize
    have hfst : mcFstBlocks = 5 := rfl
    omega
  have hunused : ¬∃ i ∈ List.range' (mcFstBlocks + (size - mcFstBlocks))
      (batSize - (size - mcFstBlocks)), bat.map i ≠ 0 := by
    rintro ⟨i, hi, hne⟩
    obtain ⟨j, hj⟩ := (h.used i).mp hne
    have hlt := (h.bounds j i hj).2
    rw [Nat.add_sub_cancel' hle] at hi
    exact absurd (List.mem_range'_1.mp hi).1 (by omega)
  have hmatch : ¬size - mcFstBlocks -
      (List.range' mcFstBlocks (size - mcFstBlocks)).countP (fun i => bat.map i ≠ 0) ≠
        bat.freeBlocks.toNat := not_not.mpr ((countP_used bat hle).trans h.freeBlocks.symm)
  have hsum : ¬bat.calculateChecksums ≠ (bat.checksum, bat.checksumInv) := not_not.mpr hc
  have hin : 0 < sizeMb.toNat ∧ sizeMb.toNat ≤ 256 := by omega
  simp only [BlockAlloc.checkForErrors, if_pos hin, ← hsize, issue_neg hsum, issue_neg hunused,
    issue_neg hmatch, Finset.empty_union]

/-! ## The invariant of a card -/

/-- A directory and a BAT that were written by the same operation. -/
structure Pair (size : ℕ) (d : Directory) (bat : BlockAlloc) : Prop where
  agree : ∃ chain, Agree size d.dirEntries bat chain
  updateCounter : d.updateCounter = bat.updateCounter
  padding : ∀ w ∈ d.padding, w = 0xFFFF

structure Inv (card : Card) : Prop where
  valid : card.valid = true
  megabits : card.sizeMb.toNat ∈ validMegabits
  size : card.sizeBlocks = card.sizeMb.toNat * mbitToBlocks
  data : card.dataBlocks.length = card.sizeBlocks - mcFstBlocks
  header : card.headerBlock.Formatted card.sizeMb
  active : card.activeBat = card.activeDirectory
  pair : ∀ k, Pair card.sizeBlocks (card.directoryBlocks k) (card.batBlocks k)
  headerSum : card.headerBlock.Checked
  directorySum : ∀ k, (card.directoryBlocks k).Checked
  batSum : ∀ k, (card.batBlocks k).Checked

theorem Pair.set {d : Directory} {bat : BlockAlloc} (h : Pair size d bat)
    (dirSum dirSumInv batSum batSumInv : Word) :
    Pair size { d with checksum := dirSum, checksumInv := dirSumInv }
      { bat with checksum := batSum, checksumInv := batSumInv } where
  agree := have ⟨chain, hagree⟩ := h.agree; ⟨chain, hagree.congr rfl rfl rfl⟩
  updateCounter := h.updateCounter
  padding := h.padding

theorem Pair.fixChecksums {d : Directory} {bat : BlockAlloc} (h : Pair size d bat) :
    Pair size d.fixChecksums bat.fixChecksums :=
  h.set d.calculateChecksums.1 d.calculateChecksums.2 bat.calculateChecksums.1
    bat.calculateChecksums.2

theorem pair_formatted {sizeMbits : Word} (hvalid : sizeMbits.toNat ∈ validMegabits) :
    Pair (sizeMbits.toNat * mbitToBlocks) .empty (.formatted sizeMbits) where
  agree := ⟨fun _ => [], agree_formatted hvalid⟩
  updateCounter := rfl
  padding _ hw := List.eq_of_mem_replicate hw

theorem inv_format (flashId : List Byte) {sizeMbits : Word} (shiftJis : Bool)
    (rtcBias sramLanguage : BitVec 32) (formatTime : BitVec 64)
    (hvalid : sizeMbits.toNat ∈ validMegabits) :
    Inv (Card.format flashId sizeMbits shiftJis rtcBias sramLanguage formatTime) where
  valid := rfl
  megabits := hvalid
  size := rfl
  data := List.length_replicate.trans (toNat_mbitToFreeBlocks hvalid)
  header := ⟨rfl, fun _ hw => List.eq_of_mem_replicate hw, fun _ hw => List.eq_of_mem_replicate hw⟩
  active := rfl
  pair _ := pair_formatted hvalid
  headerSum := Header.checked_formatted _
  directorySum _ := Directory.checked_empty
  batSum _ := BlockAlloc.checked_formatted sizeMbits

/-- A card after an operation: the older copies are overwritten, and all checksums are made right. -/
def Card.changed (card : Card) (d : Directory) (bat : BlockAlloc) (data : List GCMBlock) : Card :=
  ({ card.updateDirectory d with dataBlocks := data }.updateBat bat).fixChecksums

variable {card card' : Card}

theorem Inv.size_bounds (h : Inv card) : mcFstBlocks ≤ card.sizeBlocks ∧ card.sizeBlocks ≤ 2048 := by
  have hbounds := megabits_bounds _ h.megabits
  have hsize : card.sizeBlocks = card.sizeMb.toNat * 16 := h.size
  unfold mcFstBlocks
  omega

section

variable {d : Directory} {bat : BlockAlloc} {data : List GCMBlock}

theorem Directory.fixChecksums_dirEntries (d : Directory) : d.fixChecksums.dirEntries = d.dirEntries := by
  rw [Directory.fixChecksums]

theorem changed_eq (hvalid : card.valid = true) : card.changed d bat data =
    { card with
      headerBlock := card.headerBlock.fixChecksums
      directoryBlocks := fun k =>
        (Function.update card.directoryBlocks (inactive card.activeDirectory) d k).fixChecksums
      batBlocks := fun k =>
        (Function.update card.batBlocks (inactive card.activeBat) bat k).fixChecksums
      dataBlocks := data
      activeDirectory := inactive card.activeDirectory
      activeBat := inactive card.activeBat } :=
  if_pos hvalid

theorem changed_valid (hvalid : card.valid = true) : (card.changed d bat data).valid = true := by
  rw [changed_eq hvalid]
  exact hvalid

theorem changed_sizeBlocks (hvalid : card.valid = true) :
    (card.changed d bat data).sizeBlocks = card.sizeBlocks := by
  rw [changed_eq hvalid]

theorem changed_dataBlocks (hvalid : card.valid = true) :
    (card.changed d bat data).dataBlocks = data := by
  rw [changed_eq hvalid]

theorem changed_dirEntries (hvalid : card.valid = true) :
    (card.changed d bat data).directory.dirEntries = d.dirEntries := by
  rw [changed_eq hvalid, Card.directory]
  dsimp only
  rw [Function.update_self, Directory.fixChecksums_dirEntries]

theorem changed_bat (hvalid : card.valid = true) :
    (card.changed d bat data).bat = bat.fixChecksums := by
  rw [changed_eq hvalid, Card.bat]
  dsimp only
  rw [Function.update_self]

end

/-- **A pair that agrees may be written over the older one.** -/
theorem Inv.changed (h : Inv card) {d : Directory} {bat : BlockAlloc} {data : List GCMBlock}
    (hpair : Pair card.sizeBlocks d bat) (hdata : data.length = card.sizeBlocks - mcFstBlocks) :
    Inv (card.changed d bat data) := by
  rw [changed_eq h.valid]
  constructor
  case valid => exact h.valid
  case megabits => exact h.megabits
  case size => exact h.size
  case data => exact hdata
  case header => exact ⟨h.header.size, h.header.unused1, h.header.unused2⟩
  case active => exact congrArg inactive h.active
  case pair =>
    intro k
    refine Pair.fixChecksums ?_
    rw [h.active]
    by_cases hk : k = inactive card.activeDirectory
    · rw [hk, Function.update_self, Function.update_self]
      exact hpair
    · rw [Function.update_of_ne hk, Function.update_of_ne hk]
      exact h.pair k
  case headerSum => exact Header.checked_fixChecksums _
  case directorySum => exact fun k => Directory.checked_fixChecksums _
  case batSum => exact fun k => BlockAlloc.checked_fixChecksums _

theorem Inv.activePair (h : Inv card) : Pair card.sizeBlocks card.directory card.bat := by
  rw [Card.bat, h.active]
  exact h.pair card.activeDirectory

/-! ## A removal -/

/-- **A removal keeps the invariant.** -/
theorem Inv.removeFile (h : Inv card) (index : ℕ) :
    ∃ ret card', card.removeFile index = some (ret, card') ∧ Inv card' := by
  have hvalid : ¬card.valid = false := by simp [h.valid]
  rw [Card.removeFile, if_neg hvalid]
  by_cases hindex : index < dirLen
  swap
  · exact ⟨.deleteFail, card, by rw [dif_neg hindex], h⟩
  rw [dif_pos hindex]
  have hsize : card.sizeBlocks ≤ 4091 := h.size_bounds.2.trans (by decide)
  obtain ⟨chain, hagree⟩ := h.activePair.agree
  by_cases hused : (card.directory.dirEntries ⟨index, hindex⟩).Used
  swap
  · refine ⟨.deleteFail, card, ?_, h⟩
    simp [hagree.clearBlocks_removed hused hsize]
  let bat := Agree.cleared card.bat (chain ⟨index, hindex⟩)
  refine ⟨.success, card.changed (card.removedDirectory ⟨index, hindex⟩)
    { bat with updateCounter := bat.updateCounter + 1 } card.dataBlocks, ?_, ?_⟩
  · simp only [hagree.clearBlocks_used hused hsize, Option.map_some]
    rfl
  · refine h.changed ?_ h.data
    exact {
      agree := ⟨_, (hagree.remove hused hsize).congr rfl rfl rfl⟩
      updateCounter := congrArg (· + 1) h.activePair.updateCounter
      padding := h.activePair.padding }

/-! ## An import -/

@[simp] theorem length_patch (f : List GCMBlock) (block offset : ℕ) (bytes : List Byte) :
    (patch f block offset bytes).length = f.length :=
  List.length_modify ..

@[simp] theorem length_fzerogxMakeSaveGameValid (header : Header) (e : DEntry) (f : List GCMBlock) :
    (fzerogxMakeSaveGameValid header e f).length = f.length := by
  unfold fzerogxMakeSaveGameValid
  split_ifs
  · rfl
  · rfl
  · simp

theorem exists_psoMakeSaveGameValid (header : Header) (e : DEntry) {f : List GCMBlock}
    (h : (psoOffset e).isSome → 2 ≤ f.length) :
    ∃ f', psoMakeSaveGameValid header e f = some f' ∧ f'.length = f.length := by
  unfold psoMakeSaveGameValid
  cases hoffset : psoOffset e with
  | none => exact ⟨f, rfl, rfl⟩
  | some offset =>
    have hlength : ¬f.length < 2 := not_lt.mpr (h (by rw [hoffset]; rfl))
    simp [hlength]

theorem exists_free_entry (hvalid : card.valid = true) (h : card.getNumFiles < dirLen) :
    ∃ i, ((List.finRange dirLen).find? fun i => ¬(card.directory.dirEntries i).Used) = some i ∧
      ¬(card.directory.dirEntries i).Used := by
  cases hfind : (List.finRange dirLen).find? fun i => ¬(card.directory.dirEntries i).Used with
  | some i => exact ⟨i, rfl, by simpa using List.find?_some hfind⟩
  | none =>
    have hall := List.find?_eq_none.mp hfind
    have hcount : card.getNumFiles = (List.finRange dirLen).length := by
      rw [Card.getNumFiles, if_pos hvalid]
      exact List.countP_eq_length.mpr fun i hi => by simpa using hall i hi
    rw [hcount, List.length_finRange] at h
    exact absurd h (lt_irrefl dirLen)

theorem Savefile.blockCount_le (savefile : Savefile) :
    savefile.dirEntry.blockCount.toNat ≤ savefile.blocks.length := by
  rw [savefile.blockCount_eq, BitVec.toNat_ofNat]
  exact Nat.mod_le _ _

inductive Operation where
  | importFile (savefile : Savefile)
  | removeFile (index : ℕ)

namespace Operation

/-- The card after the operation. -/
def apply (card : Card) : Operation → Option Card
  | importFile savefile => (card.importFile savefile).map Prod.snd
  | removeFile index => (card.removeFile index).map Prod.snd

/-- An imported file has blocks, and a game code; a system file of Phantasy Star Online has a second
block. -/
def Sound : Operation → Prop
  | importFile savefile =>
    (savefile.dirEntry.blockCount = 0 ↔ ¬savefile.dirEntry.Used) ∧
      ((psoOffset savefile.dirEntry).isSome → 2 ≤ savefile.blocks.length)
  | removeFile _ => True

end Operation

theorem importBlocks_eq {savefile : Savefile} {first : ℕ} {blocks data : List GCMBlock}
    {bat : BlockAlloc}
    (hblocks : psoMakeSaveGameValid card.headerBlock savefile.dirEntry
      (fzerogxMakeSaveGameValid card.headerBlock savefile.dirEntry savefile.blocks) = some blocks)
    (hwrite : writeBlocks card.sizeBlocks savefile.dirEntry.blockCount.toNat blocks first
      (card.bat, card.dataBlocks) = some (bat, data)) :
    card.importBlocks savefile first =
      some (card.changed (card.importedDirectory savefile.dirEntry first)
        { bat with
          freeBlocks := bat.freeBlocks - BitVec.ofNat 16 savefile.dirEntry.blockCount.toNat
          updateCounter := bat.updateCounter + 1 } data) := by
  simp only [Card.importBlocks, hblocks, Option.bind_eq_bind, Option.bind_some, hwrite]
  rfl

theorem importedDirectory_dirEntries {e : DEntry} {first : ℕ} {i : Fin dirLen}
    (hfind : ((List.finRange dirLen).find? fun i => ¬(card.directory.dirEntries i).Used) = some i) :
    (card.importedDirectory e first).dirEntries =
      Function.update card.directory.dirEntries i (importedEntry e first) := by
  simp only [Card.importedDirectory, hfind]

/-- What an import writes: the blocks of the file, or none. -/
theorem exists_importBlocks (h : Inv card) {savefile : Savefile}
    (hsound : (Operation.importFile savefile).Sound)
    (hfiles : card.getNumFiles < dirLen)
    (hfree : savefile.dirEntry.blockCount.toNat ≤ card.bat.freeBlocks.toNat) {first : ℕ}
    (hfirst : first ∈ card.bat.free card.sizeBlocks) :
    ∃ card', card.importBlocks savefile first = some card' ∧ Inv card' := by
  have hbounds := h.size_bounds
  have hrange := (mem_free.mp hfirst).1
  have hpair := h.activePair
  obtain ⟨chain, hagree⟩ := hpair.agree
  obtain ⟨i, hfind, hi⟩ := exists_free_entry h.valid hfiles
  obtain ⟨blocks, hblocks, hlength⟩ := exists_psoMakeSaveGameValid card.headerBlock savefile.dirEntry
    (f := fzerogxMakeSaveGameValid card.headerBlock savefile.dirEntry savefile.blocks) (by
      rw [length_fzerogxMakeSaveGameValid]
      exact hsound.2)
  rw [length_fzerogxMakeSaveGameValid] at hlength
  have hle := savefile.blockCount_le
  have hentry : (importedEntry savefile.dirEntry first).firstBlock.toNat = first := by
    simp only [importedEntry, BitVec.toNat_ofNat]
    omega
  have hentries : (card.importedDirectory savefile.dirEntry first).dirEntries =
      Function.update card.directory.dirEntries i (importedEntry savefile.dirEntry first) :=
    importedDirectory_dirEntries hfind
  by_cases hcount : savefile.dirEntry.blockCount = 0
  · -- an entry without a block and without a game code
    have hzero : savefile.dirEntry.blockCount.toNat = 0 := by rw [hcount]; rfl
    refine ⟨_, importBlocks_eq hblocks (by rw [hzero]; rfl), h.changed ?_ h.data⟩
    have hremoved : Removed card.sizeBlocks (importedEntry savefile.dirEntry first) :=
      ⟨hsound.1.mp hcount, .inr ⟨hzero, by rw [hentry]; exact hrange⟩⟩
    exact {
      agree := by
        rw [hentries, hzero]
        exact ⟨chain, (hagree.add_empty hi hremoved).congr rfl (BitVec.sub_zero _) rfl⟩
      updateCounter := congrArg (· + 1) hpair.updateCounter
      padding := hpair.padding }
  · have hpos : 0 < savefile.dirEntry.blockCount.toNat := by
      refine Nat.pos_of_ne_zero fun hzero => hcount ?_
      exact BitVec.eq_of_toNat_eq hzero
    obtain ⟨n, hn⟩ := Nat.exists_eq_add_of_le' hpos
    have hcard := hagree.freeBlocks
    have hlast : n < blocks.length := by omega
    have hroom : n < (card.bat.free card.sizeBlocks).card := by omega
    obtain ⟨l, bat, data, hwrite, hallocated, hlen, hstored⟩ :=
      writeBlocks_allocated (by omega) hlast h.data hfirst hroom (by omega)
    rw [← hn] at hwrite
    refine ⟨_, importBlocks_eq hblocks hwrite, h.changed ?_ (hstored.length.trans h.data)⟩
    have hused : (importedEntry savefile.dirEntry first).Used := by
      by_contra hnot
      exact hcount (hsound.1.mpr hnot)
    rw [← hentry] at hallocated
    have hadd := hagree.add hi hused (List.ne_nil_of_length_pos (by omega)) (hlen.trans hn.symm)
      hallocated hfree
    exact {
      agree := by
        rw [hentries]
        refine ⟨_, hadd.congr rfl ?_ rfl⟩
        rw [BitVec.ofNat_toNat, BitVec.setWidth_eq]
        rfl
      updateCounter := by
        have hcounter := hallocated.updateCounter
        change card.directory.updateCounter + 1 = bat.updateCounter + 1
        rw [hcounter, hpair.updateCounter]
      padding := hpair.padding }

/-- **An import keeps the invariant.** -/
theorem Inv.importFile (h : Inv card) {savefile : Savefile}
    (hsound : (Operation.importFile savefile).Sound) :
    ∃ ret card', card.importFile savefile = some (ret, card') ∧ Inv card' := by
  have hbounds := h.size_bounds
  have hvalid : ¬card.valid = false := by simp [h.valid]
  have hmod : card.sizeBlocks % 2 ^ 16 = card.sizeBlocks := Nat.mod_eq_of_lt (by omega)
  rw [Card.importFile, if_neg hvalid]
  split
  · exact ⟨_, card, rfl, h⟩
  next hfiles =>
    split
    · exact ⟨_, card, rfl, h⟩
    next hfree =>
      split
      · exact ⟨_, card, rfl, h⟩
      · simp only [hmod]
        split
        · exact ⟨_, card, rfl, h⟩
        next hfirst =>
          obtain ⟨chain, hagree⟩ := h.activePair.agree
          have hmem := nextFreeBlock_mem hagree.last.le hbounds.1
            (hbounds.2.trans (by decide)) hfirst
          obtain ⟨card', hcard', hinv⟩ := exists_importBlocks h hsound (not_le.mp hfiles)
            (not_lt.mp hfree) hmem
          exact ⟨.success, card', by rw [hcard']; rfl, hinv⟩

/-! ## A saved card -/

theorem save_megabits (h : Inv card) : card.save.megabits = card.sizeMb.toNat := by
  have hbounds := h.size_bounds
  have hsize : card.sizeBlocks = card.sizeMb.toNat * 16 := h.size
  have hlength : card.save.dataBlocks.length = card.sizeBlocks - mcFstBlocks := by
    rw [Card.save, List.length_take, h.data, min_self]
  have hbytes : Memcard.blockSize * (mcFstBlocks + card.save.dataBlocks.length) =
      card.sizeMb.toNat * 131072 := by
    rw [hlength, Nat.add_sub_cancel' hbounds.1, hsize]
    unfold Memcard.blockSize
    omega
  simp only [Image.megabits, hbytes]
  rw [if_neg (by omega)]
  omega

theorem save_directoryErrors (h : Inv card) (k : Fin 2) : card.save.directoryErrors k = ∅ :=
  Directory.checkForErrors_eq (h.directorySum k) (h.pair k).padding

theorem save_batErrors (h : Inv card) (k : Fin 2) : card.save.batErrors k = ∅ := by
  obtain ⟨chain, hagree⟩ := (h.pair k).agree
  rw [Image.batErrors, save_megabits h, BitVec.ofNat_toNat, BitVec.setWidth_eq]
  exact BlockAlloc.checkForErrors_eq h.megabits h.size hagree (h.batSum k)

theorem repair_sound {α : Type} {bump : α → α} {corrupted : Fin 2 → Prop} [DecidablePred corrupted]
    {blocks : Fin 2 → α} (h : ∀ k, ¬corrupted k) : Image.repair bump corrupted blocks = blocks := by
  rw [Image.repair, if_neg (h 0), if_neg (h 1)]

theorem save_repaired (h : Inv card) : card.save.repaired = card.save := by
  have hdirectory : ∀ k, ¬(card.save.directoryErrors k).hasCriticalErrors := fun k => by
    rw [save_directoryErrors h]
    exact not_hasCriticalErrors_empty
  have hbat : ∀ k, ¬(card.save.batErrors k).hasCriticalErrors := fun k => by
    rw [save_batErrors h]
    exact not_hasCriticalErrors_empty
  rw [Image.repaired, repair_sound hdirectory, repair_sound hbat]

/-- The directory and the BAT that are chosen were written by the same operation. -/
theorem save_agrees (h : Inv card) :
    card.save.card.directory.checkForErrorsWithBat card.save.card.bat = ∅ := by
  have hsame : card.save.card.activeBat = card.save.card.activeDirectory :=
    congrArg Image.newer (funext fun k => (h.pair k).updateCounter.symm)
  rw [Card.bat, hsame]
  obtain ⟨chain, hagree⟩ := (h.pair card.save.card.activeDirectory).agree
  exact hagree.checkForErrorsWithBat (h.size_bounds.2.trans (by decide)) rfl

/-- **A saved card is accepted** without an error. -/
theorem open_save (h : Inv card) : card.save.open' = (∅, some card.save.card) := by
  have hheader : card.save.headerBlock.checkForErrors (BitVec.ofNat 16 card.sizeMb.toNat) = ∅ := by
    rw [BitVec.ofNat_toNat, BitVec.setWidth_eq]
    exact Header.checkForErrors_eq h.header h.headerSum
  have hcorrupted : ¬card.save.numberOfCorruptedBlocks > 1 := by
    simp [Image.numberOfCorruptedBlocks, save_directoryErrors h, save_batErrors h]
  have hblocks : card.save.blockErrors = ∅ := by
    simp [Image.blockErrors, save_directoryErrors h, save_batErrors h]
  rw [Image.open', save_megabits h, if_neg (not_not.mpr h.megabits)]
  simp only [hheader, not_hasCriticalErrors_empty, if_false, if_neg hcorrupted, save_repaired h,
    hblocks, save_agrees h, Finset.empty_union]

/-! ## What holds after every operation -/

/-- The blocks of the file at `i`, as they are read from the BAT. -/
def Card.fileChain (card : Card) (i : Fin dirLen) : List ℕ :=
  let e := card.directory.dirEntries i
  if e.Used then ((card.bat.chain e.firstBlock.toNat).map Prod.fst).getD [] else []

/-- The directory and the BAT in use tell the same, and the card can be saved and opened. -/
structure Consistent (card : Card) : Prop where
  checkForErrorsWithBat : card.directory.checkForErrorsWithBat card.bat = ∅
  freeBlocks : card.bat.freeBlocks.toNat =
    (List.range' mcFstBlocks (card.sizeBlocks - mcFstBlocks)).countP fun i => card.bat.map i = 0
  disjoint : ∀ i j, i ≠ j → (card.fileChain i).Disjoint (card.fileChain j)
  bounds : ∀ i, ∀ block ∈ card.fileChain i, mcFstBlocks ≤ block ∧ block < card.sizeBlocks
  used : ∀ block ∈ List.range' mcFstBlocks batSize, card.bat.map block ≠ 0 →
    ∃! i, block ∈ card.fileChain i
  headerSum : card.headerBlock.Checked
  directorySum : ∀ k, (card.directoryBlocks k).Checked
  batSum : ∀ k, (card.batBlocks k).Checked
  accepted : card.save.open'.2.isSome

theorem Agree.fileChain_eq {chain : Fin dirLen → List ℕ}
    (h : Agree card.sizeBlocks card.directory.dirEntries card.bat chain)
    (hsize : card.sizeBlocks ≤ 4091) (i : Fin dirLen) : card.fileChain i = chain i := by
  unfold Card.fileChain
  by_cases hi : (card.directory.dirEntries i).Used
  · have hchain := h.chain_suffix hsize List.suffix_rfl (h.file i hi).2.2
    simp [hi, hchain]
  · simp [hi, (h.removed i hi).2]

theorem Inv.consistent (h : Inv card) : Consistent card := by
  have hsize : card.sizeBlocks ≤ 4091 := h.size_bounds.2.trans (by decide)
  obtain ⟨chain, hagree⟩ := h.activePair.agree
  have hchain := hagree.fileChain_eq hsize
  constructor
  case checkForErrorsWithBat => exact hagree.checkForErrorsWithBat hsize rfl
  case freeBlocks =>
    have hcount := countP_range' (fun i => card.bat.map i = 0) mcFstBlocks
      (card.sizeBlocks - mcFstBlocks)
    rw [Nat.add_sub_cancel' h.size_bounds.1] at hcount
    exact hagree.freeBlocks.trans hcount.symm
  case disjoint =>
    intro i j hij
    rw [hchain, hchain]
    exact hagree.disjoint i j hij
  case bounds =>
    intro i block hblock
    rw [hchain] at hblock
    exact hagree.bounds i block hblock
  case used =>
    intro block _ hne
    obtain ⟨i, hi⟩ := (hagree.used block).mp hne
    simp only [hchain]
    refine ⟨i, hi, fun j hj => ?_⟩
    by_contra hji
    exact hagree.disjoint j i hji hj hi
  case headerSum => exact h.headerSum
  case directorySum => exact h.directorySum
  case batSum => exact h.batSum
  case accepted => rw [open_save h]; rfl

/-- Every sound operation returns, and keeps the invariant. -/
theorem Inv.apply (h : Inv card) {op : Operation} (hsound : op.Sound) :
    ∃ card', op.apply card = some card' ∧ Inv card' := by
  cases op with
  | importFile savefile =>
    obtain ⟨ret, card', heq, hinv⟩ := h.importFile hsound
    exact ⟨card', by rw [Operation.apply, heq]; rfl, hinv⟩
  | removeFile index =>
    obtain ⟨ret, card', heq, hinv⟩ := h.removeFile index
    exact ⟨card', by rw [Operation.apply, heq]; rfl, hinv⟩

/-- **The directory and the BAT stay consistent.** On a card of one of the sizes that are accepted,
every sequence of removals and sound imports returns and leaves a consistent card. -/
theorem consistent_of_run (flashId : List Byte) (sizeMbits : Word) (shiftJis : Bool)
    (rtcBias sramLanguage : BitVec 32) (formatTime : BitVec 64) (ops : List Operation)
    (hvalid : sizeMbits.toNat ∈ validMegabits) (hsound : ∀ op ∈ ops, op.Sound) :
    ∃ card, ops.foldlM Operation.apply
        (Card.format flashId sizeMbits shiftJis rtcBias sramLanguage formatTime) = some card ∧
      Consistent card := by
  obtain ⟨card, hrun, hinv⟩ := Transition.foldlM_total
    (fun card op hop (h : Inv card) => h.apply (hsound op hop))
    (inv_format flashId shiftJis rtcBias sramLanguage formatTime hvalid)
  exact ⟨card, hrun, hinv.consistent⟩

/-- A savefile with `n` blocks. -/
def sample (n : Word) : Savefile where
  dirEntry := { DEntry.erased with gamecode := 0x47414D45, blockCount := n }
  blocks := List.replicate n.toNat .erased
  blockCount_eq := by rw [List.length_replicate, BitVec.ofNat_toNat, BitVec.setWidth_eq]

/-- A card of 4 Mbit on which a file of one block is imported and removed. -/
theorem consistent_of_run_sample :
    ∃ card, [Operation.importFile (sample 1), .removeFile 0].foldlM Operation.apply
        (Card.format (List.replicate 12 0) 4 false 0 0 0) = some card ∧ Consistent card := by
  refine consistent_of_run (List.replicate 12 0) 4 false 0 0 0
    [.importFile (sample 1), .removeFile 0] (by decide) ?_
  refine List.forall_mem_cons.mpr ⟨⟨?_, ?_⟩, List.forall_mem_singleton.mpr trivial⟩
  · exact iff_of_false (by decide) (not_not.mpr (by decide))
  · have hnone : psoOffset (sample 1).dirEntry = none := by decide
    rw [hnone]
    exact fun h => absurd h (by decide)

theorem checkForErrorsWithBat_of_empty {d : Directory} {bat : BlockAlloc} {i : Fin dirLen}
    (hused : (d.dirEntries i).Used) (hempty : (d.dirEntries i).blockCount = 0) :
    d.checkForErrorsWithBat bat ≠ ∅ := by
  have hbad : ∃ i, (d.dirEntries i).Used ∧ Directory.batBlockCountMatches bat
      (d.dirEntries i).blockCount.toNat (d.dirEntries i).firstBlock.toNat = false :=
    ⟨i, hused, by rw [hempty]; rfl⟩
  rw [Directory.checkForErrorsWithBat, issue, if_pos hbad]
  exact Finset.singleton_ne_empty _

/-- The import of a savefile without blocks succeeds and leaves an entry without a chain. -/
theorem empty_import_inconsistent :
    ¬∀ (flashId : List Byte) (sizeMbits : Word) (shiftJis : Bool) (rtcBias sramLanguage : BitVec 32)
      (formatTime : BitVec 64) (ops : List Operation), sizeMbits.toNat ∈ validMegabits →
        ∃ card, ops.foldlM Operation.apply
            (Card.format flashId sizeMbits shiftJis rtcBias sramLanguage formatTime) = some card ∧
          Consistent card := by
  intro hall
  obtain ⟨card, hrun, hconsistent⟩ :=
    hall (List.replicate 12 0) 4 false 0 0 0 [.importFile (sample 0)] (by decide)
  have hentry : ([Operation.importFile (sample 0)].foldlM Operation.apply
      (Card.format (List.replicate 12 0) 4 false 0 0 0)).map (fun card =>
        decide ((card.directory.dirEntries ⟨0, by decide⟩).Used ∧
          (card.directory.dirEntries ⟨0, by decide⟩).blockCount = 0)) = some true := by
    decide +kernel
  rw [hrun, Option.map_some, Option.some_inj, decide_eq_true_eq] at hentry
  exact checkForErrorsWithBat_of_empty hentry.1 hentry.2 hconsistent.checkForErrorsWithBat

end GCMemcard
