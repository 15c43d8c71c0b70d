import PrimedSteam.Memcard.ExportFile

/-!
# A file that is imported, exported and removed

* `Accepted.imported`: an import keeps what `Open` makes sure of.
* `RoundTrip`: the new file is exported as it was imported, the other files are exported as before,
  and a removal of the new file gives its blocks back.
* **`round_trip_iff`**: an import that succeeds promises this iff the savefile has a game code and
  fewer than 65536 blocks.
-/

set_option autoImplicit false

namespace GCMemcard

open Memcard (GCMBlock mcFstBlocks)
open Successors BlockAlloc

namespace BlockAlloc

variable {b : BlockAlloc} {size start : ℕ}

theorem nextFreeBlock_mem_free (hfst : mcFstBlocks ≤ size) (hsize : size ≤ batSize + mcFstBlocks)
    (hfree : (b.free size).Nonempty) (h : b.nextFreeBlock size start ≠ noBlock) :
    b.nextFreeBlock size start ∈ b.free size := by
  rcases Nat.lt_or_ge size start with hbehind | hle
  · obtain ⟨block, hblock⟩ := hfree
    have hblock := mem_free.mp hblock
    have hsearched : searched size start = List.range' mcFstBlocks
        (min start (batSize + mcFstBlocks) - mcFstBlocks) := by
      have hclamp : max mcFstBlocks (min start (batSize + mcFstBlocks)) =
        min start (batSize + mcFstBlocks) := by omega
      have hnone : max mcFstBlocks (min size (batSize + mcFstBlocks)) -
        min start (batSize + mcFstBlocks) = 0 := by omega
      simp only [searched, hclamp, hnone, List.range'_zero, List.nil_append]
    simp only [nextFreeBlock, hsearched] at h ⊢
    split at h
    next hcount =>
      rw [if_pos hcount]
      cases hfind : (List.range' mcFstBlocks (min start (batSize + mcFstBlocks) - mcFstBlocks)).find?
          fun i => b.map i = 0 with
      | none =>
        rw [hfind] at h
        exact absurd rfl h
      | some i =>
        -- the first one is not after the free block of the card
        obtain ⟨hzero, hmem, hfirst⟩ := List.find?_range'_eq_some.mp hfind
        have hle : i ≤ block := by
          by_contra hlt
          have hnot := hfirst block hblock.1.1 (not_le.mp hlt)
          simp [hblock.2] at hnot
        have hrange := List.mem_range'_1.mp hmem
        rw [Option.getD_some, mem_free]
        exact ⟨⟨hrange.1, hle.trans_lt hblock.1.2⟩, by simpa using hzero⟩
    next => exact absurd rfl h
  · exact nextFreeBlock_mem hle hfst hsize h

end BlockAlloc

/-! ## The import -/

/-- The first place in the directory that is free, which an import takes. -/
def Card.newIndex (card : Card) : Option (Fin dirLen) :=
  (List.finRange dirLen).find? fun i => ¬(card.directory.dirEntries i).Used

/-- What an import has done: the file is in the blocks `l` from `first` on, and has the entry `i`. -/
structure Imported (card card' : Card) (savefile : Savefile) (i : Fin dirLen) (first : ℕ)
    (l : List ℕ) : Prop where
  valid : card'.valid = true
  size : card'.sizeBlocks = card.sizeBlocks
  entries : card'.directory.dirEntries =
    Function.update card.directory.dirEntries i (Card.importedEntry savefile.dirEntry first)
  first_lt : first < 2 ^ 16
  linked : Linked card'.bat.getNextBlock first l noBlock
  nodup : l.Nodup
  length : l.length = savefile.dirEntry.blockCount.toNat
  free : ∀ block ∈ l, block ∈ card.bat.free card.sizeBlocks
  used : ∀ block ∈ l, card'.bat.map block ≠ 0
  map : ∀ block ∉ l, card'.bat.map block = card.bat.map block
  freeBlocks : card'.bat.freeBlocks = card.bat.freeBlocks - savefile.dirEntry.blockCount
  room : savefile.dirEntry.blockCount.toNat ≤ card.bat.freeBlocks.toNat
  stored : Stored l savefile.blocks card.dataBlocks card'.dataBlocks

/-- A system file, whose blocks an import changes. -/
def DEntry.IsSystemFile (e : DEntry) : Prop :=
  e.named "f_zero.dat".toList = true ∨ (psoOffset e).isSome

section

variable {card card' : Card} {savefile : Savefile} {i : Fin dirLen} {first : ℕ} {l : List ℕ}

theorem blocks_unchanged (h : ¬savefile.dirEntry.IsSystemFile) :
    psoMakeSaveGameValid card.headerBlock savefile.dirEntry
      (fzerogxMakeSaveGameValid card.headerBlock savefile.dirEntry savefile.blocks) =
        some savefile.blocks := by
  rw [DEntry.IsSystemFile, not_or, Bool.not_eq_true, Option.not_isSome_iff_eq_none] at h
  rw [fzerogxMakeSaveGameValid, if_pos h.1, psoMakeSaveGameValid, h.2]

/-- **An import of a file with blocks** from a free block on. -/
theorem importBlocks_imported (h : Accepted card) (hcount : savefile.dirEntry.blockCount ≠ 0)
    (hsystem : ¬savefile.dirEntry.IsSystemFile) (hindex : card.newIndex = some i)
    (hroom : savefile.dirEntry.blockCount.toNat ≤ card.bat.freeBlocks.toNat)
    (hfirst : first ∈ card.bat.free card.sizeBlocks) :
    ∃ card' l, card.importBlocks savefile first = some card' ∧ Imported card card' savefile i first l := by
  have hbounds := h.size_bounds
  have hrange := (mem_free.mp hfirst).1
  have hle := savefile.blockCount_le
  have hpos : 0 < savefile.dirEntry.blockCount.toNat :=
    Nat.pos_of_ne_zero fun hzero => hcount (BitVec.eq_of_toNat_eq hzero)
  obtain ⟨n, hn⟩ := Nat.exists_eq_add_of_le' hpos
  have hcard := h.freeBlocks
  obtain ⟨l, bat, data, hwrite, hallocated, hlength, hstored⟩ :=
    writeBlocks_allocated (by omega) (by omega : n < savefile.blocks.length) h.data hfirst (by omega)
      (by omega)
  rw [← hn] at hwrite hlength
  refine ⟨_, l, importBlocks_eq (blocks_unchanged hsystem) hwrite, ?_⟩
  constructor
  case valid => exact changed_valid h.valid
  case size => exact changed_sizeBlocks h.valid
  case entries => rw [changed_dirEntries h.valid, importedDirectory_dirEntries hindex]
  case first_lt => omega
  case linked =>
    rw [changed_bat h.valid]
    exact hallocated.linked.congr fun block _ => getNextBlock_congr (by rw [fixChecksums_map])
  case nodup => exact hallocated.nodup
  case length => exact hlength
  case free => exact hallocated.free
  case used =>
    rw [changed_bat h.valid, fixChecksums_map]
    exact hallocated.used
  case map =>
    rw [changed_bat h.valid, fixChecksums_map]
    exact hallocated.frame
  case freeBlocks =>
    rw [changed_bat h.valid, fixChecksums_freeBlocks, BitVec.ofNat_toNat, BitVec.setWidth_eq]
    simp only [hallocated.freeBlocks]
  case room => exact hroom
  case stored =>
    rw [changed_dataBlocks h.valid]
    exact hstored

theorem importFile_imported (h : Accepted card) (hcount : savefile.dirEntry.blockCount ≠ 0)
    (hsystem : ¬savefile.dirEntry.IsSystemFile)
    (himport : card.importFile savefile = some (.success, card')) :
    ∃ i first l, card.newIndex = some i ∧ Imported card card' savefile i first l := by
  have hvalid : ¬card.valid = false := by simp [h.valid]
  have hbounds := h.size_bounds
  have hmod : card.sizeBlocks % 2 ^ 16 = card.sizeBlocks := Nat.mod_eq_of_lt (by omega)
  rw [Card.importFile, if_neg hvalid] at himport
  split at himport
  · cases himport
  next hfiles =>
    split at himport
    · cases himport
    next hroom =>
      split at himport
      · cases himport
      · simp only [hmod] at himport
        split at himport
        · cases himport
        next hfound =>
          obtain ⟨i, hindex, -⟩ := exists_free_entry h.valid (not_le.mp hfiles)
          have hpos : 0 < savefile.dirEntry.blockCount.toNat :=
            Nat.pos_of_ne_zero fun hzero => hcount (BitVec.eq_of_toNat_eq hzero)
          have hcard := h.freeBlocks
          have hfree : (card.bat.free card.sizeBlocks).Nonempty := Finset.card_pos.mp (by omega)
          have hfirst := nextFreeBlock_mem_free hbounds.1 (hbounds.2.trans (by decide)) hfree hfound
          obtain ⟨card₁, l, heq, himported⟩ :=
            importBlocks_imported h hcount hsystem hindex (not_lt.mp hroom) hfirst
          rw [heq] at himport
          obtain rfl : card₁ = card' := (Prod.mk.inj (Option.some_inj.mp himport)).2
          exact ⟨i, _, l, hindex, himported⟩

namespace Imported

theorem not_mem (h : Imported card card' savefile i first l) {block : ℕ}
    (hmap : card.bat.map block ≠ 0) : block ∉ l :=
  fun hmem => hmap (mem_free.mp (h.free block hmem)).2

theorem getNextBlock_eq (h : Imported card card' savefile i first l) {block : ℕ}
    (hnext : card.bat.getNextBlock block ≠ 0) :
    card'.bat.getNextBlock block = card.bat.getNextBlock block :=
  getNextBlock_congr (h.map block (h.not_mem (bounds_of_getNextBlock hnext).2.2))

theorem dataBlock?_eq (h : Imported card card' savefile i first l) {block : ℕ}
    (hnext : card.bat.getNextBlock block ≠ 0) : card'.dataBlock? block = card.dataBlock? block := by
  obtain ⟨hfst, -, hmap⟩ := bounds_of_getNextBlock hnext
  unfold Card.dataBlock?
  rw [if_neg (not_lt.mpr hfst), if_neg (not_lt.mpr hfst)]
  exact h.stored.frame block hfst (h.not_mem hmap)

theorem entry_self (h : Imported card card' savefile i first l) :
    card'.directory.dirEntries i = Card.importedEntry savefile.dirEntry first := by
  rw [h.entries, Function.update_self]

theorem entry_of_ne (h : Imported card card' savefile i first l) {j : Fin dirLen} (hj : j ≠ i) :
    card'.directory.dirEntries j = card.directory.dirEntries j := by
  rw [h.entries, Function.update_of_ne hj]

theorem firstBlock_eq (h : Imported card card' savefile i first l) :
    (Card.importedEntry savefile.dirEntry first).firstBlock.toNat = first := by
  rw [Card.importedEntry, BitVec.toNat_ofNat, Nat.mod_eq_of_lt h.first_lt]

theorem free_eq (h : Imported card card' savefile i first l) :
    card'.bat.free card.sizeBlocks = card.bat.free card.sizeBlocks \ l.toFinset := by
  ext block
  rw [Finset.mem_sdiff, List.mem_toFinset, mem_free, mem_free]
  by_cases hmem : block ∈ l
  · exact iff_of_false (fun hfree => h.used block hmem hfree.2) fun hfree => hfree.2 hmem
  · rw [h.map block hmem]
    exact (and_iff_left hmem).symm

/-- **An import keeps what `Open` makes sure of.** -/
theorem accepted (himported : Imported card card' savefile i first l) (h : Accepted card)
    (hcount : savefile.dirEntry.blockCount ≠ 0) : Accepted card' := by
  have hbounds := h.size_bounds
  constructor
  case valid => exact himported.valid
  case size => rw [himported.size]; exact h.size
  case data => rw [himported.stored.length, himported.size]; exact h.data
  case freeBlocks =>
    have hsubset : l.toFinset ⊆ card.bat.free card.sizeBlocks := fun block hblock =>
      himported.free block (List.mem_toFinset.mp hblock)
    rw [himported.size, himported.free_eq, Finset.card_sdiff_of_subset hsubset,
      List.toFinset_card_of_nodup himported.nodup, himported.length, himported.freeBlocks,
      BitVec.toNat_sub_of_le himported.room, h.freeBlocks]
  case files =>
    intro j hj
    by_cases hji : j = i
    · subst hji
      rw [himported.entry_self, himported.firstBlock_eq]
      have hne : l ≠ [] := by
        rintro rfl
        exact hcount (BitVec.eq_of_toNat_eq himported.length.symm)
      have hmatches := Agree.batBlockCountMatches_of_linked himported.linked hne fun block hblock => by
        have hrange := (mem_free.mp (himported.free block hblock)).1
        unfold noBlock mcFstBlocks at *
        omega
      rwa [himported.length] at hmatches
    · rw [himported.entry_of_ne hji] at hj ⊢
      obtain ⟨l', hne, hlength, hlinked, hnext⟩ := chain_of_matches (h.files j hj)
      have hlinked' : Linked card'.bat.getNextBlock (card.directory.dirEntries j).firstBlock.toNat l'
          noBlock := hlinked.congr fun block hblock => himported.getNextBlock_eq (hnext block hblock)
      have hmatches := Agree.batBlockCountMatches_of_linked hlinked' hne fun block hblock => by
        have hrange := bounds_of_getNextBlock (hnext block hblock)
        unfold noBlock mcFstBlocks at *
        omega
      rwa [hlength] at hmatches

end Imported

end

/-! ## The export -/

section Export

variable {card card' : Card} {n a z index : ℕ} {l : List ℕ} {blocks : List GCMBlock}

theorem copyBlocks_of_linked {data : List GCMBlock} (hlinked : Linked card.bat.getNextBlock a l z)
    (hlength : l.length = n) (hstop : ∀ block ∈ l, ¬(block = 0 ∨ block = noBlock))
    (hdata : l.map card.dataBlock? = data.map some) :
    card.copyBlocks n a blocks = some (.success, blocks ++ data) := by
  induction l generalizing n a blocks data with
  | nil =>
    obtain rfl : data = [] := by simpa using hdata.symm
    subst hlength
    rw [List.append_nil]
    rfl
  | cons block l ih =>
    obtain ⟨rfl, hlinked⟩ := hlinked
    subst hlength
    cases data with
    | nil => cases hdata
    | cons first data =>
      rw [List.map_cons, List.map_cons, List.cons.injEq] at hdata
      rw [List.length_cons, Card.copyBlocks, if_neg (hstop a List.mem_cons_self), hdata.1,
        Option.bind_some, ih hlinked rfl (fun b hb => hstop b (List.mem_cons_of_mem a hb)) hdata.2,
        List.append_assoc, List.singleton_append]

theorem copyBlocks_congr (hlinked : Linked card.bat.getNextBlock a l z) (hlength : l.length = n)
    (hnext : ∀ block ∈ l, card'.bat.getNextBlock block = card.bat.getNextBlock block)
    (hdata : ∀ block ∈ l, card'.dataBlock? block = card.dataBlock? block) :
    card'.copyBlocks n a blocks = card.copyBlocks n a blocks := by
  induction l generalizing n a blocks with
  | nil =>
    subst hlength
    rfl
  | cons block l ih =>
    obtain ⟨rfl, hlinked⟩ := hlinked
    subst hlength
    rw [List.length_cons, Card.copyBlocks, Card.copyBlocks, hnext a List.mem_cons_self,
      hdata a List.mem_cons_self]
    refine if_congr Iff.rfl rfl (congrArg _ (funext fun block => ?_))
    exact ih hlinked rfl (fun b hb => hnext b (List.mem_cons_of_mem a hb))
      fun b hb => hdata b (List.mem_cons_of_mem a hb)

theorem Savefile.eq_of_data {file file' : Savefile}
    (h : (file.dirEntry, file.blocks) = (file'.dirEntry, file'.blocks)) : file = file' := by
  obtain ⟨hentry, hblocks⟩ := Prod.mk.inj h
  cases file
  cases file'
  subst hentry hblocks
  rfl

theorem exportFile_congr (hvalid : card.valid = true) (hvalid' : card'.valid = true)
    (hentry : ∀ hindex : index < dirLen, card'.directory.dirEntries ⟨index, hindex⟩ =
      card.directory.dirEntries ⟨index, hindex⟩)
    (hdata : ∀ hindex : index < dirLen, (card.directory.dirEntries ⟨index, hindex⟩).Used →
      card'.getSaveData index [] = card.getSaveData index []) :
    card'.exportFile index = card.exportFile index := by
  by_cases hused : ∃ hindex : index < dirLen, (card.directory.dirEntries ⟨index, hindex⟩).Used
  · obtain ⟨hindex, hused⟩ := hused
    have hexport := Card.exportFile_data hvalid hindex hused
    have hexport' := Card.exportFile_data hvalid' hindex ((hentry hindex).symm ▸ hused)
    rw [hentry hindex, hdata hindex hused, ← hexport] at hexport'
    exact Option.map_injective (Option.map_injective fun _ _ => Savefile.eq_of_data) hexport'
  · push Not at hused
    rw [Card.exportFile_unused hused, Card.exportFile_unused]
    intro hindex
    rw [hentry hindex]
    exact hused hindex

end Export

/-- The new file is exported as it was imported, the other files as before, and a removal of the new
file gives its blocks back. -/
structure RoundTrip (card card' : Card) (savefile : Savefile) (i : Fin dirLen) : Prop where
  exported : ∃ file firstBlock, card'.exportFile i = some (some file) ∧
    file.blocks = savefile.blocks ∧
    file.dirEntry = { savefile.dirEntry with
      firstBlock := firstBlock
      copyCounter := savefile.dirEntry.copyCounter + 1 }
  others : ∀ j ≠ i.val, card'.exportFile j = card.exportFile j
  removed : ∃ card'', card'.removeFile i = some (.success, card'') ∧
    card''.bat.free card''.sizeBlocks = card.bat.free card.sizeBlocks

section

variable {card card' : Card} {savefile : Savefile} {i : Fin dirLen} {first : ℕ} {l : List ℕ}

/-- **The other files are exported as before.** -/
theorem Imported.exportFile_of_ne (himported : Imported card card' savefile i first l)
    (h : Accepted card) (h' : Accepted card') {j : ℕ} (hj : j ≠ i.val) :
    card'.exportFile j = card.exportFile j := by
  have hentry : ∀ hindex : j < dirLen, card'.directory.dirEntries ⟨j, hindex⟩ =
      card.directory.dirEntries ⟨j, hindex⟩ := fun hindex =>
    himported.entry_of_ne fun heq => hj (congrArg Fin.val heq)
  refine exportFile_congr h.valid h'.valid hentry fun hindex hused => ?_
  have hrefuses : card'.Refuses (card.directory.dirEntries ⟨j, hindex⟩) ↔
      card.Refuses (card.directory.dirEntries ⟨j, hindex⟩) := by
    rw [Card.Refuses, Card.Refuses, himported.size]
  by_cases hfound : card.Refuses (card.directory.dirEntries ⟨j, hindex⟩)
  · rw [getSaveData_of_refuses h hindex hfound, getSaveData_of_refuses h' hindex]
    rw [hentry hindex]
    exact hrefuses.mpr hfound
  · rw [getSaveData_of_not_refuses h hindex hfound, getSaveData_of_not_refuses h' hindex]
    · rw [hentry hindex]
      obtain ⟨l', -, hlength, hlinked, hnext⟩ := chain_of_matches (h.files _ hused)
      exact copyBlocks_congr hlinked hlength
        (fun block hblock => himported.getNextBlock_eq (hnext block hblock))
        fun block hblock => himported.dataBlock?_eq (hnext block hblock)
    · rw [hentry hindex]
      exact fun hrefused => hfound (hrefuses.mp hrefused)

/-- **The new file is read from its blocks.** -/
theorem Imported.getSaveData_self (himported : Imported card card' savefile i first l)
    (h : Accepted card) (h' : Accepted card') (hcount : savefile.dirEntry.blockCount ≠ 0) :
    card'.getSaveData i [] =
      some (.success, savefile.blocks.take savefile.dirEntry.blockCount.toNat) := by
  have hbounds := h.size_bounds
  have hcard := h.freeBlocks
  have hle : (card.bat.free card.sizeBlocks).card ≤ card.sizeBlocks := Agree.card_free_le
  have hroom := himported.room
  have hblock : ∀ block ∈ l, (mcFstBlocks ≤ block ∧ block < card.sizeBlocks) := fun block hmem =>
    (mem_free.mp (himported.free block hmem)).1
  have hfirst : first ∈ l := by
    cases l with
    | nil => exact absurd (BitVec.eq_of_toNat_eq himported.length.symm) hcount
    | cons b l => exact himported.linked.1 ▸ List.mem_cons_self
  have hfound : ¬card'.Refuses (card'.directory.dirEntries i) := by
    rw [himported.entry_self, Card.Refuses, himported.firstBlock_eq, himported.size, not_or]
    have hcount' : (Card.importedEntry savefile.dirEntry first).blockCount =
      savefile.dirEntry.blockCount := rfl
    rw [hcount']
    exact ⟨not_lt.mpr (hblock first hfirst).2.le, not_lt.mpr (by omega)⟩
  rw [getSaveData_of_not_refuses h' i.isLt hfound, himported.entry_self, himported.firstBlock_eq]
  refine copyBlocks_of_linked himported.linked himported.length (fun block hmem => ?_) ?_
  · have hrange := hblock block hmem
    unfold noBlock mcFstBlocks at *
    omega
  · rw [← himported.length, ← himported.stored.stored]
    refine List.map_congr_left fun block hmem => ?_
    rw [Card.dataBlock?, if_neg (not_lt.mpr (hblock block hmem).1)]

/-- **A removal of the new file** leaves the map as it was before the import. -/
theorem Imported.removeFile (himported : Imported card card' savefile i first l)
    (h : Accepted card) :
    ∃ card'', card'.removeFile i = some (.success, card'') ∧
      card''.bat.free card''.sizeBlocks = card.bat.free card.sizeBlocks := by
  have hbounds := h.size_bounds
  have hvalid : ¬card'.valid = false := by simp [himported.valid]
  have hsubset : l.toFinset ⊆ card.bat.free card.sizeBlocks := fun block hblock =>
    himported.free block (List.mem_toFinset.mp hblock)
  have hlength : l.length ≤ batSize + 1 := by
    have hcard := (Finset.card_le_card hsubset).trans Agree.card_free_le
    rw [List.toFinset_card_of_nodup himported.nodup] at hcard
    unfold batSize
    omega
  have hchain : card'.bat.chain first = some (l, noBlock) := by
    refine walk_of_linked himported.linked (.inl rfl) (fun block hblock => ?_) hlength
    have hrange := (mem_free.mp (himported.free block hblock)).1
    unfold noBlock mcFstBlocks at *
    omega
  have hclear : card'.bat.clearBlocks first savefile.dirEntry.blockCount.toNat =
      some (true, Agree.cleared card'.bat l) := by
    have hpos : noBlock > 0 := by decide
    simp only [clearBlocks, hchain, Option.map_some, if_pos hpos, himported.length, ne_eq, not_true,
      if_false, Agree.cleared]
  have hentry := himported.entry_self
  have hcount : (card'.directory.dirEntries i).blockCount = savefile.dirEntry.blockCount := by
    rw [hentry]
    rfl
  have hfirst : (card'.directory.dirEntries i).firstBlock.toNat = first := by
    rw [hentry, himported.firstBlock_eq]
  refine ⟨card'.changed (card'.removedDirectory i) { Agree.cleared card'.bat l with
    updateCounter := (Agree.cleared card'.bat l).updateCounter + 1 } card'.dataBlocks, ?_, ?_⟩
  · rw [Card.removeFile, if_neg hvalid, dif_pos i.isLt]
    simp only [Fin.eta, hfirst, hcount, hclear, Option.map_some, if_true]
    rfl
  · rw [changed_bat himported.valid, changed_sizeBlocks himported.valid, himported.size,
      free_congr (fixChecksums_map _)]
    ext block
    rw [mem_free, mem_free]
    refine and_congr_right fun _ => ?_
    by_cases hmem : block ∈ l
    · have hzero := (mem_free.mp (himported.free block hmem)).2
      simp [Agree.cleared, hmem, hzero]
    · simp only [Agree.cleared_map hmem, himported.map block hmem]

/-- **What an import promises.** On a card that `Open` accepts, the file that is imported can be
exported again, the other files are exported as before and a removal gives the blocks back, iff the
savefile has a game code and its blocks are counted by 16 bits. -/
theorem round_trip_iff (h : Accepted card) (hcount : savefile.dirEntry.blockCount ≠ 0)
    (hsystem : ¬savefile.dirEntry.IsSystemFile)
    (himport : card.importFile savefile = some (.success, card')) :
    ∃ i, card.newIndex = some i ∧
      (RoundTrip card card' savefile i ↔
        savefile.dirEntry.Used ∧ savefile.blocks.length < 2 ^ 16) := by
  obtain ⟨i, first, l, hindex, himported⟩ := importFile_imported h hcount hsystem himport
  have h' := himported.accepted h hcount
  have hdata := himported.getSaveData_self h h' hcount
  refine ⟨i, hindex, fun hround => ?_, fun ⟨hused, hlength⟩ => ?_⟩
  · obtain ⟨file, firstBlock, hexport, hblocks, -⟩ := hround.exported
    have hused : (card'.directory.dirEntries i).Used := by
      by_contra hnot
      rw [Card.exportFile_unused fun _ => hnot] at hexport
      cases hexport
    have hread := Card.exportFile_data h'.valid i.isLt hused
    rw [hexport, hdata, Option.map_some, Option.map_some, Option.map_some, Option.some_inj, if_pos rfl,
      Option.some_inj, Prod.mk.injEq, hblocks] at hread
    rw [himported.entry_self] at hused
    refine ⟨hused, ?_⟩
    have hlength := congrArg List.length hread.2
    rw [List.length_take] at hlength
    have hcounted := savefile.dirEntry.blockCount.isLt
    omega
  · have hused' : (card'.directory.dirEntries i).Used := by
      rw [himported.entry_self]
      exact hused
    have hwhole : savefile.dirEntry.blockCount.toNat = savefile.blocks.length := by
      rw [savefile.blockCount_eq, BitVec.toNat_ofNat, Nat.mod_eq_of_lt hlength]
    have hread := Card.exportFile_data h'.valid i.isLt hused'
    rw [hdata, Option.map_some, if_pos rfl, hwhole, List.take_length, himported.entry_self] at hread
    obtain ⟨exported, hexport, hfile⟩ := Option.map_eq_some_iff.mp hread
    obtain ⟨file, rfl, heq⟩ := Option.map_eq_some_iff.mp hfile
    obtain ⟨hentry, hblocks⟩ := Prod.mk.inj heq
    exact {
      exported := ⟨file, BitVec.ofNat 16 first, hexport, hblocks, hentry⟩
      others := fun j hj => himported.exportFile_of_ne h h' hj
      removed := himported.removeFile h }

end

/-! ## Cards and savefiles -/

theorem Inv.accepted {card : Card} (h : Inv card) : Accepted card := by
  have hbounds := h.size_bounds
  obtain ⟨chain, hagree⟩ := h.activePair.agree
  constructor
  case valid => exact h.valid
  case size => exact ⟨_, h.megabits, h.size⟩
  case data => exact h.data
  case freeBlocks => exact hagree.freeBlocks
  case files =>
    intro i hi
    obtain ⟨hne, hlength, hlinked⟩ := hagree.file i hi
    rw [← hlength]
    exact Agree.batBlockCountMatches_of_linked hlinked hne fun _ hblock =>
      hagree.size_bound (by omega) hblock

/-- A new card of 4 Mbit. -/
def newCard : Card := .format (List.replicate 12 0) 4 false 0 0 0

theorem newCard_accepted : Accepted newCard :=
  (inv_format (List.replicate 12 0) false 0 0 0 (by decide)).accepted

theorem not_isSystemFile_erased (gamecode : BitVec 32) (makercode blockCount : Word) :
    ¬DEntry.IsSystemFile { DEntry.erased with gamecode, makercode, blockCount } := by
  have h : ¬DEntry.IsSystemFile .erased := by
    rw [DEntry.IsSystemFile]
    decide
  exact h

theorem round_trip_iff_sample :
    ∃ card', newCard.importFile (sample 1) = some (.success, card') ∧
      ∃ i, newCard.newIndex = some i ∧
        (RoundTrip newCard card' (sample 1) i ↔
          (sample 1).dirEntry.Used ∧ (sample 1).blocks.length < 2 ^ 16) := by
  have hret : (newCard.importFile (sample 1)).map Prod.fst = some .success := by decide +kernel
  obtain ⟨⟨ret, card'⟩, himport, rfl⟩ := Option.map_eq_some_iff.mp hret
  exact ⟨card', himport, round_trip_iff newCard_accepted (by decide)
    (not_isSystemFile_erased 0x47414D45 0xFFFF 1) himport⟩

/-- A savefile of one block with the game code of a free entry. -/
def unnamedSample : Savefile where
  dirEntry := { DEntry.erased with gamecode := 0xFFFFFFFF, makercode := 0x3031, blockCount := 1 }
  blocks := [.erased]
  blockCount_eq := rfl

theorem import_without_gamecode :
    ¬∀ (card card' : Card) (savefile : Savefile), Accepted card →
      savefile.dirEntry.blockCount ≠ 0 → ¬savefile.dirEntry.IsSystemFile →
        card.importFile savefile = some (.success, card') →
          ∃ i, card.newIndex = some i ∧ RoundTrip card card' savefile i := by
  intro hall
  have hret : (newCard.importFile unnamedSample).map (fun r =>
      (r.1, decide (∀ i, ¬(r.2.directory.dirEntries i).Used))) = some (.success, true) := by
    decide +kernel
  obtain ⟨⟨ret, card'⟩, himport, heq⟩ := Option.map_eq_some_iff.mp hret
  obtain ⟨rfl, hunused⟩ := Prod.mk.inj heq
  rw [decide_eq_true_eq] at hunused
  obtain ⟨i, -, hround⟩ := hall newCard card' unnamedSample newCard_accepted (by decide)
    (not_isSystemFile_erased 0xFFFFFFFF 0x3031 1) himport
  obtain ⟨file, firstBlock, hexport, -⟩ := hround.exported
  rw [Card.exportFile_unused fun _ => hunused _] at hexport
  cases hexport

end GCMemcard
