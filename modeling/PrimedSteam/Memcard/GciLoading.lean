import PrimedSteam.Memcard.SystemFiles

/-!
# Loading `.gci` files into a card

A fresh `GCMemcardDirectory` gives each file that it loads the blocks after those of the file before.

* `assignBlocksContiguous`, `loadGCI`: the blocks of a file, and all that is done with it. `none` is an
  access out of bounds, or a chain at which the emulator exits.
* `Laid`: the chains of the files and the counters of the BAT are in step.
* **`laid_iff`**: they are if and only if no file without blocks has been loaded.
-/

set_option autoImplicit false

namespace GCMemcard

open Memcard (GCMBlock Path blockSize mcFstBlocks)
open Successors

namespace BlockAlloc

/-- The entry of `block` is set; `none` where the map has no such entry. -/
def set? (b : BlockAlloc) (block nextBlock : ℕ) : Option BlockAlloc :=
  if mcFstBlocks ≤ block ∧ block < mcFstBlocks + batSize then
    some { b with map := Function.update b.map block (BitVec.ofNat 16 nextBlock) }
  else none

/-- The loop of `AssignBlocksContiguous` with at most `n` rounds. -/
def assignLoop (starting length : ℕ) : ℕ → ℕ → BlockAlloc → Option (ℕ × BlockAlloc)
  | 0, current, b => some (current, b)
  | n + 1, current, b =>
    if current - starting + 1 < length then
      (b.set? current (current + 1)).bind (assignLoop starting length n (current + 1))
    else some (current, b)

/-- `AssignBlocksContiguous` -/
def assignBlocksContiguous (b : BlockAlloc) (length : Word) : Option (ℕ × BlockAlloc) :=
  let starting := (b.lastAllocatedBlock + 1).toNat
  if length.toNat > b.freeBlocks.toNat then some (noBlock, b)
  else do
    let (current, b) ← assignLoop starting length.toNat length.toNat starting b
    let b ← b.set? current noBlock
    some (starting, fixChecksums
      { b with
        lastAllocatedBlock := BitVec.ofNat 16 current
        freeBlocks := b.freeBlocks - length })

end BlockAlloc

/-! ## Files -/

/-- A file of the host: its size, and the blocks after its header that can be read. -/
structure HostGci where
  size : ℕ
  blocks : List GCMBlock

structure GCIFile where
  gciHeader : DEntry
  dirty : Bool
  filename : Path
  saveData : List GCMBlock
  usedBlocks : List ℕ

namespace GCIFile

/-- `LoadSaveBlocks`; `none` is a failure, after which the file is dropped. -/
def loadSaveBlocks (files : Path → Option HostGci) (gci : GCIFile) : Option GCIFile :=
  if gci.saveData.isEmpty then
    if gci.filename = [] then none
    else
      (files gci.filename).bind fun file =>
        let n := gci.gciHeader.blockCount.toNat
        if file.size ≠ n * blockSize % 2 ^ 32 + 0x40 then none
        else if file.blocks.length < n then none
        else some { gci with saveData := file.blocks.take n }
  else some gci

/-- `HasCopyProtection` -/
def hasCopyProtection (gci : GCIFile) : Bool :=
  gci.gciHeader.named "PSO_SYSTEM".toList || gci.gciHeader.named "PSO3_SYSTEM".toList ||
    gci.gciHeader.named "f_zero.dat".toList

end GCIFile

/-! ## The card -/

/-- The part of a `GCMemcardDirectory` that the loading works on. -/
structure GciCard where
  hdr : Header
  dir1 : Directory
  bat1 : BlockAlloc
  bat2 : BlockAlloc
  saves : List GCIFile

namespace GciCard

/-- A new card of a size. -/
def fresh (hdr : Header) (sizeMbits : Word) : GciCard where
  hdr := hdr
  dir1 := .empty
  bat1 := .formatted sizeMbits
  bat2 := .formatted 0x80
  saves := []

variable (s : GciCard)

/-- The table that `SetUsedBlocks` looks at. -/
def currentBat : BlockAlloc :=
  if s.bat2.updateCounter.toInt > s.bat1.updateCounter.toInt then s.bat2 else s.bat1

/-- `SetUsedBlocks`; its warning is left out. -/
def setUsedBlocks (gci : GCIFile) : Option GCIFile :=
  (s.currentBat.chain gci.gciHeader.firstBlock.toNat).bind fun (blocks, stop) =>
    if stop = 0 then none else some { gci with usedBlocks := gci.usedBlocks ++ blocks }

/-- `Replace` in the directory. -/
def replace (d : Directory) (e : DEntry) (index : ℕ) : Directory :=
  if h : index < dirLen then
    Directory.fixChecksums { d with dirEntries := Function.update d.dirEntries ⟨index, h⟩ e }
  else d

/-- The changes of `LoadGCI` in a file with copy protection. -/
def makeValid (gci : GCIFile) : Option GCIFile :=
  if gci.hasCopyProtection then
    (psoMakeSaveGameValid s.hdr gci.gciHeader gci.saveData).map fun data =>
      { gci with saveData := fzerogxMakeSaveGameValid s.hdr gci.gciHeader data }
  else some gci

/-- `LoadGCI` -/
def loadGCI (files : Path → Option HostGci) (gci : GCIFile) : Option (Bool × GciCard) :=
  if s.saves.any fun save => gci.gciHeader.hasSameIdentity save.gciHeader then some (false, s)
  else if gci.gciHeader.blockCount.toNat > 2043 then some (false, s)
  else
    match gci.loadSaveBlocks files with
    | none => some (false, s)
    | some gci => do
      let (firstBlock, bat1) ← s.bat1.assignBlocksContiguous gci.gciHeader.blockCount
      let s := { s with bat1 := bat1 }
      if firstBlock = noBlock then some (false, s)
      else
        let gci ← s.makeValid
          { gci with gciHeader := { gci.gciHeader with firstBlock := BitVec.ofNat 16 firstBlock } }
        let s := { s with dir1 := replace s.dir1 gci.gciHeader s.saves.length }
        let gci ← s.setUsedBlocks gci
        some (true, { s with saves := s.saves ++ [gci] })

/-- The files are loaded one after the other. -/
def loadAll (files : Path → Option HostGci) (s : GciCard) (gcis : List GCIFile) : Option GciCard :=
  gcis.foldlM (fun s gci => (s.loadGCI files gci).map Prod.snd) s

end GciCard

/-! ## The blocks of one file -/

namespace BlockAlloc

variable {b : BlockAlloc} {starting current n : ℕ}

theorem set?_eq {block nextBlock : ℕ} (hlow : mcFstBlocks ≤ block)
    (hhigh : block < mcFstBlocks + batSize) :
    b.set? block nextBlock =
      some { b with map := Function.update b.map block (BitVec.ofNat 16 nextBlock) } :=
  if_pos ⟨hlow, hhigh⟩

theorem assignLoop_eq {length : ℕ} (hfst : mcFstBlocks ≤ starting) (hstart : starting ≤ current)
    (hlast : current < starting + length) (hn : starting + length ≤ n + current + 1)
    (hmap : starting + length ≤ mcFstBlocks + batSize) :
    ∃ map, assignLoop starting length n current b = some (starting + length - 1, { b with map := map }) ∧
      ∀ i, map i = if current ≤ i ∧ i + 1 < starting + length then BitVec.ofNat 16 (i + 1)
        else b.map i := by
  induction n generalizing current b with
  | zero =>
    obtain rfl : current = starting + length - 1 := by omega
    refine ⟨b.map, rfl, fun i => ?_⟩
    rw [if_neg (by omega)]
  | succ n ih =>
    rw [assignLoop]
    by_cases hmore : current - starting + 1 < length
    · rw [if_pos hmore, set?_eq (by omega) (by omega), Option.bind_some]
      obtain ⟨map, heq, hspec⟩ := @ih { b with
        map := Function.update b.map current (BitVec.ofNat 16 (current + 1)) } (current + 1)
        (by omega) (by omega) (by omega)
      refine ⟨map, heq, fun i => ?_⟩
      rw [hspec]
      simp only
      by_cases hi : i = current
      · rw [hi, if_neg (by omega), if_pos (by omega), Function.update_self]
      · rw [Function.update_of_ne hi]
        exact if_congr (by omega) rfl rfl
    · obtain rfl : current = starting + length - 1 := by omega
      rw [if_neg hmore]
      refine ⟨b.map, rfl, fun i => ?_⟩
      rw [if_neg (by omega)]

/-- **The blocks after the last one that was assigned are linked**, if there are enough. -/
theorem assignBlocksContiguous_eq {length : Word} {last : ℕ}
    (hlast : b.lastAllocatedBlock.toNat = last) (hfst : mcFstBlocks ≤ last + 1)
    (hlength : 0 < length.toNat) (hfree : length.toNat ≤ b.freeBlocks.toNat)
    (hmap : last + 1 + length.toNat ≤ mcFstBlocks + batSize) :
    ∃ b', b.assignBlocksContiguous length = some (last + 1, b') ∧
      b'.lastAllocatedBlock.toNat = last + length.toNat ∧
      b'.freeBlocks.toNat = b.freeBlocks.toNat - length.toNat ∧
      b'.updateCounter = b.updateCounter ∧
      b'.map (last + length.toNat) = BitVec.ofNat 16 noBlock ∧
      (∀ i, last < i → i < last + length.toNat → b'.map i = BitVec.ofNat 16 (i + 1)) ∧
      ∀ i, i ≤ last ∨ last + length.toNat < i → b'.map i = b.map i := by
  have hbat : mcFstBlocks + batSize = 4096 := rfl
  have hone : (1 : Word).toNat = 1 := rfl
  have hstarting : (b.lastAllocatedBlock + 1).toNat = last + 1 := by
    rw [BitVec.toNat_add, hlast, hone]
    exact Nat.mod_eq_of_lt (by omega)
  obtain ⟨map, hloop, hspec⟩ := assignLoop_eq (b := b) (n := length.toNat) hfst (le_refl (last + 1))
    (by omega : last + 1 < last + 1 + length.toNat) (by omega) hmap
  have hend : last + 1 + length.toNat - 1 = last + length.toNat := by omega
  rw [hend] at hloop
  have hset := @set?_eq { b with map := map } (last + length.toNat) noBlock (by omega) (by omega)
  refine ⟨fixChecksums { b with
    map := Function.update map (last + length.toNat) (BitVec.ofNat 16 noBlock)
    lastAllocatedBlock := BitVec.ofNat 16 (last + length.toNat)
    freeBlocks := b.freeBlocks - length }, ?_, ?_, ?_, ?_, ?_, fun i hlow hhigh => ?_, fun i hi => ?_⟩
  · rw [assignBlocksContiguous, hstarting, if_neg (not_lt.mpr hfree), hloop]
    simp only [Option.bind_eq_bind, Option.bind_some, hset]
  · rw [fixChecksums_lastAllocatedBlock, BitVec.toNat_ofNat]
    exact Nat.mod_eq_of_lt (by omega)
  · rw [fixChecksums_freeBlocks, BitVec.toNat_sub_of_le hfree]
  · rw [fixChecksums_updateCounter]
  · rw [fixChecksums_map]
    exact Function.update_self ..
  · have hne : i ≠ last + length.toNat := by omega
    rw [fixChecksums_map]
    refine (Function.update_of_ne hne ..).trans ?_
    rw [hspec, if_pos (by omega)]
  · have hne : i ≠ last + length.toNat := by omega
    rw [fixChecksums_map]
    refine (Function.update_of_ne hne ..).trans ?_
    rw [hspec, if_neg (by omega)]

theorem assignBlocksContiguous_cases {length : Word} {first : ℕ} {bat : BlockAlloc}
    (h : b.assignBlocksContiguous length = some (first, bat)) :
    (first = noBlock ∧ bat = b) ∨ first = (b.lastAllocatedBlock + 1).toNat := by
  rw [assignBlocksContiguous] at h
  split at h
  · cases h
    exact .inl ⟨rfl, rfl⟩
  · obtain ⟨⟨current, linked⟩, -, h⟩ := Option.bind_eq_some_iff.mp h
    obtain ⟨closed, -, h⟩ := Option.bind_eq_some_iff.mp h
    cases h
    exact .inr rfl

end BlockAlloc

/-! ## The card in step -/

/-- The chains of the files lie on a card of `size` blocks, are disjoint and have the blocks that the
files have; the count of free blocks is right, and the next file starts at a free block. -/
structure Laid (size : ℕ) (s : GciCard) : Prop where
  chain : ∀ save ∈ s.saves, ∃ l, s.bat1.chain save.gciHeader.firstBlock.toNat = some (l, noBlock) ∧
    l.length = save.gciHeader.blockCount.toNat ∧ l.Nodup ∧ ∀ block ∈ l, mcFstBlocks ≤ block ∧ block < size
  disjoint : s.saves.Pairwise fun a b => ∀ l l',
    s.bat1.chain a.gciHeader.firstBlock.toNat = some (l, noBlock) →
      s.bat1.chain b.gciHeader.firstBlock.toNat = some (l', noBlock) → l.Disjoint l'
  freeBlocks : s.bat1.freeBlocks.toNat = (s.bat1.free size).card
  next : ∀ (length : Word) (first : ℕ) (bat : BlockAlloc), 0 < length.toNat →
    s.bat1.assignBlocksContiguous length = some (first, bat) → first ≠ noBlock →
      first ∈ s.bat1.free size

/-- The blocks of a file from its first one on. -/
def DEntry.contiguous (e : DEntry) : List ℕ := List.range' e.firstBlock.toNat e.blockCount.toNat

/-- The blocks up to the last one are used, one file after the other. -/
structure Contiguous (size last : ℕ) (s : GciCard) : Prop where
  size_le : size ≤ 2048
  lastBlock : s.bat1.lastAllocatedBlock.toNat = last
  fst_le : mcFstBlocks ≤ last + 1
  freeBlocks : s.bat1.freeBlocks.toNat + last + 1 = size
  used : ∀ i, mcFstBlocks ≤ i → (s.bat1.map i = 0 ↔ last < i)
  current : s.bat2.updateCounter.toInt ≤ s.bat1.updateCounter.toInt
  linked : ∀ save ∈ s.saves, mcFstBlocks ≤ save.gciHeader.firstBlock.toNat ∧
    save.gciHeader.firstBlock.toNat + save.gciHeader.blockCount.toNat ≤ last + 1 ∧
      Linked s.bat1.getNextBlock save.gciHeader.firstBlock.toNat save.gciHeader.contiguous noBlock
  ordered : s.saves.Pairwise fun a b =>
    a.gciHeader.firstBlock.toNat + a.gciHeader.blockCount.toNat ≤ b.gciHeader.firstBlock.toNat

variable {size last : ℕ} {s s' : GciCard} {files : Path → Option HostGci} {gci : GCIFile} {ok : Bool}

theorem contiguous_fresh (hdr : Header) {sizeMbits : Word} (hsize : sizeMbits.toNat ∈ validMegabits) :
    Contiguous (sizeMbits.toNat * mbitToBlocks) 4 (.fresh hdr sizeMbits) := by
  have hbounds := megabits_bounds _ hsize
  have hblocks : mbitToBlocks = 16 := rfl
  have hfst : mcFstBlocks = 5 := rfl
  refine {
    size_le := by rw [hblocks]; omega
    lastBlock := ?_
    fst_le := le_refl _
    freeBlocks := ?_
    used := fun i hi => ?_
    current := ?_
    linked := fun _ h => by cases h
    ordered := .nil }
  · rw [GciCard.fresh, BlockAlloc.formatted, BlockAlloc.fixChecksums_lastAllocatedBlock]
    rfl
  · rw [GciCard.fresh, BlockAlloc.formatted, BlockAlloc.fixChecksums_freeBlocks,
      BitVec.toNat_setWidth, toNat_mbitToFreeBlocks hsize, hblocks]
    omega
  · rw [GciCard.fresh, BlockAlloc.formatted, BlockAlloc.fixChecksums_map]
    exact iff_of_true rfl (by omega)
  · rw [GciCard.fresh, BlockAlloc.formatted, BlockAlloc.formatted,
      BlockAlloc.fixChecksums_updateCounter, BlockAlloc.fixChecksums_updateCounter]

theorem Contiguous.chain_eq (h : Contiguous size last s) {save : GCIFile} (hsave : save ∈ s.saves) :
    s.bat1.chain save.gciHeader.firstBlock.toNat = some (save.gciHeader.contiguous, noBlock) := by
  obtain ⟨hfst, hlast, hlinked⟩ := h.linked save hsave
  have hsize := h.size_le
  have hfree := h.freeBlocks
  refine walk_of_linked hlinked (.inl rfl) (fun block hblock => ?_) ?_
  · have hrange := List.mem_range'_1.mp hblock
    unfold noBlock mcFstBlocks at *
    omega
  · rw [DEntry.contiguous, List.length_range']
    unfold batSize
    omega

theorem Contiguous.free_eq (h : Contiguous size last s) :
    s.bat1.free size = Finset.Ico (last + 1) size := by
  have hfst := h.fst_le
  ext i
  rw [BlockAlloc.mem_free, Finset.mem_Ico]
  constructor
  · rintro ⟨⟨hlow, hhigh⟩, hzero⟩
    exact ⟨(h.used i hlow).mp hzero, hhigh⟩
  · rintro ⟨hlow, hhigh⟩
    exact ⟨⟨by omega, hhigh⟩, (h.used i (by omega)).mpr hlow⟩

theorem Contiguous.laid (h : Contiguous size last s) : Laid size s where
  chain save hsave := by
    obtain ⟨hfst, hlast, -⟩ := h.linked save hsave
    have hfree := h.freeBlocks
    refine ⟨_, h.chain_eq hsave, List.length_range', List.nodup_range', fun block hblock => ?_⟩
    have hrange := List.mem_range'_1.mp hblock
    omega
  disjoint := by
    refine h.ordered.imp_of_mem fun {a b} ha hb hle l l' hl hl' => ?_
    rw [h.chain_eq ha, Option.some_inj, Prod.mk.injEq] at hl
    rw [h.chain_eq hb, Option.some_inj, Prod.mk.injEq] at hl'
    rw [← hl.1, ← hl'.1]
    intro block hblock hblock'
    have hrange := List.mem_range'_1.mp hblock
    have hrange' := List.mem_range'_1.mp hblock'
    omega
  freeBlocks := by
    have hfree := h.freeBlocks
    rw [h.free_eq, Nat.card_Ico]
    omega
  next length first bat hlength hassign hfirst := by
    have hfree := h.freeBlocks
    by_cases hfits : length.toNat ≤ s.bat1.freeBlocks.toNat
    · have hbat : mcFstBlocks + batSize = 4096 := rfl
      have hsize := h.size_le
      obtain ⟨bat', heq, -⟩ := BlockAlloc.assignBlocksContiguous_eq h.lastBlock h.fst_le hlength hfits
        (by omega)
      rw [heq, Option.some_inj, Prod.mk.injEq] at hassign
      rw [← hassign.1, h.free_eq, Finset.mem_Ico]
      omega
    · rw [BlockAlloc.assignBlocksContiguous, if_pos (not_le.mp hfits), Option.some_inj,
        Prod.mk.injEq] at hassign
      exact absurd hassign.1.symm hfirst

/-! ## Loading a file -/

theorem GCIFile.loadSaveBlocks_eq {gci' : GCIFile} (h : gci.loadSaveBlocks files = some gci') :
    gci'.gciHeader = gci.gciHeader ∧
      (gci.saveData = [] → gci'.saveData.length = gci.gciHeader.blockCount.toNat) := by
  rw [loadSaveBlocks] at h
  split at h
  · split at h
    · cases h
    · obtain ⟨file, -, h⟩ := Option.bind_eq_some_iff.mp h
      dsimp only at h
      split at h
      · cases h
      · split at h
        · cases h
        · next hlength =>
          cases h
          refine ⟨rfl, fun _ => ?_⟩
          rw [List.length_take]
          exact min_eq_left (not_lt.mp hlength)
  · next hloaded =>
    cases h
    exact ⟨rfl, fun hempty => absurd (by rw [hempty]; rfl) hloaded⟩

theorem GciCard.makeValid_header {gci' : GCIFile} (h : s.makeValid gci = some gci') :
    gci'.gciHeader = gci.gciHeader := by
  rw [makeValid] at h
  split at h
  · obtain ⟨data, -, rfl⟩ := Option.map_eq_some_iff.mp h
    rfl
  · cases h
    rfl

theorem GciCard.setUsedBlocks_header {gci' : GCIFile} (h : s.setUsedBlocks gci = some gci') :
    gci'.gciHeader = gci.gciHeader := by
  obtain ⟨⟨blocks, stop⟩, -, h⟩ := Option.bind_eq_some_iff.mp h
  dsimp only at h
  split at h
  · cases h
  · cases h
    rfl

theorem loadGCI_cases (h : s.loadGCI files gci = some (ok, s')) :
    s' = s ∨
      (∃ bat, s.bat1.assignBlocksContiguous gci.gciHeader.blockCount = some (noBlock, bat) ∧
        s' = { s with bat1 := bat }) ∨
      ∃ first bat save,
        s.bat1.assignBlocksContiguous gci.gciHeader.blockCount = some (first, bat) ∧ first ≠ noBlock ∧
          save.gciHeader = { gci.gciHeader with firstBlock := BitVec.ofNat 16 first } ∧
            s'.bat1 = bat ∧ s'.bat2 = s.bat2 ∧ s'.saves = s.saves ++ [save] := by
  rw [GciCard.loadGCI] at h
  split at h
  · cases h
    exact .inl rfl
  · split at h
    · cases h
      exact .inl rfl
    · split at h
      · cases h
        exact .inl rfl
      · next loaded hloaded =>
        have hheader := (GCIFile.loadSaveBlocks_eq hloaded).1
        obtain ⟨⟨first, bat⟩, hassign, h⟩ := Option.bind_eq_some_iff.mp h
        rw [hheader] at hassign
        dsimp only at h
        split at h
        · next hfull =>
          cases h
          exact .inr (.inl ⟨bat, hfull ▸ hassign, rfl⟩)
        · next hfirst =>
          obtain ⟨valid, hvalid, h⟩ := Option.bind_eq_some_iff.mp h
          obtain ⟨save, hsave, h⟩ := Option.bind_eq_some_iff.mp h
          cases h
          refine .inr (.inr ⟨first, bat, save, hassign, hfirst, ?_, rfl, rfl, rfl⟩)
          rw [GciCard.setUsedBlocks_header hsave, GciCard.makeValid_header hvalid, hheader]

/-- **A file with blocks is put after the others.** -/
theorem Contiguous.add (h : Contiguous size last s) {first : ℕ} {bat : BlockAlloc} {save : GCIFile}
    {e : DEntry} (hcount : e.blockCount ≠ 0)
    (hassign : s.bat1.assignBlocksContiguous e.blockCount = some (first, bat)) (hfirst : first ≠ noBlock)
    (hsave : save.gciHeader = { e with firstBlock := BitVec.ofNat 16 first }) (hbat : s'.bat1 = bat)
    (hbat2 : s'.bat2 = s.bat2) (hsaves : s'.saves = s.saves ++ [save]) :
    Contiguous size (last + e.blockCount.toNat) s' := by
  have hpos : 0 < e.blockCount.toNat := by
    by_contra hzero
    exact hcount (BitVec.eq_of_toNat_eq (Nat.eq_zero_of_not_pos hzero))
  have hfits : e.blockCount.toNat ≤ s.bat1.freeBlocks.toNat := by
    by_contra hfits
    rw [BlockAlloc.assignBlocksContiguous, if_pos (not_le.mp hfits), Option.some_inj,
      Prod.mk.injEq] at hassign
    exact hfirst hassign.1.symm
  have hend : mcFstBlocks + batSize = 4096 := rfl
  have hfst : mcFstBlocks = 5 := rfl
  have hsize := h.size_le
  have hfree := h.freeBlocks
  have hle := h.fst_le
  obtain ⟨bat', heq, hlast, hfree', hcounter, hstop, hlink, hkeep⟩ :=
    BlockAlloc.assignBlocksContiguous_eq h.lastBlock h.fst_le hpos hfits (by omega)
  rw [heq, Option.some_inj, Prod.mk.injEq] at hassign
  obtain ⟨rfl, rfl⟩ := hassign
  subst hbat
  have hblock : save.gciHeader.firstBlock.toNat = last + 1 := by
    rw [hsave, BitVec.toNat_ofNat]
    exact Nat.mod_eq_of_lt (by omega)
  have hblocks : save.gciHeader.blockCount.toNat = e.blockCount.toNat := by rw [hsave]
  -- blocks up to the last one before keep their successors
  have hnext : ∀ i, i ≤ last → s'.bat1.getNextBlock i = s.bat1.getNextBlock i := by
    intro i hi
    rw [BlockAlloc.getNextBlock, BlockAlloc.getNextBlock, hkeep i (.inl hi)]
  refine {
    size_le := hsize
    lastBlock := hlast
    fst_le := by omega
    freeBlocks := by omega
    used := fun i hi => ?_
    current := by rw [hbat2, hcounter]; exact h.current
    linked := fun save' hsave' => ?_
    ordered := ?_ }
  · rcases lt_trichotomy i (last + e.blockCount.toNat) with hlt | rfl | hgt
    · by_cases hold : i ≤ last
      · rw [hkeep i (.inl hold), h.used i hi]
        omega
      · rw [hlink i (not_le.mp hold) hlt]
        refine iff_of_false (fun hzero => ?_) (by omega)
        have hnat := congrArg BitVec.toNat hzero
        rw [BitVec.toNat_ofNat, Nat.mod_eq_of_lt (by omega)] at hnat
        cases hnat
    · rw [hstop]
      exact iff_of_false (by decide) (by omega)
    · rw [hkeep i (.inr hgt), h.used i hi]
      omega
  · rw [hsaves, List.mem_append, List.mem_singleton] at hsave'
    rcases hsave' with hold | rfl
    · obtain ⟨hlow, hhigh, hlinked⟩ := h.linked save' hold
      refine ⟨hlow, by omega, hlinked.congr fun block hblock => hnext block ?_⟩
      have hrange := List.mem_range'_1.mp hblock
      omega
    · refine ⟨by omega, by omega, ?_⟩
      rw [DEntry.contiguous, hblock, hblocks]
      refine linked_range' hpos (fun i hlow hhigh => ?_) ?_
      · rw [BlockAlloc.getNextBlock, if_neg (by omega), hlink i (by omega) (by omega),
          BitVec.toNat_ofNat]
        exact Nat.mod_eq_of_lt (by omega)
      · rw [BlockAlloc.getNextBlock, if_neg (by omega),
          show last + 1 + e.blockCount.toNat - 1 = last + e.blockCount.toNat by omega, hstop]
        rfl
  · rw [hsaves, List.pairwise_append]
    refine ⟨h.ordered, List.pairwise_singleton _ _, fun a ha b hb => ?_⟩
    rw [List.mem_singleton.mp hb, hblock]
    exact (h.linked a ha).2.1

/-- **One file keeps the card in step**, unless it is loaded without blocks. -/
theorem Contiguous.loadGCI (h : Contiguous size last s) (hload : s.loadGCI files gci = some (ok, s'))
    (hblocks : ∀ save ∈ s'.saves, save.gciHeader.blockCount ≠ 0) : ∃ last', Contiguous size last' s' := by
  rcases loadGCI_cases hload with rfl | ⟨bat, hassign, rfl⟩ |
    ⟨first, bat, save, hassign, hfirst, hsave, hbat, hbat2, hsaves⟩
  · exact ⟨last, h⟩
  · rcases BlockAlloc.assignBlocksContiguous_cases hassign with ⟨-, rfl⟩ | hfirst
    · exact ⟨last, h⟩
    · have hone : (1 : Word).toNat = 1 := rfl
      have hsize := h.size_le
      have hfree := h.freeBlocks
      rw [BitVec.toNat_add, h.lastBlock, hone] at hfirst
      unfold noBlock at hfirst
      omega
  · refine ⟨_, h.add ?_ hassign hfirst hsave hbat hbat2 hsaves⟩
    have hnew := hblocks save (hsaves ▸ List.mem_append_right _ List.mem_cons_self)
    rw [hsave] at hnew
    exact hnew

/-- The file has blocks, and a system file of Phantasy Star Online has two of them. -/
def HasBlocks (gci : GCIFile) : Prop :=
  gci.saveData = [] ∧ gci.gciHeader.blockCount ≠ 0 ∧
    ((psoOffset gci.gciHeader).isSome → 2 ≤ gci.gciHeader.blockCount.toNat)

/-- **A file with blocks is loaded or refused**, without an access out of bounds. -/
theorem Contiguous.loadGCI_isSome (h : Contiguous size last s) (hgci : HasBlocks gci) :
    ∃ ok s', s.loadGCI files gci = some (ok, s') := by
  obtain ⟨hempty, hcount, hpso⟩ := hgci
  rw [GciCard.loadGCI]
  split
  · exact ⟨_, _, rfl⟩
  · split
    · exact ⟨_, _, rfl⟩
    · split
      · exact ⟨_, _, rfl⟩
      · next loaded hloaded =>
        obtain ⟨hheader, hlength⟩ := GCIFile.loadSaveBlocks_eq hloaded
        rw [hheader]
        by_cases hfits : gci.gciHeader.blockCount.toNat ≤ s.bat1.freeBlocks.toNat
        · have hpos : 0 < gci.gciHeader.blockCount.toNat := by
            by_contra hzero
            exact hcount (BitVec.eq_of_toNat_eq (Nat.eq_zero_of_not_pos hzero))
          have hend : mcFstBlocks + batSize = 4096 := rfl
          have hsize := h.size_le
          have hfree := h.freeBlocks
          obtain ⟨bat, hassign, -⟩ :=
            BlockAlloc.assignBlocksContiguous_eq h.lastBlock h.fst_le hpos hfits (by omega)
          have hfirst : last + 1 ≠ noBlock := by
            unfold noBlock
            omega
          obtain ⟨valid, hvalid⟩ : ∃ valid, GciCard.makeValid { s with bat1 := bat } { loaded with
              gciHeader := { gci.gciHeader with firstBlock := BitVec.ofNat 16 (last + 1) } } =
                some valid := by
            rw [GciCard.makeValid]
            split
            · have hsome := @psoMakeSaveGameValid_isSome_iff s.hdr
                { gci.gciHeader with firstBlock := BitVec.ofNat 16 (last + 1) } loaded.saveData
              rw [hlength hempty] at hsome
              obtain ⟨data, hdata⟩ := Option.isSome_iff_exists.mp (hsome.mpr hpso)
              exact ⟨_, by rw [hdata]; rfl⟩
            · exact ⟨_, rfl⟩
          have hheader' := GciCard.makeValid_header hvalid
          have hadded : Contiguous size (last + gci.gciHeader.blockCount.toNat)
              { s with bat1 := bat, saves := s.saves ++ [valid] } :=
            h.add hcount hassign hfirst hheader' rfl rfl rfl
          have hvalid' : valid ∈ s.saves ++ [valid] := List.mem_append_right _ List.mem_cons_self
          have hchain := hadded.chain_eq hvalid'
          obtain ⟨save, hsave⟩ : ∃ save, GciCard.setUsedBlocks { s with
              bat1 := bat
              dir1 := GciCard.replace s.dir1 valid.gciHeader s.saves.length } valid = some save := by
            rw [GciCard.setUsedBlocks, GciCard.currentBat, if_neg (not_lt.mpr hadded.current), hchain,
              Option.bind_some]
            exact ⟨_, if_neg (by decide)⟩
          refine ⟨true, { s with
            bat1 := bat
            dir1 := GciCard.replace s.dir1 valid.gciHeader s.saves.length
            saves := s.saves ++ [save] }, ?_⟩
          simp only [hassign, Option.bind_eq_bind, Option.bind_some, if_neg hfirst, hvalid, hsave]
        · refine ⟨false, s, ?_⟩
          rw [BlockAlloc.assignBlocksContiguous, if_pos (not_le.mp hfits)]
          rfl

theorem saves_subset_of_loadGCI (h : s.loadGCI files gci = some (ok, s')) : s.saves ⊆ s'.saves := by
  rcases loadGCI_cases h with rfl | ⟨bat, -, rfl⟩ | ⟨-, -, save, -, -, -, -, -, hsaves⟩
  · exact List.Subset.refl _
  · exact List.Subset.refl _
  · rw [hsaves]
    exact List.subset_append_left _ _

theorem loadAll_cons {gcis : List GCIFile} (h : s.loadAll files (gci :: gcis) = some s') :
    ∃ ok s₁, s.loadGCI files gci = some (ok, s₁) ∧ s₁.loadAll files gcis = some s' := by
  rw [GciCard.loadAll, List.foldlM_cons, Option.bind_eq_bind, Option.bind_eq_some_iff] at h
  obtain ⟨s₁, hload, h⟩ := h
  obtain ⟨⟨ok, s₂⟩, hload', rfl⟩ := Option.map_eq_some_iff.mp hload
  exact ⟨ok, s₂, hload', h⟩

theorem saves_subset_of_loadAll {gcis : List GCIFile} (h : s.loadAll files gcis = some s') :
    s.saves ⊆ s'.saves := by
  induction gcis generalizing s with
  | nil =>
    cases h
    exact List.Subset.refl _
  | cons gci gcis ih =>
    obtain ⟨ok, s₁, hload, h⟩ := loadAll_cons h
    exact List.Subset.trans (saves_subset_of_loadGCI hload) (ih h)

/-- **A run of loads keeps the card in step.** -/
theorem Contiguous.loadAll (h : Contiguous size last s) {gcis : List GCIFile}
    (hload : s.loadAll files gcis = some s') (hblocks : ∀ save ∈ s'.saves, save.gciHeader.blockCount ≠ 0) :
    ∃ last', Contiguous size last' s' := by
  induction gcis generalizing s last with
  | nil =>
    cases hload
    exact ⟨last, h⟩
  | cons gci gcis ih =>
    obtain ⟨ok, s₁, hfirst, hrest⟩ := loadAll_cons hload
    obtain ⟨last₁, h₁⟩ := h.loadGCI hfirst fun save hsave =>
      hblocks save (saves_subset_of_loadAll hrest hsave)
    exact ih h₁ hrest

theorem Laid.blockCount_ne (h : Laid size s) {save : GCIFile} (hsave : save ∈ s.saves)
    (hfirst : save.gciHeader.firstBlock.toNat ≠ noBlock) : save.gciHeader.blockCount ≠ 0 := by
  intro hzero
  obtain ⟨l, hchain, hlength, -⟩ := h.chain save hsave
  rw [hzero] at hlength
  obtain rfl : l = [] := List.length_eq_zero_iff.mp hlength
  rw [BlockAlloc.chain, walk] at hchain
  split at hchain
  · rw [Option.some_inj, Prod.mk.injEq] at hchain
    exact hfirst hchain.2
  · obtain ⟨⟨l, z⟩, -, heq⟩ := Option.map_eq_some_iff.mp hchain
    cases heq

theorem firstBlock_ne_of_loadAll {gcis : List GCIFile} (h : s.loadAll files gcis = some s')
    (hfirst : ∀ save ∈ s.saves, save.gciHeader.firstBlock.toNat ≠ noBlock) :
    ∀ save ∈ s'.saves, save.gciHeader.firstBlock.toNat ≠ noBlock := by
  induction gcis generalizing s with
  | nil =>
    cases h
    exact hfirst
  | cons gci gcis ih =>
    obtain ⟨ok, s₁, hload, h⟩ := loadAll_cons h
    refine ih h ?_
    rcases loadGCI_cases hload with rfl | ⟨bat, -, rfl⟩ |
      ⟨first, bat, save, hassign, hne, hsave, -, -, hsaves⟩
    · exact hfirst
    · exact hfirst
    · intro save' hsave'
      rw [hsaves, List.mem_append, List.mem_singleton] at hsave'
      rcases hsave' with hold | rfl
      · exact hfirst save' hold
      · rcases BlockAlloc.assignBlocksContiguous_cases hassign with ⟨heq, -⟩ | heq
        · exact absurd heq hne
        · rw [hsave, heq, BitVec.ofNat_toNat, BitVec.setWidth_eq, ← heq]
          exact hne

theorem Contiguous.loadAll_isSome (h : Contiguous size last s) {gcis : List GCIFile}
    (hgcis : ∀ gci ∈ gcis, HasBlocks gci) (hblocks : ∀ save ∈ s.saves, save.gciHeader.blockCount ≠ 0) :
    ∃ s', s.loadAll files gcis = some s' := by
  induction gcis generalizing s last with
  | nil => exact ⟨s, rfl⟩
  | cons gci gcis ih =>
    have hgci := hgcis gci List.mem_cons_self
    obtain ⟨ok, s₁, hload⟩ : ∃ ok s₁, s.loadGCI files gci = some (ok, s₁) := h.loadGCI_isSome hgci
    have hblocks₁ : ∀ save ∈ s₁.saves, save.gciHeader.blockCount ≠ 0 := by
      rcases loadGCI_cases hload with rfl | ⟨bat, -, rfl⟩ | ⟨first, bat, save, -, -, hsave, -, -, hsaves⟩
      · exact hblocks
      · exact hblocks
      · intro save' hsave'
        rw [hsaves, List.mem_append, List.mem_singleton] at hsave'
        rcases hsave' with hold | rfl
        · exact hblocks save' hold
        · rw [hsave]
          exact hgci.2.1
    obtain ⟨last₁, h₁⟩ := h.loadGCI hload hblocks₁
    obtain ⟨s', hrest⟩ := ih h₁ (fun g hg => hgcis g (List.mem_cons_of_mem _ hg)) hblocks₁
    refine ⟨s', ?_⟩
    rw [GciCard.loadAll, List.foldlM_cons, hload]
    exact hrest

/-- **The card of `.gci` files is in step.** After any files have been loaded into a new card, the
chains and the counters are in step if and only if none of the loaded files is without blocks; and
files that have the blocks they need are loaded or refused. -/
theorem laid_iff (hdr : Header) (sizeMbits : Word) (files : Path → Option HostGci)
    (gcis : List GCIFile) (hsize : sizeMbits.toNat ∈ validMegabits) :
    (∀ s, GciCard.loadAll files (.fresh hdr sizeMbits) gcis = some s →
      (Laid (sizeMbits.toNat * mbitToBlocks) s ↔
        ∀ save ∈ s.saves, save.gciHeader.blockCount ≠ 0)) ∧
    ((∀ gci ∈ gcis, HasBlocks gci) →
      ∃ s, GciCard.loadAll files (.fresh hdr sizeMbits) gcis = some s) := by
  have hfresh := contiguous_fresh hdr hsize
  refine ⟨fun s hload => ⟨fun hlaid save hsave => ?_, fun hblocks => ?_⟩, fun hgcis => ?_⟩
  · exact hlaid.blockCount_ne hsave
      (firstBlock_ne_of_loadAll hload (fun _ h => by cases h) save hsave)
  · obtain ⟨last, hlast⟩ := hfresh.loadAll hload hblocks
    exact hlast.laid
  · exact hfresh.loadAll_isSome hgcis fun _ h => by cases h

/-- A file with `blockCount` blocks. -/
def sampleGci (gamecode : BitVec 32) (blockCount : Word) : GCIFile where
  gciHeader := { DEntry.erased with gamecode := gamecode, blockCount := blockCount }
  dirty := false
  filename := ['a']
  saveData := []
  usedBlocks := []

/-- The file of the host without blocks. -/
def emptyGci : Path → Option HostGci := fun _ => some ⟨0x40, []⟩

/-- The header of a new card. -/
def newHeader : Header := .formatted (initializeHeaderData (List.replicate 12 0) 4 false 0 0 0)

/-- The file of the host with so many blocks. -/
def hostGci (n : ℕ) : Path → Option HostGci := fun _ => some ⟨n * blockSize + 0x40, List.replicate n 0⟩

/-- Two files of two blocks are loaded, and are in step. -/
theorem laid_iff_two_files : ∃ s,
    GciCard.loadAll (hostGci 2) (.fresh newHeader 4) [sampleGci 1 2, sampleGci 2 2] = some s ∧
      s.saves.map (fun save => save.usedBlocks) = [[5, 6], [7, 8]] ∧ Laid ((4 : Word).toNat * mbitToBlocks) s := by
  obtain ⟨hlaid, hloads⟩ := laid_iff newHeader 4 (hostGci 2) [sampleGci 1 2, sampleGci 2 2] (by decide)
  have hgcis : ∀ gci ∈ [sampleGci 1 2, sampleGci 2 2], HasBlocks gci := by
    intro gci hgci
    simp only [List.mem_cons, List.not_mem_nil, or_false] at hgci
    rcases hgci with rfl | rfl
    · exact ⟨rfl, by decide, by decide +kernel⟩
    · exact ⟨rfl, by decide, by decide +kernel⟩
  obtain ⟨s, hs⟩ := hloads hgcis
  have hsaves : (GciCard.loadAll (hostGci 2) (.fresh newHeader 4) [sampleGci 1 2, sampleGci 2 2]).map
      (fun s => s.saves.map fun save => (save.usedBlocks, save.gciHeader.blockCount)) =
        some [([5, 6], 2), ([7, 8], 2)] := by
    decide +kernel
  rw [hs, Option.map_some, Option.some_inj] at hsaves
  refine ⟨s, hs, ?_, (hlaid s hs).mpr fun save hsave => ?_⟩
  · have hblocks := congrArg (List.map Prod.fst) hsaves
    rwa [List.map_map] at hblocks
  · have hmem := List.mem_map_of_mem (f := fun save : GCIFile => (save.usedBlocks, save.gciHeader.blockCount)) hsave
    rw [hsaves] at hmem
    simp only [List.mem_cons, List.not_mem_nil, or_false, Prod.mk.injEq] at hmem
    rcases hmem with ⟨-, hcount⟩ | ⟨-, hcount⟩
    · rw [hcount]
      decide
    · rw [hcount]
      decide

/-- A card of 59 blocks, with the file without blocks. -/
def loadedEmpty : Option GciCard :=
  GciCard.loadAll emptyGci
    (.fresh (.formatted (initializeHeaderData (List.replicate 12 0) 4 false 0 0 0)) 4) [sampleGci 1 0]

theorem empty_file_not_laid :
    ¬ ∀ (hdr : Header) (files : Path → Option HostGci) (gcis : List GCIFile) (s : GciCard),
      GciCard.loadAll files (.fresh hdr 4) gcis = some s → Laid (4 * mbitToBlocks) s := by
  intro hlaid
  have hloaded : (loadedEmpty.map fun s => s.saves.map fun save => save.gciHeader.blockCount) =
      some [0] := by
    decide +kernel
  obtain ⟨s, hload, hsaves⟩ := Option.map_eq_some_iff.mp hloaded
  obtain ⟨save, hsave, hcount⟩ : ∃ save ∈ s.saves, save.gciHeader.blockCount = 0 :=
    List.mem_map.mp (hsaves ▸ List.mem_cons_self)
  exact (hlaid _ _ _ s hload).blockCount_ne hsave
    (firstBlock_ne_of_loadAll hload (fun _ h => by cases h) save hsave) hcount

end GCMemcard
