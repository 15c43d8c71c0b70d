import PrimedSteam.Memcard.GciFolder

/-!
# No written byte of a save is dropped

The card as the game sees it is an array of bytes, `World.memory`. The folder keeps it as long as no
write goes past the mark of its save.

* `SaveInv`, `Inv`: the data of a save, or its file if the data is not loaded, are the bytes of its
  blocks, and the file of a save that is not dirty has them.
* `Recorded`: the condition on an access, that a write to the cached block finds the data loaded and
  the save dirty, and that the host reads and writes the files.
* **`written_bytes_kept`**: in a run of such accesses the file of each save that is not dirty has all
  written bytes.
-/

set_option autoImplicit false

namespace Memcard

open Transition

/-! ## The array of bytes -/

abbrev Memory := ℕ → Byte

namespace Memory

def blockOf (mem : Memory) (block : ℕ) : GCMBlock := fun i => mem (block * blockSize + i)

def copy (mem : Memory) (address : ℕ) (bytes : List Byte) : Memory := fun a =>
  if address ≤ a then (bytes[a - address]?).getD (mem a) else mem a

variable {mem : Memory} {address : ℕ} {bytes : List Byte}

variable (mem address) in
theorem copy_append (xs ys : List Byte) :
    mem.copy address (xs ++ ys) = (mem.copy address xs).copy (address + xs.length) ys := by
  funext a
  unfold copy
  by_cases h : address ≤ a
  · rw [if_pos h, if_pos h]
    by_cases hx : a - address < xs.length
    · have hlt : ¬ address + xs.length ≤ a := by omega
      rw [if_neg hlt, List.getElem?_append_left hx]
    · have hle : address + xs.length ≤ a := by omega
      have hnone : xs[a - address]? = none := List.getElem?_eq_none (by omega)
      rw [if_pos hle, List.getElem?_append_right (by omega), hnone,
        show a - address - xs.length = a - (address + xs.length) by omega]
      rfl
  · have hlt : ¬ address + xs.length ≤ a := by omega
    rw [if_neg h, if_neg hlt, if_neg h]

theorem blockOf_copy :
    (mem.copy address bytes).blockOf (address / blockSize) =
      (mem.blockOf (address / blockSize)).copy (address % blockSize) bytes := by
  funext i
  have haddr := Nat.div_add_mod' address blockSize
  unfold blockOf copy GCMBlock.copy
  by_cases h : address % blockSize ≤ i
  · rw [if_pos h, if_pos (by omega)]
    congr 2
    omega
  · rw [if_neg h, if_neg (by omega)]

theorem blockOf_copy_of_ne {block : ℕ} (hfit : address % blockSize + bytes.length ≤ blockSize)
    (hne : block ≠ address / blockSize) :
    (mem.copy address bytes).blockOf block = mem.blockOf block := by
  funext i
  have haddr := Nat.div_add_mod' address blockSize
  have hi := i.isLt
  unfold blockOf copy
  by_cases h : address ≤ block * blockSize + i
  · have hgt : address / blockSize + 1 ≤ block := by
      by_contra hlt
      have hle : block + 1 ≤ address / blockSize := by omega
      have := Nat.mul_le_mul_right blockSize hle
      rw [Nat.add_mul] at this
      omega
    have := Nat.mul_le_mul_right blockSize hgt
    rw [Nat.add_mul] at this
    rw [if_pos h, List.getElem?_eq_none (by omega)]
    rfl
  · rw [if_neg h]

end Memory

open Memory

/-! ## The saves -/

/-- The blocks of a save that have data. -/
def GCIFile.blocks (save : GCIFile) : List ℕ := save.usedBlocks.take save.header.blockCount

/-- A save in memory and its file. -/
structure SaveInv (files : Files) (mem : Memory) (save : GCIFile) : Prop where
  active : save.header.gamecode ≠ uninitializedGamecode
  named : save.filename ≠ []
  used : save.usedBlocks ≠ []
  count : save.header.blockCount ≤ save.usedBlocks.length
  file : ∃ file, files save.filename = some file ∧ file.blocks.length = save.header.blockCount ∧
    (save.dirty = false → file.blocks = save.blocks.map mem.blockOf)
  data : save.saveData = [] ∨ save.saveData = save.blocks.map mem.blockOf
  dirty_loaded : save.dirty = true → save.saveData ≠ []

variable {c : Card} {files : Files} {mem : Memory} {save : GCIFile} {saves : List GCIFile}
  {readable writing : Bool}

theorem SaveInv.length_blocks (h : SaveInv files mem save) :
    save.blocks.length = save.header.blockCount := by
  rw [GCIFile.blocks, List.length_take]
  exact min_eq_left h.count

/-- The file is read where the data is not in memory. -/
def Readable (readable : Bool) (save : GCIFile) : Prop :=
  save.saveData = [] → save.blocks ≠ [] → readable = true

/-- After an access the data of the save is in memory, and a write marks it as dirty. -/
theorem SaveInv.access_eq (h : SaveInv files mem save) (hr : Readable readable save)
    (writing : Bool) :
    save.access files readable writing =
      { save with
        saveData := save.blocks.map mem.blockOf
        dirty := save.dirty || writing } := by
  have hloaded : (save.loadSaveBlocks files readable) =
      (true, { save with saveData := save.blocks.map mem.blockOf }) ∨
      save.blocks = [] ∧ save.loadSaveBlocks files readable = (false, save) ∧
        save.saveData = [] := by
    unfold GCIFile.loadSaveBlocks
    by_cases hempty : save.saveData = []
    · have hdirty : save.dirty = false := by
        by_contra hd
        exact h.dirty_loaded (by simpa using hd) hempty
      obtain ⟨file, hfile, hlen, hclean⟩ := h.file
      rw [hempty, List.isEmpty_nil, if_pos rfl, if_neg h.named, hfile]
      dsimp only
      by_cases hread : readable = true
      · rw [if_neg (by simp [hread, hlen]), hclean hdirty]
        exact Or.inl rfl
      · have hblocks : save.blocks = [] := by
          by_contra hne
          exact hread (hr hempty hne)
        rw [if_pos (Or.inl (by simpa using hread))]
        exact Or.inr ⟨hblocks, rfl, rfl⟩
    · rw [if_neg (by simpa using hempty), ← h.data.resolve_left hempty]
      exact Or.inl rfl
  unfold GCIFile.access
  rcases hloaded with hload | ⟨hblocks, hload, hempty⟩
  · rw [hload]
    cases writing <;> simp
  · have hcount : save.header.blockCount = 0 := by
      rw [← h.length_blocks, hblocks]
      rfl
    rw [hload, hblocks]
    cases writing <;> simp [hcount, hempty]

theorem SaveInv.access (h : SaveInv files mem save) (hr : Readable readable save)
    (hblocks : save.blocks ≠ []) : SaveInv files mem (save.access files readable writing) := by
  rw [h.access_eq hr writing]
  obtain ⟨file, hfile, hlen, hclean⟩ := h.file
  refine ⟨h.active, h.named, h.used, h.count, ⟨file, hfile, hlen, fun hdirty => hclean ?_⟩,
    Or.inr rfl, fun _ => ?_⟩
  · exact (Bool.or_eq_false_iff.mp hdirty).1
  · simpa using hblocks

theorem usesBlock_of_mem {block : ℕ} (hmem : block ∈ save.blocks) :
    ∃ index, save.usesBlock block = some index ∧ save.blocks[index]? = some block := by
  obtain ⟨k, hk, hblock⟩ := List.getElem_of_mem hmem
  unfold GCIFile.blocks at hk hblock ⊢
  rw [List.getElem_take] at hblock
  rw [List.length_take] at hk
  have hsome : (save.usesBlock block).isSome = true := by
    rw [GCIFile.usesBlock, List.findIdx?_isSome, List.any_eq_true]
    exact ⟨block, List.mem_of_mem_take hmem, beq_self_eq_true block⟩
  obtain ⟨index, hindex⟩ := Option.isSome_iff_exists.mp hsome
  refine ⟨index, hindex, ?_⟩
  obtain ⟨hlt, heq, hfirst⟩ := List.findIdx?_eq_some_iff_getElem.mp hindex
  have hle : index ≤ k := by
    by_contra hgt
    have := hfirst k (by omega)
    rw [hblock] at this
    simp at this
  rw [List.getElem?_take, if_pos (by omega), List.getElem?_eq_getElem hlt, eq_of_beq heq]

theorem usesBlock_eq_none {block : ℕ} (hmem : block ∉ save.usedBlocks) :
    save.usesBlock block = none := by
  rw [GCIFile.usesBlock, List.findIdx?_eq_none_iff]
  intro b hb
  rw [beq_eq_false_iff_ne]
  exact fun h => hmem (h ▸ hb)

variable (c readable writing) in
/-- The search finds the save of the block. -/
theorem findBlock_eq {block : ℕ} (hsaves : ∀ save ∈ saves, SaveInv files mem save)
    (hnodup : (saves.flatMap (·.usedBlocks)).Nodup)
    (howned : ∃ save ∈ saves, block ∈ save.blocks) :
    ∃ i index save, saves[i]? = some save ∧ save.blocks[index]? = some block ∧
      findBlock c files readable block writing saves =
        some (saves.set i (save.access files readable writing), some (i, index)) := by
  induction saves with
  | nil => simp at howned
  | cons save saves ih =>
    have hsave := hsaves save List.mem_cons_self
    have hused : save.usedBlocks.isEmpty = false := by simpa using hsave.used
    rw [List.flatMap_cons, List.nodup_append] at hnodup
    unfold findBlock
    rw [if_neg hsave.active, hused, if_neg Bool.false_ne_true, Option.bind_some]
    by_cases hmem : block ∈ save.blocks
    · obtain ⟨index, huses, hindex⟩ := usesBlock_of_mem hmem
      exact ⟨0, index, save, rfl, hindex, by rw [huses]; rfl⟩
    · obtain ⟨owner, howner, hblock⟩ := howned
      have hrest : owner ∈ saves := by
        rcases List.mem_cons.mp howner with rfl | h
        · exact absurd hblock hmem
        · exact h
      have hnot : block ∉ save.usedBlocks := fun h =>
        hnodup.2.2 block h block
          (List.mem_flatMap.mpr ⟨owner, hrest, List.mem_of_mem_take hblock⟩) rfl
      obtain ⟨i, index, found, hi, hindex, heq⟩ :=
        ih (fun s hs => hsaves s (List.mem_cons_of_mem _ hs)) hnodup.2.1 ⟨owner, hrest, hblock⟩
      refine ⟨i + 1, index, found, hi, hindex, ?_⟩
      rw [usesBlock_eq_none hnot, heq]
      rfl

/-! ## The folder -/

/-- The folder and the bytes of the card that the game has written. -/
structure World where
  folder : Folder
  memory : Memory

/-- What no access changes of a save. -/
def GCIFile.identity (save : GCIFile) : DEntry × Path × List ℕ :=
  (save.header, save.filename, save.usedBlocks)

/-- The saves are the same up to their data and marks. -/
def SameSaves (saves saves' : List GCIFile) : Prop :=
  saves'.map GCIFile.identity = saves.map GCIFile.identity

theorem blocks_of_identity {save' : GCIFile} (h : save'.identity = save.identity) :
    save'.blocks = save.blocks := by
  obtain ⟨hheader, -, hused⟩ : _ ∧ _ ∧ _ := by
    simpa only [GCIFile.identity, Prod.mk.injEq] using h
  rw [GCIFile.blocks, GCIFile.blocks, hheader, hused]

namespace SameSaves

variable {saves' saves'' : List GCIFile}

theorem set {i : ℕ} {save' : GCIFile} (hi : saves[i]? = some save)
    (h : save'.identity = save.identity) : SameSaves saves (saves.set i save') := by
  refine List.ext_getElem? fun j => ?_
  rw [List.getElem?_map, List.getElem?_map]
  by_cases hj : i = j
  · obtain rfl := hj
    have hlt := List.getElem?_eq_some_iff.mp hi
    rw [List.getElem?_set_self hlt.1, hi, Option.map_some, Option.map_some, h]
  · rw [List.getElem?_set_ne hj]

theorem trans (h : SameSaves saves saves') (h' : SameSaves saves' saves'') :
    SameSaves saves saves'' :=
  Eq.trans h' h

theorem getElem? (h : SameSaves saves saves') {i : ℕ} (hi : saves[i]? = some save) :
    ∃ save', saves'[i]? = some save' ∧ save'.identity = save.identity := by
  have heq := congrArg (·[i]?) h
  simp only [List.getElem?_map, hi, Option.map_some] at heq
  exact Option.map_eq_some_iff.mp heq

theorem filenames (h : SameSaves saves saves') :
    saves'.map (·.filename) = saves.map (·.filename) := by
  have heq := congrArg (List.map fun i : DEntry × Path × List ℕ => i.2.1) h
  rw [List.map_map, List.map_map] at heq
  exact heq

theorem usedBlocks (h : SameSaves saves saves') :
    saves'.flatMap (·.usedBlocks) = saves.flatMap (·.usedBlocks) := by
  have heq := congrArg (List.flatMap fun i : DEntry × Path × List ℕ => i.2.2) h
  rw [List.flatMap_map, List.flatMap_map] at heq
  exact heq

end SameSaves

/-- The block belongs to a save. -/
def Owned (saves : List GCIFile) (block : ℕ) : Prop :=
  mcFstBlocks ≤ block ∧ ∃ save ∈ saves, block ∈ save.blocks

instance (saves : List GCIFile) (block : ℕ) : Decidable (Owned saves block) :=
  inferInstanceAs (Decidable (_ ∧ _))

theorem Owned.sameSaves {saves' : List GCIFile} {block : ℕ} (h : Owned saves block)
    (hsame : SameSaves saves saves') : Owned saves' block := by
  obtain ⟨hge, save, hsave, hblock⟩ := h
  obtain ⟨i, hi⟩ := List.mem_iff_getElem?.mp hsave
  obtain ⟨save', hi', hid⟩ := hsame.getElem? hi
  exact ⟨hge, save', List.mem_of_getElem? hi', blocks_of_identity hid ▸ hblock⟩

/-- The cached block is where the pointer points to. -/
def Cached (s : Folder) : Prop :=
  ∀ block, s.lastBlock = some block → mcFstBlocks ≤ block → ∃ i index save,
    s.lastBlockAddress = .saveData i index ∧ s.saves[i]? = some save ∧
      save.blocks[index]? = some block

structure Inv (w : World) : Prop where
  saves : ∀ save ∈ w.folder.saves, SaveInv w.folder.files w.memory save
  names : (w.folder.saves.map (·.filename)).Nodup
  nodup : (w.folder.saves.flatMap (·.usedBlocks)).Nodup
  cached : Cached w.folder

/-- The files of the saves that are not loaded can be read. -/
def AllReadable (readable : Bool) (s : Folder) : Prop := ∀ save ∈ s.saves, Readable readable save

variable {s s' : Folder} {w : World}

/-- The pointer points to the data of a block, and the save is marked if `dirty`. -/
def PointsTo (s : Folder) (block : ℕ) (dirty : Bool) : Prop :=
  ∃ i index save, s.lastBlockAddress = .saveData i index ∧ s.saves[i]? = some save ∧
    save.blocks[index]? = some block ∧ save.saveData ≠ [] ∧ (dirty = true → save.dirty = true)

theorem Cached.of_sameSaves (h : Cached s) (hsame : SameSaves s.saves s'.saves)
    (hlast : s'.lastBlock = s.lastBlock) (haddr : s'.lastBlockAddress = s.lastBlockAddress) :
    Cached s' := by
  intro block hb hge
  obtain ⟨i, index, save, hpoint, hi, hindex⟩ := h block (hlast ▸ hb) hge
  obtain ⟨save', hi', hid⟩ := hsame.getElem? hi
  exact ⟨i, index, save', haddr.trans hpoint, hi', blocks_of_identity hid ▸ hindex⟩

/-- **`SaveAreaRW` on a block of a save** loads its data and marks it for a write. -/
theorem Inv.saveAreaRW {block : ℕ} (h : Inv w) (hr : AllReadable readable w.folder)
    (howned : Owned w.folder.saves block) (c : Card) (writing : Bool) :
    ∃ s', w.folder.saveAreaRW c readable block writing = some (s', true) ∧ Inv ⟨s', w.memory⟩ ∧
      SameSaves w.folder.saves s'.saves ∧ AllReadable readable s' ∧ s'.lastBlock = some block ∧
      PointsTo s' block writing := by
  obtain ⟨i, index, save, hi, hindex, hfind⟩ :=
    findBlock_eq c readable writing h.saves h.nodup howned.2
  have hmem := List.mem_of_getElem? hi
  have hsave := h.saves save hmem
  have hblocks : save.blocks ≠ [] := fun hnil => by simp [hnil] at hindex
  have haccess := hsave.access_eq (hr save hmem) writing
  have hid : (save.access w.folder.files readable writing).identity = save.identity := by
    rw [haccess]
    rfl
  have hsame := SameSaves.set hi hid
  have hdata : (save.access w.folder.files readable writing).saveData ≠ [] := by
    rw [haccess]
    simpa using hblocks
  have hi' : (w.folder.saves.set i (save.access w.folder.files readable writing))[i]? =
      some (save.access w.folder.files readable writing) :=
    List.getElem?_set_self (List.getElem?_eq_some_iff.mp hi).1
  refine ⟨_, by rw [Folder.saveAreaRW, hfind]; rfl, ⟨?_, ?_, ?_, ?_⟩, hsame, ?_, rfl, ?_⟩
  · intro save' hsave'
    rcases List.mem_or_eq_of_mem_set hsave' with hold | rfl
    · exact h.saves save' hold
    · exact hsave.access (hr save hmem) hblocks
  · exact hsame.filenames ▸ h.names
  · exact hsame.usedBlocks ▸ h.nodup
  · intro b hb _
    obtain rfl : block = b := Option.some_inj.mp hb
    exact ⟨i, index, _, rfl, hi', blocks_of_identity hid ▸ hindex⟩
  · intro save' hsave' hempty
    rcases List.mem_or_eq_of_mem_set hsave' with hold | rfl
    · exact hr save' hold hempty
    · exact absurd hempty hdata
  · refine ⟨i, index, _, rfl, hi', blocks_of_identity hid ▸ hindex, hdata, fun hw => ?_⟩
    rw [haccess, hw]
    exact Bool.or_true _

theorem Inv.block_unique (h : Inv w) {i j index k block : ℕ} {save save' : GCIFile}
    (hi : w.folder.saves[i]? = some save) (hindex : save.blocks[index]? = some block)
    (hj : w.folder.saves[j]? = some save') (hk : save'.blocks[k]? = some block) :
    i = j ∧ index = k := by
  obtain ⟨heach, hpair⟩ := List.nodup_flatMap.mp h.nodup
  have hused : ∀ {save : GCIFile} {k : ℕ}, save.blocks[k]? = some block →
      block ∈ save.usedBlocks := fun h => List.mem_of_mem_take (List.mem_of_getElem? h)
  obtain ⟨hilt, rfl⟩ := List.getElem?_eq_some_iff.mp hi
  obtain ⟨hjlt, rfl⟩ := List.getElem?_eq_some_iff.mp hj
  have hij : i = j := by
    rcases Nat.lt_trichotomy i j with hlt | heq | hlt
    · exact absurd (hused hk) (List.pairwise_iff_getElem.mp hpair i j hilt hjlt hlt (hused hindex))
    · exact heq
    · exact absurd (hused hindex) (List.pairwise_iff_getElem.mp hpair j i hjlt hilt hlt (hused hk))
  subst hij
  have hnodup : (w.folder.saves[i]).blocks.Nodup :=
    (heach _ (List.getElem_mem hilt)).sublist (List.take_sublist _ _)
  exact ⟨rfl, (List.getElem?_inj (List.getElem?_eq_some_iff.mp hindex).1 hnodup).mp
    (hindex.trans hk.symm)⟩

/-- **The copy of `Write`** changes the bytes of the card, if the save is marked or has them already. -/
theorem Inv.store (address : ℕ) (bytes : List Byte) {i index : ℕ} (h : Inv w)
    (haddr : w.folder.lastBlockAddress = .saveData i index)
    (hi : w.folder.saves[i]? = some save) (hindex : save.blocks[index]? = some (address / blockSize))
    (hloaded : save.saveData ≠ [])
    (hdirty : save.dirty = true ∨ (w.memory.blockOf (address / blockSize)).copy
      (address % blockSize) bytes = w.memory.blockOf (address / blockSize))
    (hfit : address % blockSize + bytes.length ≤ blockSize) :
    ∃ s', w.folder.store (address % blockSize) bytes = some s' ∧
      Inv ⟨s', w.memory.copy address bytes⟩ ∧ SameSaves w.folder.saves s'.saves ∧
      (∀ readable, AllReadable readable w.folder → AllReadable readable s') ∧
      s'.lastBlock = w.folder.lastBlock := by
  have hsave := h.saves save (List.mem_of_getElem? hi)
  have hdata := hsave.data.resolve_left hloaded
  let stored : GCIFile := { save with
    saveData := save.saveData.modify index fun block => block.copy (address % blockSize) bytes }
  have hmodify : (w.folder.saves.modify i fun save => { save with
      saveData := save.saveData.modify index fun block =>
        block.copy (address % blockSize) bytes }) = w.folder.saves.set i stored := by
    obtain ⟨hlt, heq⟩ := List.getElem?_eq_some_iff.mp hi
    rw [List.modify_eq_set_getElem?, hi]
    rfl
  have hsame : SameSaves w.folder.saves (w.folder.saves.set i stored) := SameSaves.set hi rfl
  have hi' : (w.folder.saves.set i stored)[i]? = some stored :=
    List.getElem?_set_self (List.getElem?_eq_some_iff.mp hi).1
  -- the data of the save changes at `index`, as its bytes of the card do
  have hnew : stored.saveData = save.blocks.map (w.memory.copy address bytes).blockOf := by
    refine List.ext_getElem? fun k => ?_
    show (save.saveData.modify index _)[k]? = _
    rw [List.getElem?_modify, hdata, List.getElem?_map, List.getElem?_map]
    cases hk : save.blocks[k]? with
    | none => rfl
    | some block =>
      by_cases hkindex : index = k
      · have hblock : block = address / blockSize := by
          rw [← hkindex, hindex] at hk
          exact (Option.some_inj.mp hk).symm
        rw [hblock, Option.map_some, Option.map_some, Option.map_eq_map, Option.map_some,
          if_pos hkindex, blockOf_copy]
      · have hne : block ≠ address / blockSize := fun heq =>
          hkindex (h.block_unique hi hindex hi (heq ▸ hk)).2
        rw [Option.map_some, Option.map_some, Option.map_eq_map, Option.map_some, if_neg hkindex,
          blockOf_copy_of_ne hfit hne]
  -- the other saves have none of the written bytes
  have hother : ∀ j save', w.folder.saves[j]? = some save' → j ≠ i →
      save'.blocks.map (w.memory.copy address bytes).blockOf =
        save'.blocks.map w.memory.blockOf := by
    intro j save' hj hne
    refine List.map_congr_left fun block hblock => blockOf_copy_of_ne hfit fun heq => hne ?_
    obtain ⟨k, hk⟩ := List.mem_iff_getElem?.mp hblock
    exact (h.block_unique hj hk hi (heq ▸ hindex)).1
  refine ⟨{ w.folder with saves := w.folder.saves.set i stored }, ?_, ⟨?_, ?_, ?_, ?_⟩, hsame, ?_,
    rfl⟩
  · rw [Folder.store, haddr]
    dsimp only
    rw [hmodify, haddr]
  · intro save' hsave'
    obtain ⟨j, hj⟩ := List.mem_iff_getElem?.mp hsave'
    by_cases hji : j = i
    · subst hji
      obtain rfl : stored = save' := Option.some_inj.mp (hi'.symm.trans hj)
      obtain ⟨file, hfile, hlen, hclean⟩ := hsave.file
      refine ⟨hsave.active, hsave.named, hsave.used, hsave.count, ⟨file, hfile, hlen, fun hd => ?_⟩,
        Or.inr hnew, fun _ => ?_⟩
      · have hd' : save.dirty = false := hd
        rw [hclean hd']
        refine List.map_congr_left fun block hblock => ?_
        by_cases heq : block = address / blockSize
        · have hkept := hdirty.resolve_left (by simp [hd'])
          rw [heq, blockOf_copy, hkept]
        · exact (blockOf_copy_of_ne hfit heq).symm
      · rw [hnew]
        intro hnil
        rw [List.map_eq_nil_iff] at hnil
        rw [hnil] at hindex
        cases hindex
    · have hj' : w.folder.saves[j]? = some save' := by
        rwa [List.getElem?_set_ne (Ne.symm hji)] at hj
      have hold := h.saves save' (List.mem_of_getElem? hj')
      obtain ⟨file, hfile, hlen, hclean⟩ := hold.file
      have hsameBytes := hother j save' hj' hji
      refine ⟨hold.active, hold.named, hold.used, hold.count, ⟨file, hfile, hlen, fun hd => ?_⟩, ?_,
        hold.dirty_loaded⟩
      · exact (hclean hd).trans hsameBytes.symm
      · rw [hsameBytes]
        exact hold.data
  · exact hsame.filenames ▸ h.names
  · exact hsame.usedBlocks ▸ h.nodup
  · exact h.cached.of_sameSaves hsame rfl rfl
  · intro readable hr save' hsave' hempty
    rcases List.mem_or_eq_of_mem_set hsave' with hold | rfl
    · exact hr save' hold hempty
    · refine absurd ?_ hloaded
      have hlen := congrArg List.length hempty
      rw [List.length_modify] at hlen
      exact List.length_eq_zero_iff.mp hlen

/-! ## Accesses -/

/-- A write to the cached block finds the data of its save loaded, and the save marked or the bytes
already there. -/
def Kept (s : Folder) (address : ℕ) (bytes : List Byte) : Prop :=
  match s.lastBlockAddress with
  | .saveData i index => ∃ save ∈ s.saves[i]?, ∃ block ∈ save.saveData[index]?,
      save.dirty = true ∨ block.copy (address % blockSize) bytes = block
  | .null | .system _ => False

/-- The part of a write that lies in its first block. -/
def firstBytes (address : ℕ) (bytes : List Byte) : List Byte :=
  bytes.take (blockSize - address % blockSize)

theorem mod_blockSize_lt (address : ℕ) : address % blockSize < blockSize :=
  Nat.mod_lt _ (by decide)

theorem Inv.writeWithin {address : ℕ} {bytes : List Byte} (h : Inv w)
    (hr : AllReadable readable w.folder) (howned : Owned w.folder.saves (address / blockSize))
    (hkept : w.folder.lastBlock = some (address / blockSize) → Kept w.folder address bytes)
    (hfit : address % blockSize + bytes.length ≤ blockSize) :
    ∃ s', w.folder.writeWithin c readable address bytes = some s' ∧
      Inv ⟨s', w.memory.copy address bytes⟩ ∧ SameSaves w.folder.saves s'.saves ∧
      AllReadable readable s' ∧ s'.lastBlock = some (address / blockSize) := by
  unfold Folder.writeWithin
  dsimp only
  rw [if_neg (Nat.not_lt.mpr howned.1)]
  by_cases hlast : w.folder.lastBlock = some (address / blockSize)
  · obtain ⟨i, index, save, haddr, hi, hindex⟩ := h.cached _ hlast howned.1
    have hk := hkept hlast
    rw [Kept, haddr] at hk
    obtain ⟨save', hi', block, hblock, hdirty⟩ := hk
    obtain rfl : save = save' := Option.some_inj.mp (hi.symm.trans hi')
    have hsave := h.saves save (List.mem_of_getElem? hi)
    have hloaded : save.saveData ≠ [] := fun hnil => by
      rw [hnil] at hblock
      cases hblock
    have hbytes : block = w.memory.blockOf (address / blockSize) := by
      rw [hsave.data.resolve_left hloaded, List.getElem?_map, hindex] at hblock
      exact (Option.some_inj.mp hblock).symm
    obtain ⟨s', hs', hinv, hsame, hr', hlast'⟩ :=
      h.store _ _ haddr hi hindex hloaded (hbytes ▸ hdirty) hfit
    rw [if_pos hlast]
    exact ⟨s', hs', hinv, hsame, hr' readable hr, hlast'.trans hlast⟩
  · obtain ⟨s₁, hs₁, hinv₁, hsame₁, hr₁, hlast₁, i, index, save, haddr, hi, hindex, hloaded, hdirty⟩ :=
      h.saveAreaRW hr howned c true
    obtain ⟨s', hs', hinv, hsame, hr', hlast'⟩ :=
      hinv₁.store _ _ haddr hi hindex hloaded (Or.inl (hdirty rfl)) hfit
    rw [if_neg hlast, hs₁]
    exact ⟨s', hs', hinv, hsame₁.trans hsame, hr' readable hr₁, hlast'.trans hlast₁⟩

/-- The blocks that an access touches belong to saves. -/
def Touches (saves : List GCIFile) (address length : ℕ) : Prop :=
  ∀ k ≤ (address % blockSize + length - 1) / blockSize, Owned saves (address / blockSize + k)

instance (saves : List GCIFile) (address length : ℕ) : Decidable (Touches saves address length) :=
  Nat.decidableBallLE _ _

theorem Touches.first {address length : ℕ} (h : Touches saves address length) :
    Owned saves (address / blockSize) :=
  h 0 (Nat.zero_le _)

theorem next_block (address : ℕ) :
    (address + (blockSize - address % blockSize)) / blockSize = address / blockSize + 1 ∧
      (address + (blockSize - address % blockSize)) % blockSize = 0 := by
  have hlt := mod_blockSize_lt address
  have hdiv := Nat.div_add_mod' address blockSize
  have hnext : address + (blockSize - address % blockSize) =
      (address / blockSize + 1) * blockSize := by
    rw [Nat.add_mul]
    omega
  rw [hnext]
  exact ⟨Nat.mul_div_cancel _ (by decide), Nat.mul_mod_left _ _⟩

/-- The rest of an access after its first block. -/
theorem Touches.rest {address length : ℕ} (h : Touches saves address length)
    (hlong : blockSize < address % blockSize + length) :
    Touches saves (address + (blockSize - address % blockSize))
      (length - (blockSize - address % blockSize)) := by
  intro k hk
  have hlt := mod_blockSize_lt address
  obtain ⟨hdiv, hmod⟩ := next_block address
  rw [hmod] at hk
  rw [hdiv, Nat.add_assoc, Nat.add_comm 1 k]
  refine h (k + 1) ?_
  rw [Nat.le_div_iff_mul_le (by decide)] at hk ⊢
  rw [Nat.add_mul]
  omega

/-- **`Write`** changes the bytes of the card, over all the blocks it touches. -/
theorem Inv.write {address : ℕ} {bytes : List Byte} (h : Inv w)
    (hr : AllReadable readable w.folder) (htouch : Touches w.folder.saves address bytes.length)
    (hkept : w.folder.lastBlock = some (address / blockSize) →
      Kept w.folder address (firstBytes address bytes)) :
    ∃ s', w.folder.write c readable address bytes = some s' ∧
      Inv ⟨s', w.memory.copy address bytes⟩ := by
  induction hn : bytes.length using Nat.strong_induction_on generalizing w address bytes with
  | _ n ih =>
    have hlt := mod_blockSize_lt address
    unfold Folder.write
    by_cases hlong : blockSize < address % blockSize + bytes.length
    · have hlen : (firstBytes address bytes).length = blockSize - address % blockSize := by
        rw [firstBytes, List.length_take]
        omega
      obtain ⟨s₁, hs₁, hinv₁, hsame, hr₁, hlast⟩ :=
        h.writeWithin (c := c) hr htouch.first hkept (by omega)
      have hrest : Touches s₁.saves (address + (blockSize - address % blockSize))
          (bytes.drop (blockSize - address % blockSize)).length := by
        rw [List.length_drop]
        exact fun k hk => (htouch.rest hlong k hk).sameSaves hsame
      have hnext : s₁.lastBlock ≠ some ((address + (blockSize - address % blockSize)) / blockSize) := by
        rw [hlast, (next_block address).1]
        simp
      obtain ⟨s', hs', hinv⟩ := ih _ (by rw [List.length_drop]; omega) hinv₁ hr₁ hrest
        (fun heq => absurd heq hnext) rfl
      refine ⟨s', ?_, ?_⟩
      · rw [dif_pos hlong]
        exact Option.bind_eq_some_iff.mpr ⟨s₁, hs₁, hs'⟩
      · have happend := copy_append w.memory address
          (firstBytes address bytes) (bytes.drop (blockSize - address % blockSize))
        rw [firstBytes, List.take_append_drop] at happend
        rw [happend, ← firstBytes, hlen]
        exact hinv
    · have hfirst : firstBytes address bytes = bytes :=
        List.take_of_length_le (by omega)
      rw [hfirst] at hkept
      obtain ⟨s', hs', hinv, -⟩ := h.writeWithin (c := c) hr htouch.first hkept (by omega)
      rw [dif_neg hlong]
      exact ⟨s', hs', hinv⟩

theorem Inv.locate {block : ℕ} (h : Inv w) (hr : AllReadable readable w.folder)
    (howned : Owned w.folder.saves block) :
    ∃ s', w.folder.locate c readable block = some (s', true) ∧ Inv ⟨s', w.memory⟩ ∧
      SameSaves w.folder.saves s'.saves ∧ AllReadable readable s' := by
  unfold Folder.locate
  by_cases hlast : w.folder.lastBlock = some block
  · rw [if_pos hlast]
    exact ⟨w.folder, rfl, h, rfl, hr⟩
  · have hge : 5 ≤ block := howned.1
    rw [if_neg hlast, if_neg (by omega), if_neg (Nat.not_lt.mpr howned.1)]
    obtain ⟨s', hs', hinv, hsame, hr', -⟩ := h.saveAreaRW hr howned c false
    exact ⟨s', hs', hinv, hsame, hr'⟩

theorem Inv.read {address length : ℕ} (h : Inv w) (hr : AllReadable readable w.folder)
    (htouch : Touches w.folder.saves address length) :
    ∃ s' r, w.folder.read c readable address length = some (s', r) ∧ Inv ⟨s', w.memory⟩ := by
  induction hn : length using Nat.strong_induction_on generalizing w address length with
  | _ n ih =>
    subst hn
    have hlt := mod_blockSize_lt address
    obtain ⟨s₁, hs₁, hinv₁, hsame, hr₁⟩ := h.locate (c := c) hr htouch.first
    unfold Folder.read
    rw [hs₁, Option.bind_some]
    dsimp only
    rw [if_neg (by simp)]
    by_cases hlong : blockSize < address % blockSize + length
    · have hmin : min length (blockSize - address % blockSize) =
          blockSize - address % blockSize := by omega
      rw [dif_pos hlong, hmin]
      obtain ⟨s', r, hs', hinv⟩ := ih _ (by omega) hinv₁ hr₁
        (fun k hk => (htouch.rest hlong k hk).sameSaves hsame) rfl
      rw [hs']
      exact ⟨s', _, rfl, hinv⟩
    · rw [dif_neg hlong]
      exact ⟨s₁, _, rfl, hinv₁⟩

theorem Inv.clearBlock {address : ℕ} (h : Inv w) (hr : AllReadable readable w.folder)
    (howned : Owned w.folder.saves (address / blockSize)) :
    ∃ s', w.folder.clearBlock c readable address = some s' ∧
      Inv ⟨s', if address % blockSize ≠ 0 then w.memory
        else w.memory.copy address (List.replicate blockSize 0xFF)⟩ := by
  unfold Folder.clearBlock
  by_cases haligned : address % blockSize ≠ 0
  · rw [if_pos haligned, if_pos haligned]
    exact ⟨w.folder, rfl, h⟩
  · have hzero : address % blockSize = 0 := not_not.mp haligned
    rw [if_neg haligned, if_neg haligned, if_neg (Nat.not_lt.mpr howned.1)]
    obtain ⟨s₁, hs₁, hinv₁, -, -, -, i, index, save, haddr, hi, hindex, hloaded, hdirty⟩ :=
      h.saveAreaRW hr howned c true
    obtain ⟨s', hs', hinv, -⟩ := hinv₁.store address
      (List.replicate blockSize 0xFF) haddr hi hindex hloaded (Or.inl (hdirty rfl))
      (by rw [hzero, List.length_replicate]; omega)
    rw [hzero] at hs'
    rw [hs₁]
    exact ⟨s', hs', hinv⟩

/-! ## Flushes -/

theorem SaveInv.congr {files' : Files} (h : SaveInv files mem save)
    (hfile : files' save.filename = files save.filename) : SaveInv files' mem save :=
  ⟨h.active, h.named, h.used, h.count, hfile ▸ h.file, h.data, h.dirty_loaded⟩

theorem SaveInv.unload (h : SaveInv files mem save) (hclean : save.dirty = false) :
    SaveInv files mem (save.unload c) ∧ (save.unload c).dirty = false ∧
      (save.unload c).identity = save.identity := by
  unfold GCIFile.unload
  split
  · exact ⟨⟨h.active, h.named, h.used, h.count, h.file, Or.inl rfl,
      fun hd => absurd (hclean.symm.trans hd) Bool.false_ne_true⟩, hclean, rfl⟩
  · exact ⟨h, hclean, rfl⟩

/-- A flushed save has its bytes in the file and is not marked. -/
theorem SaveInv.flush {host : Path → HostWrite} (h : SaveInv files mem save)
    (hhost : save.dirty = true → host save.filename = .good) :
    SaveInv (save.flush c host files).1 mem (save.flush c host files).2 ∧
      (save.flush c host files).2.dirty = false ∧
      (save.flush c host files).2.identity = save.identity ∧
      ∀ path ≠ save.filename, (save.flush c host files).1 path = files path := by
  unfold GCIFile.flush
  cases hdirty : save.dirty with
  | false =>
    obtain ⟨hinv, hclean, hid⟩ := h.unload (c := c) hdirty
    exact ⟨hinv, hclean, hid, fun _ _ => rfl⟩
  | true =>
    have hloaded := h.dirty_loaded hdirty
    have hdata := h.data.resolve_left hloaded
    have hempty : save.saveData.isEmpty = false := by simpa using hloaded
    rw [if_pos rfl, if_pos h.active, hempty, if_neg Bool.false_ne_true, if_neg h.named]
    dsimp only
    let written : GCIFile := { save with dirty := false }
    have hwrite : written.writeFile host files =
        Function.update files save.filename (some ⟨save.header, save.saveData⟩) := by
      have hgood : host written.filename = .good := hhost hdirty
      unfold GCIFile.writeFile
      rw [hgood]
    have hwritten : SaveInv (written.writeFile host files) mem written := by
      refine ⟨h.active, h.named, h.used, h.count, ⟨⟨save.header, save.saveData⟩, ?_, ?_, fun _ => hdata⟩,
        h.data, fun hd => absurd hd Bool.false_ne_true⟩
      · rw [hwrite]
        exact Function.update_self _ _ _
      · show save.saveData.length = save.header.blockCount
        rw [hdata, List.length_map, h.length_blocks]
    obtain ⟨hinv, hclean, hid⟩ := hwritten.unload (c := c) rfl
    refine ⟨hinv, hclean, hid, fun path hne => ?_⟩
    show written.writeFile host files path = files path
    rw [hwrite, Function.update_of_ne hne]

theorem flushSaves_spec {host : Path → HostWrite} (hsaves : ∀ save ∈ saves, SaveInv files mem save)
    (hnames : (saves.map (·.filename)).Nodup)
    (hhost : ∀ save ∈ saves, save.dirty = true → host save.filename = .good) :
    (∀ save ∈ (flushSaves c host files saves).2,
      SaveInv (flushSaves c host files saves).1 mem save ∧ save.dirty = false) ∧
      SameSaves saves (flushSaves c host files saves).2 ∧
      ∀ path ∉ saves.map (·.filename), (flushSaves c host files saves).1 path = files path := by
  induction saves generalizing files with
  | nil => exact ⟨fun _ h => absurd h List.not_mem_nil, rfl, fun _ _ => rfl⟩
  | cons save saves ih =>
    rw [List.map_cons, List.nodup_cons] at hnames
    obtain ⟨hflush, hclean, hid, hframe⟩ := (hsaves save List.mem_cons_self).flush (c := c)
      (hhost save List.mem_cons_self)
    have hothers : ∀ other ∈ saves, SaveInv (save.flush c host files).1 mem other := by
      intro other hother
      refine (hsaves other (List.mem_cons_of_mem _ hother)).congr (hframe _ fun heq => ?_)
      exact hnames.1 (heq ▸ List.mem_map_of_mem hother)
    obtain ⟨hrest, hsame, hrestFrame⟩ := ih hothers hnames.2
      fun other hother => hhost other (List.mem_cons_of_mem _ hother)
    have hname : (save.flush c host files).2.filename = save.filename :=
      congrArg (fun i : DEntry × Path × List ℕ => i.2.1) hid
    refine ⟨fun other hother => ?_, ?_, fun path hpath => ?_⟩
    · rcases List.mem_cons.mp hother with rfl | hother
      · exact ⟨hflush.congr (hrestFrame _ (hname ▸ hnames.1)), hclean⟩
      · exact hrest other hother
    · exact List.cons_eq_cons.mpr ⟨hid, hsame⟩
    · rw [List.map_cons, List.mem_cons, not_or] at hpath
      exact (hrestFrame path hpath.2).trans (hframe path hpath.1)

theorem Inv.flushToFile {host : Path → HostWrite} (h : Inv w)
    (hhost : ∀ save ∈ w.folder.saves, save.dirty = true → host save.filename = .good) :
    Inv ⟨w.folder.flushToFile c host, w.memory⟩ ∧
      ∀ save ∈ (w.folder.flushToFile c host).saves, save.dirty = false := by
  obtain ⟨hsaves, hsame, -⟩ := flushSaves_spec (c := c) h.saves h.names hhost
  refine ⟨⟨fun save hsave => (hsaves save hsave).1, ?_, ?_, ?_⟩,
    fun save hsave => (hsaves save hsave).2⟩
  · exact hsame.filenames ▸ h.names
  · exact hsame.usedBlocks ▸ h.nodup
  · exact h.cached.of_sameSaves hsame rfl rfl

/-! ## Runs -/

inductive Action where
  /-- `readable` tells that the host opens and reads the file that is accessed. -/
  | read (readable : Bool) (address length : ℕ)
  | write (readable : Bool) (address : ℕ) (bytes : List Byte)
  | clearBlock (readable : Bool) (address : ℕ)
  | flushToFile (host : Path → HostWrite)

/-- The accesses touch blocks of the loaded saves only. -/
def Possible (s : Folder) : Action → Prop
  | .read _ address length => Touches s.saves address length
  | .write _ address bytes => Touches s.saves address bytes.length
  | .clearBlock _ address => Owned s.saves (address / blockSize)
  | .flushToFile _ => True

instance (s : Folder) (a : Action) : Decidable (Possible s a) :=
  match a with
  | .read _ address length => inferInstanceAs (Decidable (Touches s.saves address length))
  | .write _ address bytes => inferInstanceAs (Decidable (Touches s.saves address bytes.length))
  | .clearBlock _ address => inferInstanceAs (Decidable (Owned s.saves (address / blockSize)))
  | .flushToFile _ => instDecidableTrue

/-- The step of an action, with the bytes that the game has put on the card. -/
def step (c : Card) (w : World) (a : Action) : Option World :=
  if Possible w.folder a then
    match a with
    | .read readable address length =>
      (w.folder.read c readable address length).map fun r => ⟨r.1, w.memory⟩
    | .write readable address bytes =>
      (w.folder.write c readable address bytes).map fun s => ⟨s, w.memory.copy address bytes⟩
    | .clearBlock readable address =>
      (w.folder.clearBlock c readable address).map fun s =>
        ⟨s, if address % blockSize ≠ 0 then w.memory
          else w.memory.copy address (List.replicate blockSize 0xFF)⟩
    | .flushToFile host => some ⟨w.folder.flushToFile c host, w.memory⟩
  else none

/-- A write whose first block is the cached one finds the save loaded and marked, or its bytes already
there; the host reads the files of the saves that are not loaded and writes those of the marked ones. -/
def Recorded (w : World) : Action → Prop
  | .read readable _ _ | .clearBlock readable _ => AllReadable readable w.folder
  | .write readable address bytes =>
    AllReadable readable w.folder ∧ (w.folder.lastBlock = some (address / blockSize) →
      Kept w.folder address (firstBytes address bytes))
  | .flushToFile host => ∀ save ∈ w.folder.saves, save.dirty = true → host save.filename = .good

/-- The folder after the construction, if loading changed no data: the saves are in memory and in their
files, in blocks of their own. -/
structure Loaded (w : World) : Prop where
  lastBlock : w.folder.lastBlock = none
  saves : ∀ save ∈ w.folder.saves, save.header.gamecode ≠ uninitializedGamecode ∧
    save.filename ≠ [] ∧ save.usedBlocks ≠ [] ∧
    save.header.blockCount ≤ save.usedBlocks.length ∧ save.dirty = false ∧
    save.saveData = save.blocks.map w.memory.blockOf ∧
    ∃ file, w.folder.files save.filename = some file ∧ file.blocks = save.saveData
  names : (w.folder.saves.map (·.filename)).Nodup
  nodup : (w.folder.saves.flatMap (·.usedBlocks)).Nodup

theorem Loaded.inv (h : Loaded w) : Inv w := by
  refine ⟨fun save hsave => ?_, h.names, h.nodup, fun block hb => ?_⟩
  · obtain ⟨hactive, hnamed, hused, hcount, hclean, hdata, file, hfile, hblocks⟩ := h.saves save hsave
    refine ⟨hactive, hnamed, hused, hcount, ⟨file, hfile, ?_, fun _ => hblocks.trans hdata⟩,
      Or.inr hdata, fun hd => absurd (hclean.symm.trans hd) Bool.false_ne_true⟩
    rw [hblocks, hdata, List.length_map, GCIFile.blocks, List.length_take]
    exact min_eq_left hcount
  · rw [h.lastBlock] at hb
    cases hb

theorem Inv.step {a : Action} (h : Inv w) (hpossible : Possible w.folder a)
    (hrecorded : Recorded w a) : ∃ w', Memcard.step c w a = some w' ∧ Inv w' := by
  unfold Memcard.step
  rw [if_pos hpossible]
  cases a with
  | read readable address length =>
    obtain ⟨s', r, hs', hinv⟩ := h.read (c := c) hrecorded hpossible
    dsimp only
    rw [hs']
    exact ⟨_, rfl, hinv⟩
  | write readable address bytes =>
    obtain ⟨s', hs', hinv⟩ := h.write (c := c) hrecorded.1 hpossible hrecorded.2
    dsimp only
    rw [hs']
    exact ⟨_, rfl, hinv⟩
  | clearBlock readable address =>
    obtain ⟨s', hs', hinv⟩ := h.clearBlock (c := c) hrecorded hpossible
    dsimp only
    rw [hs']
    exact ⟨_, rfl, hinv⟩
  | flushToFile host => exact ⟨_, rfl, (h.flushToFile hrecorded).1⟩

/-- **No written byte is dropped.** In a run of recorded accesses
* a save whose data differs from its file is marked as dirty;
* the file of a save that is not marked has the bytes of the card;
* after a flush every file has them;
* no access of a block of a save ends the emulator. -/
theorem written_bytes_kept {w₀ : World} (h₀ : Loaded w₀) (hr : Reach (step c) Recorded w₀ w) :
    (∀ save ∈ w.folder.saves, ∀ file, w.folder.files save.filename = some file →
      save.saveData ≠ [] → save.saveData ≠ file.blocks → save.dirty = true) ∧
    (∀ save ∈ w.folder.saves, save.dirty = false →
      ∃ file, w.folder.files save.filename = some file ∧
        file.blocks = save.blocks.map w.memory.blockOf) ∧
    (∀ host w', Recorded w (.flushToFile host) → step c w (.flushToFile host) = some w' →
      ∀ save ∈ w'.folder.saves, ∃ file, w'.folder.files save.filename = some file ∧
        file.blocks = save.blocks.map w.memory.blockOf) ∧
    ∀ a, Possible w.folder a → Recorded w a → (step c w a).isSome := by
  have hinv : Inv w := by
    refine hr.invariant (P := Inv) h₀.inv fun w a w' h hrecorded hs => ?_
    have hpossible := (Option.ite_none_right_eq_some.mp hs).1
    obtain ⟨w₁, hs₁, hinv⟩ := h.step (c := c) hpossible hrecorded
    rw [hs] at hs₁
    cases hs₁
    exact hinv
  have hclean : ∀ {w : World}, Inv w → ∀ save ∈ w.folder.saves, save.dirty = false →
      ∃ file, w.folder.files save.filename = some file ∧
        file.blocks = save.blocks.map w.memory.blockOf := by
    intro w h save hsave hdirty
    obtain ⟨file, hfile, -, hblocks⟩ := (h.saves save hsave).file
    exact ⟨file, hfile, hblocks hdirty⟩
  refine ⟨fun save hsave file hfile hloaded hdiffer => ?_, hclean hinv, ?_, ?_⟩
  · by_contra hdirty
    obtain ⟨file', hfile', hblocks⟩ := hclean hinv save hsave (by simpa using hdirty)
    rw [hfile] at hfile'
    cases hfile'
    exact hdiffer (((hinv.saves save hsave).data.resolve_left hloaded).trans hblocks.symm)
  · intro host w' hrecorded hs save hsave
    obtain ⟨hflushed, hmarks⟩ := hinv.flushToFile (c := c) hrecorded
    obtain rfl : (⟨w.folder.flushToFile c host, w.memory⟩ : World) = w' := Option.some_inj.mp hs
    exact hclean hflushed save hsave (hmarks save hsave)
  · intro a hpossible hrecorded
    obtain ⟨w', hs', -⟩ := hinv.step (c := c) hpossible hrecorded
    rw [hs']
    rfl

/-- A card with one save of the running game in block 5, all of whose bytes are 0. -/
def zeroSave : GCIFile := ⟨⟨0x47414D45, 5, 1⟩, [fun _ => 0], [5], false, ['a']⟩

def zeroCard : Card := ⟨0x47414D45, fun _ => 0xFFFF, fun _ _ => 0, [], fun _ => []⟩

def zeroWorld : World where
  folder := ⟨none, .null, [zeroSave],
    fun path => if path = ['a'] then some ⟨zeroSave.header, zeroSave.saveData⟩ else none⟩
  memory := fun _ => 0

theorem zeroWorld_loaded : Loaded zeroWorld := by
  refine ⟨rfl, fun save hsave => ?_, by decide, by decide⟩
  obtain rfl := List.mem_singleton.mp hsave
  exact ⟨by decide, by decide, by decide, by decide, rfl, rfl, _, rfl, rfl⟩

theorem written_bytes_kept_flushed :
    ∃ w, Reach (step zeroCard) Recorded zeroWorld w ∧ w.memory 0xA000 = 1 ∧
      ∀ save ∈ w.folder.saves, ∃ file, w.folder.files save.filename = some file ∧
        file.blocks = save.blocks.map w.memory.blockOf := by
  have hwrite : Recorded zeroWorld (.write true 0xA000 [1]) :=
    ⟨fun _ _ _ _ => rfl, fun h => nomatch h⟩
  obtain ⟨w₁, hs₁, -⟩ :=
    zeroWorld_loaded.inv.step (c := zeroCard) (a := .write true 0xA000 [1]) (by decide) hwrite
  have hflush : Recorded w₁ (.flushToFile fun _ => .good) := fun _ _ _ => rfl
  have hreach := Reach.refl.tail _ hwrite hs₁
  have hmemory : w₁.memory 0xA000 = 1 := by
    obtain ⟨-, hs₁⟩ := Option.ite_none_right_eq_some.mp hs₁
    obtain ⟨s, -, rfl⟩ := Option.map_eq_some_iff.mp hs₁
    rfl
  have hs₂ : step zeroCard w₁ (.flushToFile fun _ => .good) =
      some ⟨w₁.folder.flushToFile zeroCard fun _ => .good, w₁.memory⟩ := rfl
  exact ⟨_, hreach.tail _ hflush hs₂, hmemory,
    (written_bytes_kept zeroWorld_loaded hreach).2.2.1 _ _ hflush hs₂⟩

def GCMBlock.first (b : GCMBlock) : Byte := b ⟨0, by decide⟩

/-- **A write after a read of the same block.** The block is cached, so the write does not go through
`SaveAreaRW`: the data differs from the file, and the save is not marked. -/
theorem write_after_read_not_marked :
    Loaded zeroWorld ∧ ∃ w, Reach (step zeroCard) anyStep zeroWorld w ∧
      ∃ save ∈ w.folder.saves, ∃ file, w.folder.files save.filename = some file ∧
        save.saveData ≠ [] ∧ save.saveData ≠ file.blocks ∧ save.dirty = false := by
  obtain ⟨w, hrun, hw⟩ := Option.map_eq_some_iff.mp
    (show (run (step zeroCard) anyStep zeroWorld
        [.read true 0xA000 1, .write true 0xA000 [1]]).map (fun w =>
          ((w.folder.saves[0]?).map fun save =>
            (save.dirty, save.saveData.map GCMBlock.first, save.filename),
            (w.folder.files ['a']).map fun file => file.blocks.map GCMBlock.first)) =
      some (some (false, [1], ['a']), some [0]) by decide +kernel)
  obtain ⟨hsave, hfile⟩ := Prod.mk.inj hw
  obtain ⟨save, hsave, hfields⟩ := Option.map_eq_some_iff.mp hsave
  obtain ⟨file, hfile, hblocks⟩ := Option.map_eq_some_iff.mp hfile
  obtain ⟨hdirty, hdata, hname⟩ : _ ∧ _ ∧ _ := by simpa only [Prod.mk.injEq] using hfields
  refine ⟨zeroWorld_loaded, w, run_reach .refl hrun, save, List.mem_of_getElem? hsave, file,
    hname ▸ hfile, fun hnil => ?_, fun heq => ?_, hdirty⟩
  · rw [hnil] at hdata
    cases hdata
  · rw [heq, hblocks] at hdata
    cases hdata

end Memcard
