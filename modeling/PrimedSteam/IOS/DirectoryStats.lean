import PrimedSteam.IOS.EscapedNames

/-!
# Statistics of directories

The tree of a directory of the host, without the entries that the emulated system must not see.

* `scan`: the tree with the sizes of its directories, which are numbers of entries.
* `fixupDirectoryEntries`: what is dropped, and how many entries that are.
* **`fixupDirectoryEntries_exact`**: the sizes are again the numbers of entries.
-/

set_option autoImplicit false

namespace File

open IOS.FS

/-- An entry of the host: the size of a file in bytes, and of a directory in entries. -/
inductive FSTEntry where
  | mk (isDirectory : Bool) (size : BitVec 64) (virtualName : Name) (children : List FSTEntry)

namespace FSTEntry

def isDirectory : FSTEntry → Bool
  | mk isDirectory _ _ _ => isDirectory

def size : FSTEntry → BitVec 64
  | mk _ size _ _ => size

def virtualName : FSTEntry → Name
  | mk _ _ virtualName _ => virtualName

def children : FSTEntry → List FSTEntry
  | mk _ _ _ children => children

def setVirtualName (name : Name) : FSTEntry → FSTEntry
  | mk isDirectory size _ children => mk isDirectory size name children

end FSTEntry

open FSTEntry

/-! ## Scanning -/

/-- What the host has under a name. -/
inductive DirectoryEntry where
  | file (fileName : Name) (fileSize : BitVec 64)
  | directory (fileName : Name) (entries : List DirectoryEntry)

/-- `calc_dir_size` -/
def calcDirSize (children : List FSTEntry) : BitVec 64 :=
  children.foldl (fun size child => if child.isDirectory then size + child.size else size)
    (BitVec.ofNat 64 children.length)

mutual

/-- `ScanDirectoryTree` -/
def scan : DirectoryEntry → FSTEntry
  | .file fileName fileSize => mk false fileSize fileName []
  | .directory fileName entries =>
    let children := scanAll entries
    mk true (calcDirSize children) fileName children

def scanAll : List DirectoryEntry → List FSTEntry
  | [] => []
  | entry :: entries => scan entry :: scanAll entries

end

/-! ## Dropping entries -/

mutual

/-- `FixupDirectoryEntries`, with the number that it returns. -/
def fixupDirectoryEntries (isRoot : Bool) : FSTEntry → FSTEntry × BitVec 64
  | mk isDirectory size virtualName children =>
    let (children, removedEntries) := fixupChildren isRoot isDirectory 0 children
    (mk isDirectory (size - removedEntries) virtualName children, removedEntries)

/-- The loop over the children of a directory. -/
def fixupChildren (isRoot dirIsDirectory : Bool) (removedEntries : BitVec 64) :
    List FSTEntry → List FSTEntry × BitVec 64
  | [] => ([], removedEntries)
  | it :: rest =>
    if isRoot && !it.isDirectory then fixupChildren isRoot dirIsDirectory (removedEntries + 1) rest
    else
      match fixupName false it.virtualName it.isDirectory with
      | none =>
        -- the name is too long, and everything below is gone
        let removedEntries := if it.isDirectory then removedEntries + it.size else removedEntries
        fixupChildren isRoot dirIsDirectory (removedEntries + 1) rest
      | some name =>
        let (it, removed) := if dirIsDirectory then fixupDirectoryEntries false it else (it, 0)
        let (kept, removedEntries) := fixupChildren isRoot dirIsDirectory (removedEntries + removed) rest
        (it.setVirtualName name :: kept, removedEntries)

end

/-! ## Statistics -/

def clusterSize : BitVec 64 := 0x4000

def alignUp (value size : BitVec 64) : BitVec 64 := value + (size - 1) - (value + (size - 1)) % size

mutual

/-- `ComputeUsedClusters` -/
def computeUsedClusters : FSTEntry → BitVec 64
  | mk _ _ _ children => usedClusters children

def usedClusters : List FSTEntry → BitVec 64
  | [] => 0
  | entry :: entries =>
    (if entry.isDirectory then computeUsedClusters entry
      else alignUp entry.size clusterSize / clusterSize) + usedClusters entries

end

structure ExtendedDirectoryStats where
  usedInodes : BitVec 64
  usedClusters : BitVec 64
deriving DecidableEq

/-- `GetExtendedDirectoryStats`, for what the host has there. -/
def getExtendedDirectoryStats (wiiPath : Path) (host : Option FSTEntry) : Except ResultCode ExtendedDirectoryStats :=
  if isValidPath wiiPath = false then .error .invalid
  else
    match host with
    | none => .error .notFound
    | some parentDir =>
      if parentDir.isDirectory then
        let parentDir := (fixupDirectoryEntries (wiiPath = ['/']) parentDir).1
        -- one for the folder itself
        .ok ⟨1 + parentDir.size, computeUsedClusters parentDir⟩
      else .error .invalid

/-! ## Entries -/

mutual

/-- The entries below an entry. -/
def descendants : FSTEntry → ℕ
  | mk _ _ _ children => entriesIn children

/-- The entries of a list, with those below them. -/
def entriesIn : List FSTEntry → ℕ
  | [] => 0
  | entry :: entries => 1 + descendants entry + entriesIn entries

end

/-- The sizes of directories are their numbers of entries, and only directories have entries. -/
inductive Exact : FSTEntry → Prop where
  | mk {isDirectory : Bool} {size : BitVec 64} {virtualName : Name} {children : List FSTEntry}
      (hsize : isDirectory = true → size.toNat = entriesIn children) (hfile : isDirectory = false → children = [])
      (hchildren : ∀ child ∈ children, Exact child) : Exact (.mk isDirectory size virtualName children)

variable {entry : FSTEntry} {isRoot dirIsDirectory : Bool}

theorem Exact.size_eq (h : Exact entry) (hdirectory : entry.isDirectory = true) :
    entry.size.toNat = descendants entry := by
  cases h with
  | mk hsize _ _ =>
    rw [descendants]
    exact hsize hdirectory

theorem Exact.descendants_file (h : Exact entry) (hfile : entry.isDirectory = false) : descendants entry = 0 := by
  cases h with
  | mk _ hchildren _ =>
    rw [descendants, hchildren hfile, entriesIn]

theorem Exact.setVirtualName (h : Exact entry) (name : Name) : Exact (entry.setVirtualName name) := by
  cases h with
  | mk hsize hfile hchildren => exact .mk hsize hfile hchildren

theorem descendants_setVirtualName (entry : FSTEntry) (name : Name) :
    descendants (entry.setVirtualName name) = descendants entry := by
  cases entry
  rw [FSTEntry.setVirtualName, descendants, descendants]

theorem entriesIn_eq (entries : List FSTEntry) :
    entriesIn entries = entries.length + (entries.map descendants).sum := by
  induction entries with
  | nil => rfl
  | cons entry entries ih =>
    rw [entriesIn, ih, List.length_cons, List.map_cons, List.sum_cons]
    omega

theorem toNat_calcDirSize {children : List FSTEntry} (h : ∀ child ∈ children, Exact child)
    (hlt : entriesIn children < 2 ^ 64) : (calcDirSize children).toNat = entriesIn children := by
  have hloop : ∀ (children : List FSTEntry) (size : BitVec 64), (∀ child ∈ children, Exact child) →
      size.toNat + (children.map descendants).sum < 2 ^ 64 →
      (children.foldl (fun size child => if child.isDirectory then size + child.size else size) size).toNat
        = size.toNat + (children.map descendants).sum := by
    intro children
    induction children with
    | nil => exact fun size _ _ => rfl
    | cons child children ih =>
      intro size h hlt
      obtain ⟨hchild, hchildren⟩ := List.forall_mem_cons.mp h
      rw [List.map_cons, List.sum_cons] at hlt ⊢
      rw [List.foldl_cons]
      cases hdirectory : child.isDirectory with
      | true =>
        have hsize := hchild.size_eq hdirectory
        have hadd : (size + child.size).toNat = size.toNat + child.size.toNat :=
          BitVec.toNat_add_of_lt (by omega)
        rw [if_pos rfl, ih _ hchildren (by omega)]
        omega
      | false =>
        have hnone := hchild.descendants_file hdirectory
        rw [if_neg Bool.false_ne_true, ih _ hchildren (by omega)]
        omega
  rw [entriesIn_eq] at hlt ⊢
  have hlength : (BitVec.ofNat 64 children.length).toNat = children.length := by
    rw [BitVec.toNat_ofNat, Nat.mod_eq_of_lt (by omega)]
  rw [calcDirSize, hloop children _ h (by omega), hlength]

mutual

theorem scan_exact (entry : DirectoryEntry) (h : descendants (scan entry) < 2 ^ 64) : Exact (scan entry) := by
  cases entry with
  | file fileName fileSize =>
    rw [scan]
    exact .mk (fun h => absurd h Bool.false_ne_true) (fun _ => rfl) fun child hmem => absurd hmem List.not_mem_nil
  | directory fileName entries =>
    rw [scan] at h ⊢
    rw [descendants] at h
    have hall := scanAll_exact entries h
    exact .mk (fun _ => toNat_calcDirSize hall h) (fun h => absurd h.symm Bool.false_ne_true) hall

theorem scanAll_exact (entries : List DirectoryEntry) (h : entriesIn (scanAll entries) < 2 ^ 64) :
    ∀ child ∈ scanAll entries, Exact child := by
  cases entries with
  | nil =>
    rw [scanAll]
    exact fun child hmem => absurd hmem List.not_mem_nil
  | cons entry entries =>
    rw [scanAll, entriesIn] at h
    rw [scanAll]
    exact List.forall_mem_cons.mpr ⟨scan_exact entry (by omega), scanAll_exact entries (by omega)⟩

end

/-! ## What is removed -/

mutual

/-- The entries that are counted are those that are gone, and the sizes stay exact. -/
theorem fixupDirectoryEntries_spec (isRoot : Bool) (entry : FSTEntry) (h : Exact entry)
    (hlt : descendants entry < 2 ^ 64) :
    Exact (fixupDirectoryEntries isRoot entry).1 ∧
      (fixupDirectoryEntries isRoot entry).2.toNat + descendants (fixupDirectoryEntries isRoot entry).1
        = descendants entry := by
  cases h with
  | @mk isDirectory size virtualName children hsize hfile hchildren =>
    rw [descendants] at hlt
    have hzero : (0 : BitVec 64).toNat = 0 := rfl
    obtain ⟨hexact, hcount⟩ := fixupChildren_spec isRoot isDirectory 0 children hchildren (by omega)
    rw [hzero, Nat.zero_add] at hcount
    rw [fixupDirectoryEntries]
    dsimp only
    rw [descendants, descendants]
    refine ⟨.mk (fun hdirectory => ?_) (fun hfalse => ?_) hexact, hcount⟩
    · have hle : (fixupChildren isRoot isDirectory 0 children).2 ≤ size := by
        rw [BitVec.le_def, hsize hdirectory]
        omega
      rw [BitVec.toNat_sub_of_le hle, hsize hdirectory]
      omega
    · rw [hfile hfalse, fixupChildren]

theorem fixupChildren_spec (isRoot dirIsDirectory : Bool) (removedEntries : BitVec 64) (children : List FSTEntry)
    (h : ∀ child ∈ children, Exact child) (hlt : removedEntries.toNat + entriesIn children < 2 ^ 64) :
    (∀ child ∈ (fixupChildren isRoot dirIsDirectory removedEntries children).1, Exact child) ∧
      (fixupChildren isRoot dirIsDirectory removedEntries children).2.toNat
          + entriesIn (fixupChildren isRoot dirIsDirectory removedEntries children).1
        = removedEntries.toNat + entriesIn children := by
  cases children with
  | nil =>
    rw [fixupChildren, entriesIn]
    exact ⟨fun child hmem => absurd hmem List.not_mem_nil, rfl⟩
  | cons it rest =>
    obtain ⟨hit, hrest⟩ := List.forall_mem_cons.mp h
    have hone : (1 : BitVec 64).toNat = 1 := rfl
    rw [entriesIn] at hlt ⊢
    rw [fixupChildren]
    by_cases hfile : (isRoot && !it.isDirectory) = true
    · -- a file of the root
      have hnone : descendants it = 0 := hit.descendants_file (by simp at hfile; exact hfile.2)
      have hadd : (removedEntries + 1).toNat = removedEntries.toNat + 1 := BitVec.toNat_add_of_lt (by omega)
      obtain ⟨hexact, hcount⟩ := fixupChildren_spec isRoot dirIsDirectory (removedEntries + 1) rest hrest (by omega)
      rw [if_pos hfile]
      exact ⟨hexact, by omega⟩
    · rw [if_neg hfile]
      cases hname : fixupName false it.virtualName it.isDirectory with
      | none =>
        -- the size of a directory is what is below it
        dsimp only
        generalize hremoved : (if it.isDirectory = true then removedEntries + it.size else removedEntries) = removed
        have hbelow : removed.toNat = removedEntries.toNat + descendants it := by
          cases hdirectory : it.isDirectory with
          | true =>
            have hsize := hit.size_eq hdirectory
            rw [← hremoved, if_pos hdirectory, BitVec.toNat_add_of_lt (by omega), hsize]
          | false =>
            rw [← hremoved, if_neg (by rw [hdirectory]; exact Bool.false_ne_true), hit.descendants_file hdirectory,
              Nat.add_zero]
        have hadd : (removed + 1).toNat = removed.toNat + 1 := BitVec.toNat_add_of_lt (by omega)
        obtain ⟨hexact, hcount⟩ := fixupChildren_spec isRoot dirIsDirectory (removed + 1) rest hrest (by omega)
        exact ⟨hexact, by omega⟩
      | some name =>
        dsimp only
        generalize hfixed : (if dirIsDirectory = true then fixupDirectoryEntries false it else (it, 0)) = fixed
        have hspec : Exact fixed.1 ∧ fixed.2.toNat + descendants fixed.1 = descendants it := by
          cases dirIsDirectory with
          | true =>
            rw [← hfixed, if_pos rfl]
            exact fixupDirectoryEntries_spec false it hit (by omega)
          | false =>
            rw [← hfixed, if_neg Bool.false_ne_true]
            exact ⟨hit, Nat.zero_add _⟩
        have hadd : (removedEntries + fixed.2).toNat = removedEntries.toNat + fixed.2.toNat :=
          BitVec.toNat_add_of_lt (by omega)
        obtain ⟨hexact, hcount⟩ := fixupChildren_spec isRoot dirIsDirectory (removedEntries + fixed.2) rest hrest
          (by omega)
        refine ⟨List.forall_mem_cons.mpr ⟨hspec.1.setVirtualName name, hexact⟩, ?_⟩
        rw [entriesIn, descendants_setVirtualName]
        omega

end

theorem fixupChildren_names (isRoot dirIsDirectory : Bool) (removedEntries : BitVec 64) (children : List FSTEntry) :
    (fixupChildren isRoot dirIsDirectory removedEntries children).1.map FSTEntry.virtualName
      = IOS.FS.fixupDirectoryEntries isRoot (children.map fun child => (child.virtualName, child.isDirectory)) := by
  have hset : ∀ (entry : FSTEntry) name, (entry.setVirtualName name).virtualName = name := by
    intro entry name
    cases entry
    rfl
  induction children generalizing removedEntries with
  | nil => rw [fixupChildren]; rfl
  | cons it rest ih =>
    rw [fixupChildren, List.map_cons, IOS.FS.fixupDirectoryEntries, List.filterMap_cons]
    by_cases hfile : (isRoot && !it.isDirectory) = true
    · rw [if_pos hfile, ih, fixupName, if_pos hfile]
      rfl
    · have hname : fixupName isRoot it.virtualName it.isDirectory =
        fixupName false it.virtualName it.isDirectory := by
        rw [fixupName, if_neg hfile, fixupName, Bool.false_and, if_neg Bool.false_ne_true]
      rw [if_neg hfile, hname]
      cases fixupName false it.virtualName it.isDirectory with
      | none => exact ih _
      | some name =>
        dsimp only
        rw [List.map_cons, hset, ih]
        rfl

/-- **The sizes stay exact**: what is counted is what is gone below the directory, the sizes of the
directories that are
left are again their numbers of entries, and the statistics count those and the directory itself. -/
theorem fixupDirectoryEntries_exact {dir : FSTEntry} (h : Exact dir) (hdirectory : dir.isDirectory = true)
    (isRoot : Bool) :
    Exact (fixupDirectoryEntries isRoot dir).1 ∧
      (fixupDirectoryEntries isRoot dir).2.toNat
        = descendants dir - descendants (fixupDirectoryEntries isRoot dir).1 ∧
      descendants (fixupDirectoryEntries isRoot dir).1 ≤ descendants dir ∧
      ∀ wiiPath, isValidPath wiiPath = true → ∃ stats,
        getExtendedDirectoryStats wiiPath (some dir) = .ok stats ∧
          stats.usedInodes
            = 1 + BitVec.ofNat 64 (descendants (fixupDirectoryEntries (wiiPath = ['/']) dir).1) := by
  have hlt : descendants dir < 2 ^ 64 := by
    rw [← h.size_eq hdirectory]
    exact dir.size.isLt
  obtain ⟨hexact, hcount⟩ := fixupDirectoryEntries_spec isRoot dir h hlt
  refine ⟨hexact, by omega, by omega, fun wiiPath hpath => ?_⟩
  obtain ⟨hstats, -⟩ := fixupDirectoryEntries_spec (wiiPath = ['/']) dir h hlt
  have hkept : (fixupDirectoryEntries (wiiPath = ['/']) dir).1.isDirectory = true := by
    cases dir
    rw [fixupDirectoryEntries]
    exact hdirectory
  refine ⟨_, by rw [getExtendedDirectoryStats, if_neg (by rw [hpath]; exact Bool.noConfusion),
    if_pos hdirectory], ?_⟩
  rw [← hstats.size_eq hkept, BitVec.ofNat_toNat, BitVec.setWidth_eq]

/-- A file, and a directory with a long name and a file. -/
def sampleDirectory : FSTEntry :=
  .mk true 3 ['d'] [.mk false 5 ['a'] [], .mk true 1 (List.replicate 13 'b') [.mk false 7 ['c'] []]]

theorem sampleDirectory_exact : Exact sampleDirectory := by
  have hfile : ∀ size name, Exact (.mk false size name []) := fun size name =>
    .mk (fun h => absurd h Bool.false_ne_true) (fun _ => rfl) fun child hmem => absurd hmem List.not_mem_nil
  have hlong : Exact (.mk true 1 (List.replicate 13 'b') [.mk false 7 ['c'] []]) :=
    .mk (fun _ => by decide) (fun h => absurd h.symm Bool.false_ne_true)
      (List.forall_mem_cons.mpr ⟨hfile _ _, fun child hmem => absurd hmem List.not_mem_nil⟩)
  exact .mk (fun _ => by decide) (fun h => absurd h.symm Bool.false_ne_true)
    (List.forall_mem_cons.mpr ⟨hfile _ _,
      List.forall_mem_cons.mpr ⟨hlong, fun child hmem => absurd hmem List.not_mem_nil⟩⟩)

/-- The directory with the long name goes with its file. -/
theorem fixupDirectoryEntries_sample : Exact sampleDirectory ∧ sampleDirectory.isDirectory = true ∧
    (fixupDirectoryEntries false sampleDirectory).2 = 2 ∧
    Exact (fixupDirectoryEntries false sampleDirectory).1 :=
  ⟨sampleDirectory_exact, rfl, by decide, (fixupDirectoryEntries_exact sampleDirectory_exact rfl false).1⟩

end File
