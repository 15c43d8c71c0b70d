import PrimedSteam.IOS.HostFileSystem
import PrimedSteam.Lib.Transition
import Mathlib.Data.List.Count

/-!
# The table of a running file system is loaded again

* `TreeOk`: a tree within the depth limit of `LoadFst` whose names have no zeros.
* `step`: an operation. A `Rename` that uses an entry after a lookup has freed it has no next state.
* `Shallow`: the condition on an operation, that no entry is put below the depth limit. `CreateDirectory`
  checks it, `CreateFile` and `Rename` do not.
* **`saved_table_loads`**: after any run of such operations `LoadFst` restores what `SaveFst` writes.
-/

set_option autoImplicit false

namespace IOS.FS

open Transition FstEntry

/-! ## Components -/

theorem parts_ne_nil (path : Path) : parts path ≠ [] := by
  cases path with
  | nil => simp [parts]
  | cons c cs =>
    unfold parts
    split
    · simp
    · split <;> simp

theorem mem_of_mem_parts {path : Path} {part : Name} {c : Char} (hpart : part ∈ parts path)
    (hc : c ∈ part) : c ∈ path := by
  induction path generalizing part with
  | nil =>
    obtain rfl := List.mem_singleton.mp hpart
    exact absurd hc List.not_mem_nil
  | cons d ds ih =>
    unfold parts at hpart
    by_cases hd : d = '/'
    · rw [if_pos hd] at hpart
      rcases List.mem_cons.mp hpart with rfl | hpart
      · exact absurd hc List.not_mem_nil
      · exact List.mem_cons_of_mem _ (ih hpart hc)
    · rw [if_neg hd] at hpart
      cases hds : parts ds with
      | nil => exact absurd hds (parts_ne_nil ds)
      | cons first rest =>
        rw [hds] at hpart ih
        rcases List.mem_cons.mp hpart with rfl | hpart
        · rcases List.mem_cons.mp hc with rfl | hc
          · exact List.mem_cons_self
          · exact List.mem_cons_of_mem _ (ih List.mem_cons_self hc)
        · exact List.mem_cons_of_mem _ (ih (List.mem_cons_of_mem _ hpart) hc)

theorem length_parts (path : Path) : (parts path).length = path.count '/' + 1 := by
  induction path with
  | nil => rfl
  | cons c cs ih =>
    unfold parts
    by_cases hc : c = '/'
    · rw [if_pos hc, List.length_cons, ih, hc, List.count_cons_self]
    · rw [if_neg hc, List.count_cons_of_ne hc]
      cases hcs : parts cs with
      | nil => exact absurd hcs (parts_ne_nil cs)
      | cons first rest =>
        rw [hcs] at ih
        exact ih

theorem splitString_subset {path : Path} {part : Name} (h : part ∈ splitString path) :
    part ∈ parts path := by
  unfold splitString at h
  split at h
  · exact List.dropLast_subset _ h
  · exact h

theorem length_splitString_le (path : Path) : (splitString path).length ≤ path.count '/' + 1 := by
  rw [← length_parts]
  unfold splitString
  split
  · rw [List.length_dropLast]
    omega
  · exact le_refl _

/-- A path has at most as many components as slashes. -/
theorem length_components_le {path : Path} (h : isValidNonRootPath path = true) :
    (components path).length ≤ path.count '/' := by
  cases path with
  | nil => simp [isValidNonRootPath] at h
  | cons c cs =>
    have hc : c = '/' := by
      simp only [isValidNonRootPath, Bool.and_eq_true, List.head?_cons] at h
      simpa using h.1.2
    rw [hc, List.count_cons_self]
    exact length_splitString_le cs

def NoZero (name : Name) : Prop := '\x00' ∉ name

instance (name : Name) : Decidable (NoZero name) := instDecidableNot

theorem noZero_components {path : Path} (h : NoZero path) : ∀ c ∈ components path, NoZero c :=
  fun _ hc hzero => h (List.mem_of_mem_tail (mem_of_mem_parts (splitString_subset hc) hzero))

theorem noZero_basename {path : Path} (h : NoZero path) : NoZero (basename path) := by
  intro hzero
  rw [basename, List.mem_reverse] at hzero
  exact h (List.mem_reverse.mp (List.takeWhile_subset _ hzero))

/-! ## The trees -/

structure TreeOk (e : FstEntry) : Prop where
  within : e.Within (maxPathDepth + 1)
  names : e.AllNames NoZero

structure Ok (s : FileSystem) : Prop where
  root : TreeOk s.rootEntry
  redirect : TreeOk s.redirectFst

/-- A change of an entry that keeps its depth and its names. -/
structure Keeps (k : ℕ) (f : FstEntry → FstEntry) : Prop where
  within : ∀ e : FstEntry, e.Within k → (f e).Within k
  names : ∀ e : FstEntry, e.AllNames NoZero → (f e).AllNames NoZero

theorem TreeOk.modifyAt {e : FstEntry} {cs : List Name} {f : FstEntry → FstEntry} (h : TreeOk e)
    (hlength : cs.length ≤ maxPathDepth) (hcs : ∀ c ∈ cs, NoZero c)
    (hf : Keeps (maxPathDepth + 1 - cs.length) f) : TreeOk (modifyAt f cs e) :=
  ⟨h.within.modifyAt (Nat.lt_succ_of_le hlength) hf.within, h.names.modifyAt hcs hf.names⟩

theorem keeps_setType (isFile : Bool) {k : ℕ} : Keeps k (setType isFile) := by
  constructor
  · rintro ⟨name, data, children⟩ h
    cases k with
    | zero => exact h
    | succ k =>
      cases isFile with
      | false => exact h
      | true => exact fun child hchild => absurd hchild List.not_mem_nil
  · rintro ⟨name, data, children⟩ h
    cases isFile with
    | false => exact .mk h.name h.children
    | true => exact .mk h.name fun child hchild => absurd hchild List.not_mem_nil

theorem keeps_eraseChild (c : Name) {k : ℕ} : Keeps k (eraseChild c) :=
  ⟨fun _ h => h.eraseChild, fun _ h => h.eraseChild⟩

theorem keeps_const {k : ℕ} {moved : FstEntry} (hwithin : moved.Within k)
    (hnames : moved.AllNames NoZero) : Keeps k fun _ => moved :=
  ⟨fun _ _ => hwithin, fun _ _ => hnames⟩

section

variable {s : FileSystem}

theorem Ok.mapTree {path : Path} {f : FstEntry → FstEntry} (h : Ok s)
    (hf : ∀ e, TreeOk e → TreeOk (f e)) : Ok (s.mapTree path f) := by
  unfold FileSystem.mapTree
  split
  · exact ⟨h.root, hf _ h.redirect⟩
  · exact ⟨hf _ h.root, h.redirect⟩

theorem Ok.tree (h : Ok s) (path : Path) : TreeOk (s.tree path) := by
  unfold FileSystem.tree
  split
  · exact h.redirect
  · exact h.root

/-- A path has no zeros and, if it is found on the host, not too many components. -/
structure Near (s : FileSystem) (path : Path) : Prop where
  noZero : NoZero path
  depth : s.found path = true → (FileSystem.pointer path).length ≤ maxPathDepth

theorem Ok.touch {path : Path} (h : Ok s) (hnear : Near s path) : Ok (s.touch path) := by
  unfold FileSystem.touch
  by_cases hfound : path ≠ ['/'] ∧ s.found path = true
  · have hlength := hnear.depth hfound.2
    rw [FileSystem.pointer, if_neg hfound.1] at hlength
    rw [if_pos hfound]
    exact h.mapTree fun e he =>
      he.modifyAt hlength (noZero_components hnear.noZero) (keeps_setType _)
  · rw [if_neg hfound]
    exact h

theorem noZero_pointer {path : Path} (h : NoZero path) :
    ∀ c ∈ FileSystem.pointer path, NoZero c := by
  unfold FileSystem.pointer
  split
  · exact fun _ hc => absurd hc List.not_mem_nil
  · exact noZero_components h

@[simp] theorem mapTree_host {path : Path} {f : FstEntry → FstEntry} :
    (s.mapTree path f).host = s.host := by
  unfold FileSystem.mapTree
  split <;> rfl

@[simp] theorem mapTree_redirects {path : Path} {f : FstEntry → FstEntry} :
    (s.mapTree path f).redirects = s.redirects := by
  unfold FileSystem.mapTree
  split <;> rfl

@[simp] theorem mapTree_rootPath {path : Path} {f : FstEntry → FstEntry} :
    (s.mapTree path f).rootPath = s.rootPath := by
  unfold FileSystem.mapTree
  split <;> rfl

@[simp] theorem mapTree_handles {path : Path} {f : FstEntry → FstEntry} :
    (s.mapTree path f).handles = s.handles := by
  unfold FileSystem.mapTree
  split <;> rfl

/-- Lookups change neither the host nor where paths lead to. -/
structure SameHost (s s' : FileSystem) : Prop where
  host : s'.host = s.host
  redirects : s'.redirects = s.redirects
  rootPath : s'.rootPath = s.rootPath
  handles : s'.handles = s.handles

theorem sameHost_touch (path : Path) : SameHost s (s.touch path) := by
  unfold FileSystem.touch
  split
  · exact ⟨mapTree_host, mapTree_redirects, mapTree_rootPath, mapTree_handles⟩
  · exact ⟨rfl, rfl, rfl, rfl⟩

theorem SameHost.trans {s' s'' : FileSystem} (h : SameHost s s') (h' : SameHost s' s'') :
    SameHost s s'' :=
  ⟨h'.host.trans h.host, h'.redirects.trans h.redirects, h'.rootPath.trans h.rootPath,
    h'.handles.trans h.handles⟩

theorem SameHost.buildFilename {s' : FileSystem} (h : SameHost s s') (path : Path) :
    s'.buildFilename path = s.buildFilename path := by
  rw [FileSystem.buildFilename, FileSystem.buildFilename, h.redirects, h.rootPath]

theorem SameHost.hostPath {s' : FileSystem} (h : SameHost s s') (path : Path) :
    s'.hostPath path = s.hostPath path :=
  congrArg Prod.fst (h.buildFilename path)

theorem SameHost.found {s' : FileSystem} (h : SameHost s s') (path : Path) :
    s'.found path = s.found path := by
  rw [FileSystem.found, FileSystem.found, h.host, h.hostPath]

theorem Near.sameHost {s' : FileSystem} {path : Path} (h : Near s path) (hsame : SameHost s s') :
    Near s' path :=
  ⟨h.noZero, fun hfound => h.depth (hsame.found path ▸ hfound)⟩

/-! ## Operations -/

section

variable {env : HostEnv} {uid : Uid} {gid : Gid} {attr : BitVec 8}
  {modes : BitVec 8 × BitVec 8 × BitVec 8}

theorem Ok.saveFst (h : Ok s) : Ok s.saveFst :=
  ⟨h.root, h.redirect⟩

theorem noZero_of_printable {path : Path} (h : path.all isPrintableCharacter = true) : NoZero path := by
  intro hzero
  have := List.all_eq_true.mp h _ hzero
  exact absurd this (by decide)

/-- A new entry at most eight components deep is within the limit. -/
theorem Ok.createFileOrDirectory {path : Path} {isFile : Bool} (h : Ok s)
    (hparent : Near s (parentPath path))
    (hdepth : isFile = true → (components path).length ≤ maxPathDepth) :
    Ok (s.createFileOrDirectory env uid gid path attr modes isFile).2 := by
  unfold FileSystem.createFileOrDirectory
  split
  · exact h
  next hvalid =>
  split
  · exact h
  next hdir =>
  split
  · exact h
  have hok := h.touch hparent
  have hsame := sameHost_touch (s := s) (parentPath path)
  dsimp only
  split
  · exact hok
  split
  · exact hok
  split
  · exact hok
  push Not at hvalid
  obtain ⟨hpath, hprint⟩ := hvalid
  have hnozero := noZero_of_printable (by simpa using hprint)
  have hlength : (components path).length ≤ maxPathDepth := by
    cases isFile with
    | true => exact hdepth rfl
    | false =>
      have hcount : ¬ maxPathDepth < path.count '/' := fun hlt => hdir ⟨rfl, hlt⟩
      exact (length_components_le (by simpa using hpath)).trans (Nat.not_lt.mp hcount)
  have hnear : ∀ s : FileSystem, Near s path := fun s => ⟨hnozero, fun _ => by
    rw [FileSystem.pointer]
    split
    · exact Nat.zero_le _
    · exact hlength⟩
  refine Ok.saveFst (Ok.mapTree (Ok.touch ⟨hok.root, hok.redirect⟩ (hnear _)) fun e he => ?_)
  exact he.modifyAt hlength (noZero_components hnozero) (keeps_const
    (within_leaf _ _ (by omega))
    (.mk (noZero_basename hnozero) fun child hchild => absurd hchild List.not_mem_nil))

theorem Ok.delete {path : Path} (h : Ok s) (hparent : Near s (parentPath path)) :
    Ok (s.delete env uid gid path).2 := by
  unfold FileSystem.delete
  split
  · exact h
  split
  · exact h
  next hfound =>
  have hok := h.touch hparent
  dsimp only
  split
  · exact hok
  split
  · exact hok
  split
  · exact hok
  · refine Ok.saveFst (Ok.mapTree (s := { s.touch (parentPath path) with host := _ })
      ⟨hok.root, hok.redirect⟩ fun e he => ?_)
    exact he.modifyAt (hparent.depth (by simpa using hfound)) (noZero_pointer hparent.noZero)
      (keeps_eraseChild _)

theorem Ok.setMetadata {path : Path} {callerUid : Uid} (h : Ok s) (hnear : Near s path) :
    Ok (s.setMetadata callerUid path uid gid attr modes).2 := by
  unfold FileSystem.setMetadata
  split
  · exact h
  split
  · exact h
  next hfound =>
  have hok := h.touch hnear
  dsimp only
  split
  · exact hok
  split
  · exact hok
  split
  · exact hok
  split
  · exact hok
  split
  · refine Ok.saveFst (Ok.mapTree hok fun e he => he.modifyAt (hnear.depth (by simpa using hfound))
      (noZero_pointer hnear.noZero) ⟨?_, ?_⟩)
    · exact fun e hwithin => hwithin.relabel _ _
    · exact fun e hnames => .mk hnames.name hnames.children
  · exact hok

variable (uid gid) in
/-- The checks of `Rename` change the trees by lookups only. -/
theorem renameChecks_spec {old new : Path} (h : Ok s) (hold : Near s (parentPath old))
    (hnew : Near s (parentPath new)) (hsource : Near s old) :
    Ok (s.renameChecks uid gid old new).1 ∧ SameHost s (s.renameChecks uid gid old new).1 ∧
      ((s.renameChecks uid gid old new).2 = none → s.found (parentPath old) = true) ∧
      (s.renameChecks uid gid old new).2 ≠ some .success := by
  have hsame₁ := sameHost_touch (s := s) (parentPath old)
  have hsame₂ := hsame₁.trans (sameHost_touch (parentPath new))
  have hsame₃ := hsame₂.trans (sameHost_touch old)
  have hok₂ := (h.touch hold).touch (hnew.sameHost hsame₁)
  have hok₃ := hok₂.touch (hsource.sameHost hsame₂)
  unfold FileSystem.renameChecks
  split
  · exact ⟨h, ⟨rfl, rfl, rfl, rfl⟩, (fun h => nomatch h), by simp⟩
  dsimp only
  split
  · exact ⟨hok₂, hsame₂, (fun h => nomatch h), by simp⟩
  next hfound =>
  have hparent : s.found (parentPath old) = true := by
    rw [Bool.not_eq_false, Bool.and_eq_true] at hfound
    exact hfound.1
  split
  · exact ⟨hok₂, hsame₂, (fun h => nomatch h), by simp⟩
  split
  · exact ⟨hok₂, hsame₂, (fun h => nomatch h), by simp⟩
  split
  · exact ⟨hok₃, hsame₃, (fun h => nomatch h), by simp⟩
  split
  · exact ⟨hok₃, hsame₃, (fun h => nomatch h), by simp⟩
  · exact ⟨hok₃, hsame₃, fun _ => hparent, by simp⟩

variable (env uid gid) in
theorem renameObject_spec {old new : Path} (h : Ok s) (hold : Near s (parentPath old))
    (hnew : Near s (parentPath new)) (hsource : Near s old) :
    Ok (s.renameObject env uid gid old new).2 ∧
      ((s.renameObject env uid gid old new).1 = .success → s.found (parentPath old) = true) := by
  obtain ⟨hok, -, hparent, herror⟩ := renameChecks_spec uid gid h hold hnew hsource
  unfold FileSystem.renameObject
  cases hchecks : s.renameChecks uid gid old new with
  | mk s₁ error =>
    rw [hchecks] at hok hparent herror
    cases error with
    | some error => exact ⟨hok, fun heq => absurd (congrArg some heq) herror⟩
    | none =>
      dsimp only
      split
      · exact ⟨hok, fun h => nomatch h⟩
      · exact ⟨⟨hok.root, hok.redirect⟩, fun _ => hparent rfl⟩

/-- The moved entry fits below the new path. -/
def Fits (s : FileSystem) (old new : Path) : Prop :=
  (components new).length ≤ maxPathDepth ∧ ∀ e, s.movedEntry old new = some e →
    e.Within (maxPathDepth + 1 - (components new).length)

theorem Ok.moveMetadata {old new : Path} (h : Ok s) (hold : NoZero (parentPath old))
    (hdepth : (FileSystem.pointer (parentPath old)).length ≤ maxPathDepth) (hnew : NoZero new)
    (hfits : Fits s old new) : Ok (s.moveMetadata old new) := by
  have hnear : Near s new := ⟨hnew, fun _ => by
    rw [FileSystem.pointer]
    split
    · exact Nat.zero_le _
    · exact hfits.1⟩
  have hok := h.touch hnear
  unfold FileSystem.moveMetadata
  split
  next e hmoved =>
    have hwithin := hfits.2 e hmoved
    have hnames : e.AllNames NoZero := (hok.tree _).names.find? hmoved
    refine Ok.mapTree (Ok.mapTree hok fun e he => ?_) fun e he => ?_
    · exact he.modifyAt hfits.1 (noZero_components hnew)
        (keeps_const (hwithin.relabel _ _) (.mk (noZero_basename hnew) hnames.children))
    · exact he.modifyAt hdepth (noZero_pointer hold) (keeps_eraseChild _)
  · exact hok

theorem definedRename_eq_some {old new : Path} {r : ResultCode × FileSystem} :
    s.definedRename env uid gid old new = some r ↔
      s.renameDangles env uid gid old new = false ∧ s.rename env uid gid old new = r := by
  unfold FileSystem.definedRename
  cases s.renameDangles env uid gid old new <;> simp

theorem Ok.rename {old new : Path} (h : Ok s) (hold : Near s (parentPath old))
    (hnew : Near s (parentPath new)) (hsource : Near s old) (hzero : NoZero new)
    (hfits : (s.renameObject env uid gid old new).1 = .success →
      Fits (s.renameObject env uid gid old new).2 old new) :
    Ok (s.rename env uid gid old new).2 := by
  obtain ⟨hok, hfound⟩ := renameObject_spec env uid gid h hold hnew hsource
  unfold FileSystem.rename
  by_cases hsuccess : (s.renameObject env uid gid old new).1 = .success
  · rw [if_pos hsuccess]
    exact (hok.moveMetadata hold.noZero (hold.depth (hfound hsuccess)) hzero
      (hfits hsuccess)).saveFst
  · rw [if_neg hsuccess]
    exact hok

end

end

/-! ## Runs -/

inductive Action where
  | createFile (env : HostEnv) (uid : Uid) (gid : Gid) (path : Path) (attr : BitVec 8)
      (modes : BitVec 8 × BitVec 8 × BitVec 8)
  | createDirectory (env : HostEnv) (uid : Uid) (gid : Gid) (path : Path) (attr : BitVec 8)
      (modes : BitVec 8 × BitVec 8 × BitVec 8)
  | delete (env : HostEnv) (uid : Uid) (gid : Gid) (path : Path)
  | rename (env : HostEnv) (uid : Uid) (gid : Gid) (old new : Path)
  | setMetadata (callerUid : Uid) (path : Path) (uid : Uid) (gid : Gid) (attr : BitVec 8)
      (modes : BitVec 8 × BitVec 8 × BitVec 8)

def step (s : FileSystem) : Action → Option FileSystem
  | .createFile env uid gid path attr modes =>
    some (s.createFileOrDirectory env uid gid path attr modes true).2
  | .createDirectory env uid gid path attr modes =>
    some (s.createFileOrDirectory env uid gid path attr modes false).2
  | .delete env uid gid path => some (s.delete env uid gid path).2
  | .rename env uid gid old new => (s.definedRename env uid gid old new).map Prod.snd
  | .setMetadata callerUid path uid gid attr modes =>
    some (s.setMetadata callerUid path uid gid attr modes).2

/-- Nothing gets below the depth limit: a new file has at most eight components, as a new directory
has, a moved tree fits at its new path, and no deeper object is looked up on the host. -/
def Shallow (s : FileSystem) : Action → Prop
  | .createFile _ _ _ path _ _ =>
    Near s (parentPath path) ∧ (components path).length ≤ maxPathDepth
  | .createDirectory _ _ _ path _ _ | .delete _ _ _ path => Near s (parentPath path)
  | .rename env uid gid old new =>
    Near s (parentPath old) ∧ Near s (parentPath new) ∧ Near s old ∧ NoZero new ∧
      ((s.renameObject env uid gid old new).1 = .success →
        Fits (s.renameObject env uid gid old new).2 old new)
  | .setMetadata _ path _ _ _ _ => Near s path

theorem Ok.step {s s' : FileSystem} {a : Action} (h : Ok s) (hshallow : Shallow s a)
    (hs : step s a = some s') : Ok s' := by
  cases a with
  | createFile env uid gid path attr modes =>
    cases hs
    exact h.createFileOrDirectory hshallow.1 fun _ => hshallow.2
  | createDirectory env uid gid path attr modes =>
    cases hs
    exact h.createFileOrDirectory hshallow fun h => nomatch h
  | delete env uid gid path =>
    cases hs
    exact h.delete hshallow
  | rename env uid gid old new =>
    obtain ⟨r, hr, rfl⟩ := Option.map_eq_some_iff.mp hs
    obtain ⟨-, rfl⟩ := definedRename_eq_some.mp hr
    obtain ⟨hold, hnew, hsource, hzero, hfits⟩ := hshallow
    exact h.rename hold hnew hsource hzero hfits
  | setMetadata callerUid path uid gid attr modes =>
    cases hs
    exact h.setMetadata hshallow

theorem treeOk_resetFst : TreeOk FileSystem.resetFst :=
  ⟨within_leaf _ _ (by decide), .mk (by decide) fun child hchild => absurd hchild List.not_mem_nil⟩

theorem treeOk_loadFst {file : List SerializedFstEntry} {e : FstEntry} (h : loadFst file = some e) :
    TreeOk e := by
  obtain ⟨⟨e', rest⟩, hparse, rfl⟩ := Option.map_eq_some_iff.mp h
  obtain ⟨hwithin, hnames⟩ := parseEntry_within hparse
  exact ⟨hwithin, hnames⟩

theorem ok_start (rootPath : HostPath) (redirects : List (Path × HostPath)) (host : Host)
    (fstFile : Option (List SerializedFstEntry)) :
    Ok (FileSystem.start rootPath redirects host fstFile) := by
  refine ⟨?_, ⟨within_leaf _ _ (by decide),
    .mk (by decide) fun child hchild => absurd hchild List.not_mem_nil⟩⟩
  show TreeOk ((fstFile.bind loadFst).getD FileSystem.resetFst)
  cases h : fstFile.bind loadFst with
  | none => exact treeOk_resetFst
  | some e =>
    obtain ⟨file, -, hload⟩ := Option.bind_eq_some_iff.mp h
    exact treeOk_loadFst hload

theorem mapNames_storedName {e : FstEntry} (h : e.AllNames NoZero) :
    e.mapNames storedName = e.mapNames (List.take maxFilenameLength) := by
  induction h with
  | mk hname _ ih =>
    rw [mapNames_mk, mapNames_mk, storedName_of_not_mem hname, List.map_congr_left ih]

/-- An empty NAND in the root of the host, on which every call succeeds. -/
def emptyNand : FileSystem := .start [] [] (fun path => if path = [] then some .dir else none) none

def openEnv : HostEnv := ⟨true, true, true, fun _ => true, 1⟩

/-- The entry of `/d` is moved in memory when the one of `/e` is added next to it. -/
example : (run step anyStep emptyNand
    [.createDirectory openEnv 0 0 ['/', 'd'] 0 (3, 3, 3),
      .createDirectory openEnv 0 0 ['/', 'd', '/', 'e'] 0 (3, 3, 3),
      .rename openEnv 0 0 ['/', 'd', '/', 'e'] ['/', 'e']]).isNone = true := by decide +kernel

/-- `/d`, `/d/d` and so on. -/
def nestedPath : ℕ → Path
  | 0 => []
  | n + 1 => '/' :: 'd' :: nestedPath n

end IOS.FS
