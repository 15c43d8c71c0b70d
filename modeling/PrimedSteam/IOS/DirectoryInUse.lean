import PrimedSteam.IOS.RenameAtomic

/-!
# Directories that are in use

`Delete` and `Rename` ask whether the path of an open handle starts with the path of the directory.

* `AtOrBelow`, `Blocked`: an open handle on the directory or on something in it.
* `OnSibling`: an open handle on a path that goes on in the name of the directory.
* **`inUse_iff`**: the two operations return `InUse` exactly for a blocked directory, unless an open
  handle is on a sibling and none is below.
-/

set_option autoImplicit false

namespace IOS.FS

open FileSystem

/-- The path of the directory, or one that goes on after it with a slash. -/
def AtOrBelow (dir path : Path) : Prop := path = dir ∨ dir ++ ['/'] <+: path

instance (dir path : Path) : Decidable (AtOrBelow dir path) :=
  inferInstanceAs (Decidable (_ ∨ _))

/-- A handle is open on the directory or below it. -/
def Blocked (s : FileSystem) (dir : Path) : Prop :=
  ∃ handle ∈ s.handles, handle.opened = true ∧ AtOrBelow dir handle.wiiPath

/-- A handle is open on a path that starts with the path of the directory, and is neither it nor below
it. -/
def OnSibling (s : FileSystem) (dir : Path) : Prop :=
  ∃ handle ∈ s.handles, handle.opened = true ∧ dir <+: handle.wiiPath ∧
    ¬AtOrBelow dir handle.wiiPath

/-- The path is a directory that the caller may delete. -/
structure MayDelete (s : FileSystem) (uid : Uid) (gid : Gid) (path : Path) : Prop where
  valid : isValidNonRootPath path = true
  parent : s.found (parentPath path) = true
  permission : (s.touch (parentPath path)).checkPermission (parentPath path) uid gid = true
  existsAt : s.host.existsAt (s.hostPath path) = true
  isDirectory : s.host.isFile (s.hostPath path) = false

/-- The old path is a directory that the caller may rename to the new path. -/
structure MayRename (s : FileSystem) (uid : Uid) (gid : Gid) (old new : Path) : Prop where
  validOld : isValidNonRootPath old = true
  validNew : isValidNonRootPath new = true
  parentOld : s.found (parentPath old) = true
  parentNew : s.found (parentPath new) = true
  permissionOld : ((s.touch (parentPath old)).touch (parentPath new)).checkPermission
    (parentPath old) uid gid = true
  permissionNew : ((s.touch (parentPath old)).touch (parentPath new)).checkPermission
    (parentPath new) uid gid = true
  found : s.found old = true
  isDirectory : s.host.isFile (s.hostPath old) = false

variable {s : FileSystem} {env : HostEnv} {uid : Uid} {gid : Gid} {path old new : Path}

theorem AtOrBelow.isPrefix {dir path : Path} (h : AtOrBelow dir path) : dir <+: path := by
  rcases h with rfl | h
  · exact List.prefix_rfl
  · exact (List.prefix_append dir ['/']).trans h

theorem isDirectoryInUse_iff : s.isDirectoryInUse path = true ↔
    ∃ handle ∈ s.handles, handle.opened = true ∧ path <+: handle.wiiPath := by
  simp only [isDirectoryInUse, List.any_eq_true, Bool.and_eq_true, List.isPrefixOf_iff_prefix]

theorem isDirectoryInUse_iff_blocked_or :
    s.isDirectoryInUse path = true ↔ Blocked s path ∨ OnSibling s path := by
  rw [isDirectoryInUse_iff]
  constructor
  · rintro ⟨handle, hmem, hopen, hstarts⟩
    by_cases hbelow : AtOrBelow path handle.wiiPath
    · exact .inl ⟨handle, hmem, hopen, hbelow⟩
    · exact .inr ⟨handle, hmem, hopen, hstarts, hbelow⟩
  · rintro (⟨handle, hmem, hopen, hbelow⟩ | ⟨handle, hmem, hopen, hstarts, -⟩)
    · exact ⟨handle, hmem, hopen, hbelow.isPrefix⟩
    · exact ⟨handle, hmem, hopen, hstarts⟩

theorem SameHost.isDirectoryInUse {s' : FileSystem} (h : SameHost s s') :
    s'.isDirectoryInUse path = s.isDirectoryInUse path := by
  rw [FileSystem.isDirectoryInUse, FileSystem.isDirectoryInUse, h.handles]

/-- **`Delete` of a directory** returns `InUse` exactly if the test says so. -/
theorem delete_inUse_iff (h : MayDelete s uid gid path) :
    (s.delete env uid gid path).1 = .inUse ↔ s.isDirectoryInUse path = true := by
  have hsame := sameHost_touch (s := s) (parentPath path)
  rw [FileSystem.delete, if_neg (by simp [h.valid]), if_neg (by simp [h.parent])]
  simp only
  rw [if_neg (by simp [h.permission]), hsame.hostPath, hsame.host, if_neg (by simp [h.existsAt]),
    if_neg (by simp [h.isDirectory]), hsame.isDirectoryInUse]
  by_cases huse : s.isDirectoryInUse path = true
  · rw [if_neg (by simp [huse])]
    exact iff_of_true rfl huse
  · rw [if_pos ⟨h.isDirectory, by simpa using huse⟩]
    exact iff_of_false (by simp) huse

theorem renameOnHost_ne_inUse (host : Host) (o n : HostPath) (redirect : Bool) :
    (renameOnHost env host o n redirect).1 ≠ .inUse := by
  unfold renameOnHost
  split
  · simp
  split
  · split
    · simp only
      split <;> simp
    · simp
  · simp

theorem rename_inUse_iff_checks :
    (s.rename env uid gid old new).1 = .inUse ↔
      (s.renameChecks uid gid old new).2 = some .inUse := by
  have hobject : (s.renameObject env uid gid old new).1 = .inUse ↔
      (s.renameChecks uid gid old new).2 = some .inUse := by
    unfold FileSystem.renameObject
    obtain ⟨s₁, error⟩ := s.renameChecks uid gid old new
    cases error with
    | some error => simp
    | none =>
      simp only [reduceCtorEq, iff_false]
      cases s₁.deleteTarget env (s₁.hostPath old) (s₁.hostPath new) with
      | none => simp
      | some host => exact renameOnHost_ne_inUse _ _ _ _
  rw [← hobject, FileSystem.rename]
  by_cases hsuccess : (s.renameObject env uid gid old new).1 = .success
  · rw [if_pos hsuccess, hsuccess]
  · rw [if_neg hsuccess]

/-- **`Rename` of a directory** returns `InUse` exactly if the test says so. -/
theorem rename_inUse_iff (h : MayRename s uid gid old new) :
    (s.rename env uid gid old new).1 = .inUse ↔ s.isDirectoryInUse old = true := by
  have hsame₁ := sameHost_touch (s := s) (parentPath old)
  have hsame₂ := hsame₁.trans (sameHost_touch (parentPath new))
  have hsame₃ := hsame₂.trans (sameHost_touch old)
  rw [rename_inUse_iff_checks, FileSystem.renameChecks,
    if_neg (by simp [h.validOld, h.validNew])]
  simp only
  rw [if_neg (by simp [h.parentOld, h.parentNew]),
    if_neg (by simp [h.permissionOld, h.permissionNew]), hsame₂.found, if_neg (by simp [h.found]),
    hsame₃.hostPath, hsame₃.host, if_neg (by simp [h.isDirectory]), hsame₃.isDirectoryInUse]
  by_cases huse : s.isDirectoryInUse old = true
  · rw [if_pos (.inl ⟨h.isDirectory, huse⟩)]
    exact iff_of_true rfl huse
  · rw [if_neg (by simp [h.isDirectory, huse])]
    exact iff_of_false (by simp) huse

theorem isDirectoryInUse_iff_blocked_iff :
    (s.isDirectoryInUse path = true ↔ Blocked s path) ↔ (OnSibling s path → Blocked s path) := by
  rw [isDirectoryInUse_iff_blocked_or]
  constructor
  · exact fun h hsibling => h.mp (.inr hsibling)
  · exact fun h => ⟨fun hor => hor.elim id h, .inl⟩

/-- **`InUse` of directories.** `Delete` and `Rename` return it exactly for a directory that an open
handle is on or below, if and only if no handle is open on a sibling, or one is on or below as well. -/
theorem inUse_iff (s : FileSystem) (env : HostEnv) (uid : Uid) (gid : Gid) (path : Path) :
    (MayDelete s uid gid path → (((s.delete env uid gid path).1 = .inUse ↔ Blocked s path) ↔
        (OnSibling s path → Blocked s path))) ∧
      ∀ new, MayRename s uid gid path new →
        (((s.rename env uid gid path new).1 = .inUse ↔ Blocked s path) ↔
          (OnSibling s path → Blocked s path)) := by
  refine ⟨fun h => ?_, fun new h => ?_⟩
  · rw [delete_inUse_iff h]
    exact isDirectoryInUse_iff_blocked_iff
  · rw [rename_inUse_iff h]
    exact isDirectoryInUse_iff_blocked_iff

/-- A NAND with the directory `/a` and the file `/ab`, which is open. -/
def nandWithSibling : FileSystem :=
  { FileSystem.start [] [] (fun path => if path = [] ∨ path = [['a']] then some .dir
      else if path = [['a', 'b']] then some (.file 5 0) else none) none with
    handles := [⟨true, ['/', 'a', 'b']⟩] }

theorem nandWithSibling_mayDelete : MayDelete nandWithSibling 0 0 ['/', 'a'] :=
  ⟨by decide, by decide, by decide, by decide, by decide⟩

theorem nandWithSibling_mayRename : MayRename nandWithSibling 0 0 ['/', 'a'] ['/', 'c'] :=
  ⟨by decide, by decide, by decide, by decide, by decide, by decide, by decide, by decide⟩

theorem inUse_iff_sibling :
    (((nandWithSibling.delete openEnv 0 0 ['/', 'a']).1 = .inUse ↔
        Blocked nandWithSibling ['/', 'a']) ↔
      (OnSibling nandWithSibling ['/', 'a'] → Blocked nandWithSibling ['/', 'a'])) ∧
    (((nandWithSibling.rename openEnv 0 0 ['/', 'a'] ['/', 'c']).1 = .inUse ↔
        Blocked nandWithSibling ['/', 'a']) ↔
      (OnSibling nandWithSibling ['/', 'a'] → Blocked nandWithSibling ['/', 'a'])) :=
  ⟨(inUse_iff nandWithSibling openEnv 0 0 ['/', 'a']).1 nandWithSibling_mayDelete,
    (inUse_iff nandWithSibling openEnv 0 0 ['/', 'a']).2 ['/', 'c'] nandWithSibling_mayRename⟩

theorem sibling_blocks :
    (nandWithSibling.delete openEnv 0 0 ['/', 'a']).1 = .inUse ∧
      (nandWithSibling.rename openEnv 0 0 ['/', 'a'] ['/', 'c']).1 = .inUse ∧
      MayDelete nandWithSibling 0 0 ['/', 'a'] ∧
      MayRename nandWithSibling 0 0 ['/', 'a'] ['/', 'c'] ∧ ¬Blocked nandWithSibling ['/', 'a'] := by
  refine ⟨by decide, by decide, nandWithSibling_mayDelete, nandWithSibling_mayRename, ?_⟩
  rintro ⟨handle, hmem, -, hbelow⟩
  obtain rfl := List.mem_singleton.mp hmem
  exact absurd hbelow (by decide)

end IOS.FS
