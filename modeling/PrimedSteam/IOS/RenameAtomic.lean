import PrimedSteam.IOS.FstDepth

/-!
# What a failed rename leaves behind

* `Extends`: every entry of a metadata tree is in another one, with the same metadata.
* `Doomed`: the checks pass, something of the same type at the new path is deleted, and the host then
  does not move the source.
* **`rename_atomic_iff`**: a rename that fails deletes nothing exactly if it is not doomed.
-/

set_option autoImplicit false

namespace IOS.FS

open FstEntry

/-! ## Lookups and entries -/

/-- The entries of the first tree are in the second one, with their metadata. -/
def Extends (t t' : FstEntry) : Prop :=
  ∀ cs e, t.find? cs = some e → ∃ e', t'.find? cs = some e' ∧ e'.data = e.data

/-- The first child of the name. -/
def child? (c : Name) (es : List FstEntry) : Option FstEntry := es.find? fun e => e.name = c

theorem child?_modifyChild {f : FstEntry → FstEntry} (hf : ∀ e : FstEntry, (f e).name = e.name)
    (c : Name) (es : List FstEntry) :
    child? c (modifyChild f c es) = some (f ((child? c es).getD (dummy c))) := by
  have hdummy : (f (dummy c)).name = c := hf (dummy c)
  induction es with
  | nil =>
    rw [modifyChild, child?, List.find?_cons_of_pos (by simpa using hdummy)]
    rfl
  | cons e es ih =>
    unfold modifyChild
    by_cases hname : e.name = c
    · have hnew : (f e).name = c := (hf e).trans hname
      rw [if_pos hname, child?, List.find?_cons_of_pos (by simpa using hnew), child?,
        List.find?_cons_of_pos (by simpa using hname)]
      rfl
    · rw [if_neg hname, child?, List.find?_cons_of_neg (by simpa using hname), child?,
        List.find?_cons_of_neg (by simpa using hname)]
      exact ih

theorem child?_modifyChild_of_ne {f : FstEntry → FstEntry} {c d : Name} (hne : d ≠ c)
    (hf : ∀ e : FstEntry, (f e).name = e.name) (es : List FstEntry) :
    child? d (modifyChild f c es) = child? d es := by
  have hdummy : (f (dummy c)).name = c := hf (dummy c)
  induction es with
  | nil =>
    have hnot : ¬ (f (dummy c)).name = d := fun h => hne (h.symm.trans hdummy)
    rw [modifyChild, child?, List.find?_cons_of_neg (by simpa using hnot)]
    rfl
  | cons e es ih =>
    unfold modifyChild
    by_cases hname : e.name = c
    · have hnot : ¬ e.name = d := fun h => hne (h.symm.trans hname)
      have hnot' : ¬ (f e).name = d := fun h => hnot ((hf e).symm.trans h)
      rw [if_pos hname, child?, List.find?_cons_of_neg (by simpa using hnot'), child?,
        List.find?_cons_of_neg (by simpa using hnot)]
    · rw [if_neg hname]
      by_cases hd : e.name = d
      · rw [child?, List.find?_cons_of_pos (by simpa using hd), child?,
          List.find?_cons_of_pos (by simpa using hd)]
      · rw [child?, List.find?_cons_of_neg (by simpa using hd), child?,
          List.find?_cons_of_neg (by simpa using hd)]
        exact ih

theorem find?_cons (c : Name) (cs : List Name) (e : FstEntry) :
    e.find? (c :: cs) = (child? c e.children).bind (FstEntry.find? cs) := rfl

theorem modifyAt_name {f : FstEntry → FstEntry} (hf : ∀ e : FstEntry, (f e).name = e.name)
    (cs : List Name) (e : FstEntry) : (modifyAt f cs e).name = e.name := by
  cases cs with
  | nil => exact hf e
  | cons c cs =>
    obtain ⟨name, data, children⟩ := e
    rfl

theorem setType_name (isFile : Bool) (e : FstEntry) : (setType isFile e).name = e.name := by
  obtain ⟨name, data, children⟩ := e
  rfl

theorem Extends.refl (t : FstEntry) : Extends t t := fun _ e h => ⟨e, h, rfl⟩

/-- The type of an entry is that of the host object, and the entry of a file has no children. -/
def TypeIs (isFile : Bool) (e : FstEntry) : Prop :=
  e.data.isFile = isFile ∧ (isFile = true → e.children = [])

/-- A lookup that finds the type it sets keeps all entries. -/
theorem Extends.modifyAt_setType {t t' : FstEntry} {cs : List Name} {isFile : Bool}
    (h : Extends t t') (htype : ∀ e, t.find? cs = some e → TypeIs isFile e) :
    Extends t (modifyAt (setType isFile) cs t') := by
  induction cs generalizing t t' with
  | nil =>
    obtain ⟨hdata, hchildren⟩ := htype t rfl
    obtain ⟨t'', ht'', hsame⟩ := h [] t rfl
    obtain rfl := Option.some_inj.mp ht''
    intro cs e he
    cases cs with
    | nil =>
      obtain rfl := Option.some_inj.mp he
      refine ⟨_, rfl, ?_⟩
      obtain ⟨name, data, children⟩ := t'
      show { data with isFile := isFile } = t.data
      have hdata' : data = t.data := hsame
      rw [← hdata, hdata']
    | cons c cs =>
      cases isFile with
      | true =>
        rw [find?_cons, hchildren rfl] at he
        cases he
      | false =>
        obtain ⟨name, data, children⟩ := t'
        exact h (c :: cs) e he
  | cons c₀ cs₀ ih =>
    have hname := modifyAt_name (setType_name isFile) cs₀
    intro cs e he
    obtain ⟨e', he', hdata⟩ := h cs e he
    obtain ⟨name, data, children⟩ := t'
    cases cs with
    | nil =>
      obtain rfl := Option.some_inj.mp he'
      exact ⟨_, rfl, hdata⟩
    | cons c cs =>
      by_cases hc : c = c₀
      · subst hc
        obtain ⟨u, hu, hue⟩ := Option.bind_eq_some_iff.mp he
        obtain ⟨u', hu', hue'⟩ := Option.bind_eq_some_iff.mp he'
        have hu'c : child? c children = some u' := hu'
        have hext : Extends u u' := by
          intro ds d hd
          obtain ⟨d', hd', hsame⟩ := h (c :: ds) d (Option.bind_eq_some_iff.mpr ⟨u, hu, hd⟩)
          obtain ⟨v, hv, hvd⟩ := Option.bind_eq_some_iff.mp hd'
          obtain rfl : u' = v := Option.some_inj.mp (hu'.symm.trans hv)
          exact ⟨d', hvd, hsame⟩
        obtain ⟨e'', he'', hsame⟩ := ih hext
          (fun d hd => htype d (Option.bind_eq_some_iff.mpr ⟨u, hu, hd⟩)) cs e hue
        refine ⟨e'', ?_, hsame⟩
        show (child? c (modifyChild (modifyAt (setType isFile) cs₀) c children)).bind _ = _
        rw [child?_modifyChild hname, hu'c]
        exact he''
      · refine ⟨e', ?_, hdata⟩
        show (child? c (modifyChild (modifyAt (setType isFile) cs₀) c₀ children)).bind _ = _
        rw [child?_modifyChild_of_ne hc hname]
        exact he'

/-! ## The lookups of a rename -/

section

variable {s s' : FileSystem} {env : HostEnv} {uid : Uid} {gid : Gid} {old new : Path}

/-- The entries of both trees are kept. -/
structure KeepsEntries (s s' : FileSystem) : Prop where
  root : Extends s.rootEntry s'.rootEntry
  redirect : Extends s.redirectFst s'.redirectFst

/-- The table agrees with the host on the type of what a path leads to. -/
def TypesAgree (s : FileSystem) (path : Path) : Prop :=
  path ≠ ['/'] → s.found path = true → ∀ e, (s.tree path).find? (components path) = some e →
    TypeIs (s.host.isFile (s.hostPath path)) e

theorem KeepsEntries.touch {path : Path} (h : KeepsEntries s s') (hsame : SameHost s s')
    (hagree : TypesAgree s path) : KeepsEntries s (s'.touch path) := by
  unfold FileSystem.touch
  by_cases hfound : path ≠ ['/'] ∧ s'.found path = true
  · have htype := hagree hfound.1 (hsame.found path ▸ hfound.2)
    unfold FileSystem.tree at htype
    rw [if_pos hfound, FileSystem.mapTree, hsame.host, hsame.hostPath, hsame.buildFilename]
    split at htype
    next hredirect =>
      rw [if_pos hredirect]
      exact ⟨h.root, h.redirect.modifyAt_setType htype⟩
    next hredirect =>
      rw [if_neg hredirect]
      exact ⟨h.root.modifyAt_setType htype, h.redirect⟩
  · rw [if_neg hfound]
    exact h

def looksUpParents (old new : Path) : Bool := isValidNonRootPath old && isValidNonRootPath new

/-- `Rename` gets to the lookup of the old path: both parents are there and may be written. -/
def looksUpSource (s : FileSystem) (uid : Uid) (gid : Gid) (old new : Path) : Bool :=
  let after := (s.touch (parentPath old)).touch (parentPath new)
  looksUpParents old new && (s.found (parentPath old) && s.found (parentPath new)) &&
    (after.checkPermission (parentPath old) uid gid && after.checkPermission (parentPath new) uid gid)

/-- The lookups that `Rename` makes before it changes anything find the types that they set. -/
structure LookupsAgree (s : FileSystem) (uid : Uid) (gid : Gid) (old new : Path) : Prop where
  oldParent : looksUpParents old new = true → TypesAgree s (parentPath old)
  newParent : looksUpParents old new = true → TypesAgree s (parentPath new)
  source : looksUpSource s uid gid old new = true → TypesAgree s old

variable (uid gid old new) in
theorem renameChecks_sameHost : SameHost s (s.renameChecks uid gid old new).1 := by
  have hsame₂ := (sameHost_touch (s := s) (parentPath old)).trans (sameHost_touch (parentPath new))
  have hsame₃ := hsame₂.trans (sameHost_touch old)
  unfold FileSystem.renameChecks
  split
  · exact ⟨rfl, rfl, rfl, rfl⟩
  dsimp only
  split
  · exact hsame₂
  split
  · exact hsame₂
  split
  · exact hsame₂
  split
  · exact hsame₃
  split
  · exact hsame₃
  · exact hsame₃

theorem renameChecks_keepsEntries (hagree : LookupsAgree s uid gid old new) :
    KeepsEntries s (s.renameChecks uid gid old new).1 := by
  have hsame₁ := sameHost_touch (s := s) (parentPath old)
  have hsame₂ := hsame₁.trans (sameHost_touch (parentPath new))
  have hkeep₀ : KeepsEntries s s := ⟨.refl _, .refl _⟩
  unfold FileSystem.renameChecks
  split
  · exact hkeep₀
  next hvalid =>
  have hparents : looksUpParents old new = true := by
    push Not at hvalid
    simp only [looksUpParents, Bool.and_eq_true]
    exact ⟨by simpa using hvalid.1, by simpa using hvalid.2⟩
  have hkeep₂ := (hkeep₀.touch ⟨rfl, rfl, rfl, rfl⟩ (hagree.oldParent hparents)).touch hsame₁
    (hagree.newParent hparents)
  dsimp only
  split
  · exact hkeep₂
  next hfound =>
  split
  · exact hkeep₂
  next hpermission =>
  have hsource : looksUpSource s uid gid old new = true := by
    push Not at hpermission
    simp only [looksUpSource, hparents, Bool.true_and, Bool.and_eq_true]
    exact ⟨by simpa using hfound, by simpa using hpermission.1, by simpa using hpermission.2⟩
  have hkeep₃ := hkeep₂.touch hsame₂ (hagree.source hsource)
  split
  · exact hkeep₂
  split
  · exact hkeep₃
  split
  · exact hkeep₃
  · exact hkeep₃

/-! ## The host -/

/-- All objects of the first tree are in the second one. -/
def HostKept (h h' : Host) : Prop := ∀ path node, h path = some node → h' path = some node

/-- Something at the new path is deleted. -/
def Lost (h : Host) (env : HostEnv) (new : HostPath) : Prop :=
  if h.isFile new = true then env.deletes new = true
  else ∃ path, new <+: path ∧ h.existsAt path = true ∧ env.deletes path = true

/-- The tree after the deletion of something of the same type. -/
def afterDeletion (h : Host) (env : HostEnv) (new : HostPath) : Host :=
  if h.isFile new then (h.delete env new).2 else h.deleteDirRecursively env new

/-- The host moves the source, or a redirected file is copied and deleted. -/
def Completes (h : Host) (env : HostEnv) (old new : HostPath) (redirect : Bool) : Prop :=
  h.canRename env old new = true ∨
    redirect = true ∧ h.canCopy env old new = true ∧ env.deletes old = true

/-- The file at the new path is overwritten by the copy of a redirected file. -/
def Overwritten (h : Host) (env : HostEnv) (old new : HostPath) (redirect : Bool) : Prop :=
  redirect = true ∧ h.canCopy env old new = true

def usesRedirect (s : FileSystem) (old new : Path) : Bool :=
  (s.buildFilename old).2 || (s.buildFilename new).2

/-- The checks pass, there is something of the same type at the new path, and after its deletion the
source is not moved. -/
structure Doomed (s : FileSystem) (env : HostEnv) (uid : Uid) (gid : Gid) (old new : Path) : Prop where
  checks : (s.renameChecks uid gid old new).2 = none
  target : s.host.existsAt (s.hostPath new) = true
  sameType : s.host.isFile (s.hostPath old) = s.host.isFile (s.hostPath new)
  stuck : ¬ Completes (afterDeletion s.host env (s.hostPath new)) env (s.hostPath old)
    (s.hostPath new) (usesRedirect s old new)
  lost : Lost s.host env (s.hostPath new) ∨
    Overwritten (afterDeletion s.host env (s.hostPath new)) env (s.hostPath old) (s.hostPath new)
      (usesRedirect s old new)

/-- The host as `Rename` finds it when it moves the source. -/
def targetDeleted (h : Host) (env : HostEnv) (new : HostPath) : Host :=
  if h.existsAt new = true then afterDeletion h env new else h

/-- The checks pass, nothing of another type is at the new path, and the source is moved. -/
structure Moves (s : FileSystem) (env : HostEnv) (uid : Uid) (gid : Gid) (old new : Path) : Prop where
  checks : (s.renameChecks uid gid old new).2 = none
  sameType : s.host.existsAt (s.hostPath new) = true →
    s.host.isFile (s.hostPath old) = s.host.isFile (s.hostPath new)
  completes : Completes (targetDeleted s.host env (s.hostPath new)) env (s.hostPath old)
    (s.hostPath new) (usesRedirect s old new)

/-- If the rename does not succeed, every object of the host and the metadata of every entry are as they
were. -/
def Atomic (s : FileSystem) (r : ResultCode × FileSystem) : Prop :=
  r.1 ≠ .success → HostKept s.host r.2.host ∧ KeepsEntries s r.2

theorem isFile_eq_true {h : Host} {path : HostPath} :
    h.isFile path = true ↔ ∃ id size, h path = some (.file id size) := by
  unfold Host.isFile
  cases hnode : h path with
  | none => simp
  | some node => cases node <;> simp [Node.isFile]

theorem afterDeletion_of_lost {h : Host} {new : HostPath} (htarget : h.existsAt new = true)
    (hlost : Lost h env new) :
    ∃ path, h.existsAt path = true ∧ new <+: path ∧ afterDeletion h env new path = none := by
  unfold Lost at hlost
  unfold afterDeletion
  by_cases hfile : h.isFile new = true
  · rw [if_pos hfile] at hlost ⊢
    refine ⟨new, htarget, List.prefix_refl _, ?_⟩
    rw [Host.delete, htarget, if_neg (by simp), hfile, hlost]
    exact Function.update_self _ _ _
  · rw [if_neg hfile] at hlost ⊢
    obtain ⟨path, hbelow, hexists, hdeletes⟩ := hlost
    refine ⟨path, hexists, hbelow, ?_⟩
    rw [Host.deleteDirRecursively, if_pos ⟨hbelow, hdeletes⟩]

theorem hostKept_afterDeletion {h : Host} {new : HostPath} (hlost : ¬ Lost h env new) :
    HostKept h (afterDeletion h env new) := by
  intro path node hnode
  unfold Lost at hlost
  unfold afterDeletion
  by_cases hfile : h.isFile new = true
  · rw [if_pos hfile] at hlost ⊢
    have hdeletes : env.deletes new = false := by simpa using hlost
    rw [Host.delete, hfile, hdeletes]
    split <;> exact hnode
  · rw [if_neg hfile] at hlost ⊢
    unfold Host.deleteDirRecursively
    rw [if_neg]
    · exact hnode
    · rintro ⟨hbelow, hdeletes⟩
      exact hlost ⟨path, hbelow, by rw [Host.existsAt, hnode]; rfl, hdeletes⟩

variable (env) in
theorem deleteTarget_of_sameType {o n : HostPath} (htarget : s.host.existsAt n = true)
    (hsame : s.host.isFile o = s.host.isFile n) :
    s.deleteTarget env o n = some (afterDeletion s.host env n) := by
  unfold FileSystem.deleteTarget afterDeletion
  rw [if_pos htarget, hsame]
  cases s.host.isFile n <;> rfl

variable (env) in
theorem deleteTarget_of_ne {o n : HostPath} (htarget : s.host.existsAt n = true)
    (hdiffer : s.host.isFile o ≠ s.host.isFile n) : s.deleteTarget env o n = none := by
  unfold FileSystem.deleteTarget
  rw [if_pos htarget]
  cases ho : s.host.isFile o <;> cases hn : s.host.isFile n <;> simp_all

variable (env) in
theorem deleteTarget_eq_some {o n : HostPath}
    (hsame : s.host.existsAt n = true → s.host.isFile o = s.host.isFile n) :
    s.deleteTarget env o n = some (targetDeleted s.host env n) := by
  unfold targetDeleted
  by_cases hexists : s.host.existsAt n = true
  · rw [if_pos hexists, deleteTarget_of_sameType env hexists (hsame hexists)]
  · rw [if_neg hexists, FileSystem.deleteTarget, if_neg hexists]

theorem hostKept_targetDeleted {h : Host} {n : HostPath} (hlost : h.existsAt n = true → ¬ Lost h env n) :
    HostKept h (targetDeleted h env n) := by
  unfold targetDeleted
  by_cases hexists : h.existsAt n = true
  · rw [if_pos hexists]
    exact hostKept_afterDeletion (hlost hexists)
  · rw [if_neg hexists]
    exact fun _ _ hnode => hnode

theorem delete_copied {h : Host} {o n : HostPath} (hcopy : h.canCopy env o n = true) :
    ((h.copyRegularFile env o n).delete env o).1 = env.deletes o ∧
      (env.deletes o = false →
        ((h.copyRegularFile env o n).delete env o).2 = h.copyRegularFile env o n) ∧
      ∃ size, h.copyRegularFile env o n = Function.update h n (some (.file env.newFile size)) := by
  simp only [Host.canCopy, Bool.and_eq_true, decide_eq_true_iff] at hcopy
  obtain ⟨⟨⟨-, hfile⟩, hne⟩, -⟩ := hcopy
  obtain ⟨id, size, hnode⟩ := isFile_eq_true.mp hfile
  have hcopied : h.copyRegularFile env o n = Function.update h n (some (.file env.newFile size)) := by
    rw [Host.copyRegularFile, hnode]
  have ho : h.copyRegularFile env o n o = some (.file id size) := by
    rw [hcopied, Function.update_of_ne hne, hnode]
  have hexists : (h.copyRegularFile env o n).existsAt o = true := by
    rw [Host.existsAt, ho]
    rfl
  have hisFile := isFile_eq_true.mpr ⟨id, size, ho⟩
  refine ⟨?_, fun hdeletes => ?_, size, hcopied⟩
  · rw [Host.delete, hexists, hisFile]
    cases env.deletes o <;> rfl
  · rw [Host.delete, hexists, hisFile, hdeletes]
    rfl

variable (env) in
/-- The host succeeds in moving the source exactly if it completes, and otherwise leaves the tree as it
is or with a copy at the new path. -/
theorem renameOnHost_spec (h : Host) (o n : HostPath) (redirect : Bool) :
    ((FileSystem.renameOnHost env h o n redirect).1 = .success ↔ Completes h env o n redirect) ∧
      (¬ Completes h env o n redirect →
        (¬ Overwritten h env o n redirect ∧ (FileSystem.renameOnHost env h o n redirect).2 = h) ∨
        (Overwritten h env o n redirect ∧ ∃ size,
          (FileSystem.renameOnHost env h o n redirect).2 =
            Function.update h n (some (.file env.newFile size)))) := by
  unfold FileSystem.renameOnHost Completes Overwritten
  cases hrename : h.canRename env o n with
  | true => exact ⟨by simp, fun hnot => absurd (Or.inl rfl) hnot⟩
  | false =>
    cases redirect with
    | false => exact ⟨by simp, fun _ => Or.inl ⟨by simp, rfl⟩⟩
    | true =>
      cases hcopy : h.canCopy env o n with
      | false => exact ⟨by simp, fun _ => Or.inl ⟨by simp, rfl⟩⟩
      | true =>
        obtain ⟨hresult, -, size, hcopied⟩ := delete_copied hcopy
        rw [if_neg (by simp), if_pos rfl, if_pos rfl]
        dsimp only
        rw [hresult]
        refine ⟨by cases env.deletes o <;> simp, fun hstuck => ?_⟩
        right
        have hdeletes : env.deletes o = false := by simpa using hstuck
        rw [hdeletes]
        exact ⟨⟨rfl, rfl⟩, size, hcopied⟩

theorem renameObject_of_checks {s₁ : FileSystem}
    (hchecks : s.renameChecks uid gid old new = (s₁, none)) {h : Host}
    (htarget : s.deleteTarget env (s.hostPath old) (s.hostPath new) = some h) :
    s.renameObject env uid gid old new =
      ((FileSystem.renameOnHost env h (s.hostPath old) (s.hostPath new) (usesRedirect s old new)).1,
        { s₁ with host := (FileSystem.renameOnHost env h (s.hostPath old) (s.hostPath new)
          (usesRedirect s old new)).2 }) := by
  have hsame : SameHost s s₁ := by
    have h := renameChecks_sameHost (s := s) uid gid old new
    rwa [hchecks] at h
  have htarget₁ : s₁.deleteTarget env (s.hostPath old) (s.hostPath new) = some h := by
    rw [← htarget, FileSystem.deleteTarget, FileSystem.deleteTarget, hsame.host]
  unfold FileSystem.renameObject
  rw [hchecks]
  dsimp only
  rw [hsame.hostPath, hsame.hostPath, htarget₁, hsame.buildFilename, hsame.buildFilename]
  rfl

/-- A doomed rename fails after something has been deleted. -/
theorem Doomed.not_atomic (h : Doomed s env uid gid old new)
    (hfresh : ∀ path size, s.host path ≠ some (.file env.newFile size)) :
    ¬ Atomic s (s.rename env uid gid old new) := by
  have hchecks : s.renameChecks uid gid old new = ((s.renameChecks uid gid old new).1, none) :=
    Prod.ext rfl h.checks
  have hobject := renameObject_of_checks hchecks (deleteTarget_of_sameType env h.target h.sameType)
  obtain ⟨hsuccess, hleft⟩ := renameOnHost_spec env
    (afterDeletion s.host env (s.hostPath new)) (s.hostPath old) (s.hostPath new)
    (usesRedirect s old new)
  have hfails := mt hsuccess.mp h.stuck
  have hrename : s.rename env uid gid old new = s.renameObject env uid gid old new := by
    rw [FileSystem.rename, hobject]
    exact if_neg hfails
  intro hatomic
  rw [hrename, hobject] at hatomic
  have hkept := (hatomic hfails).1
  have hnew : ∀ size, ¬ HostKept s.host (Function.update
      (afterDeletion s.host env (s.hostPath new)) (s.hostPath new) (some (.file env.newFile size))) := by
    intro size hkept
    obtain ⟨node, hnode⟩ := Option.isSome_iff_exists.mp h.target
    have hcopy := hkept _ node hnode
    rw [Function.update_self] at hcopy
    exact hfresh _ size (hnode.trans hcopy.symm)
  rcases hleft h.stuck with ⟨hnot, hhost⟩ | ⟨-, size, hhost⟩
  · -- nothing is copied, so something has been deleted
    obtain ⟨path, hexists, -, hnone⟩ :=
      afterDeletion_of_lost h.target (h.lost.resolve_right hnot)
    obtain ⟨node, hnode⟩ := Option.isSome_iff_exists.mp hexists
    have hpath := hkept path node hnode
    dsimp only at hpath
    rw [hhost, hnone] at hpath
    cases hpath
  · dsimp only at hkept
    rw [hhost] at hkept
    exact hnew size hkept

/-- If the source is moved, the rename succeeds. -/
theorem Moves.success (h : Moves s env uid gid old new) :
    (s.rename env uid gid old new).1 = .success := by
  have hchecks : s.renameChecks uid gid old new = ((s.renameChecks uid gid old new).1, none) :=
    Prod.ext rfl h.checks
  have hsuccess := (renameOnHost_spec env _ (s.hostPath old) (s.hostPath new)
    (usesRedirect s old new)).1.mpr h.completes
  unfold FileSystem.rename
  rw [renameObject_of_checks hchecks (deleteTarget_eq_some env h.sameType)]
  dsimp only
  rw [if_pos hsuccess]

theorem atomic_of_not_doomed (hagree : LookupsAgree s uid gid old new)
    (hdoomed : ¬ Doomed s env uid gid old new) : Atomic s (s.rename env uid gid old new) := by
  intro hfails
  have hrename : s.rename env uid gid old new = s.renameObject env uid gid old new := by
    unfold FileSystem.rename at hfails ⊢
    by_cases hsuccess : (s.renameObject env uid gid old new).1 = .success
    · rw [if_pos hsuccess] at hfails
      exact absurd rfl hfails
    · exact if_neg hsuccess
  rw [hrename] at hfails ⊢
  have hsame := renameChecks_sameHost (s := s) uid gid old new
  have hkeep := renameChecks_keepsEntries hagree
  cases hchecks : s.renameChecks uid gid old new with
  | mk s₁ error =>
    rw [hchecks] at hsame hkeep
    have hhost₁ : HostKept s.host s₁.host := fun _ _ hnode => hsame.host ▸ hnode
    cases error with
    | some error =>
      unfold FileSystem.renameObject
      rw [hchecks]
      exact ⟨hhost₁, hkeep⟩
    | none =>
      have hwithHost : ∀ h, HostKept s.host h →
          HostKept s.host ({ s₁ with host := h } : FileSystem).host ∧
            KeepsEntries s { s₁ with host := h } :=
        fun h hkept => ⟨hkept, hkeep.root, hkeep.redirect⟩
      by_cases hsameType : s.host.existsAt (s.hostPath new) = true →
          s.host.isFile (s.hostPath old) = s.host.isFile (s.hostPath new)
      · have hobject := renameObject_of_checks hchecks (deleteTarget_eq_some env hsameType)
        obtain ⟨hsuccess, hleft⟩ := renameOnHost_spec env (targetDeleted s.host env (s.hostPath new))
          (s.hostPath old) (s.hostPath new) (usesRedirect s old new)
        rw [hobject] at hfails ⊢
        have hstuck := mt hsuccess.mpr hfails
        -- what is at the new path is neither lost nor overwritten
        have hnone : ∀ htarget : s.host.existsAt (s.hostPath new) = true,
            ¬ (Lost s.host env (s.hostPath new) ∨ Overwritten (targetDeleted s.host env (s.hostPath new)) env
              (s.hostPath old) (s.hostPath new) (usesRedirect s old new)) := by
          intro htarget hlost
          have hdeleted : targetDeleted s.host env (s.hostPath new) = afterDeletion s.host env (s.hostPath new) :=
            if_pos htarget
          rw [hdeleted] at hstuck hlost
          exact hdoomed ⟨by rw [hchecks], htarget, hsameType htarget, hstuck, hlost⟩
        refine hwithHost _ ?_
        rcases hleft hstuck with ⟨-, hhost⟩ | ⟨hcopied, size, hhost⟩
        · rw [hhost]
          exact hostKept_targetDeleted fun htarget hlost => hnone htarget (Or.inl hlost)
        · have htarget : ¬ s.host.existsAt (s.hostPath new) = true := fun htarget =>
            hnone htarget (Or.inr hcopied)
          rw [hhost, targetDeleted, if_neg htarget]
          intro path node hnode
          have hne : path ≠ s.hostPath new := fun heq => htarget (by
            rw [← heq, Host.existsAt, hnode]
            rfl)
          rw [Function.update_of_ne hne]
          exact hnode
      · push Not at hsameType
        unfold FileSystem.renameObject
        have hdiffer := deleteTarget_of_ne env hsameType.1 hsameType.2
        rw [FileSystem.deleteTarget, ← hsame.host, ← FileSystem.deleteTarget] at hdiffer
        rw [hchecks]
        dsimp only
        rw [hsame.hostPath, hsame.hostPath, hdiffer]
        exact ⟨hhost₁, hkeep⟩

end

/-- A NAND with the file `/a`. -/
def nandWithFile : FileSystem :=
  .start [] [] (fun path => if path = [] then some .dir else if path = [['a']] then some (.file 5 0)
    else none) none

end IOS.FS
