import PrimedSteam.Lib.Transition
import Mathlib.Algebra.Order.Group.Multiset
import Mathlib.Data.List.Nodup
import Mathlib.Logic.Function.Basic

/-!
# Who owns an open file

`FileHandle` objects, each of which closes its file when it is destroyed, and the handles of the file
systems.

* `FileHandle.moveAssign`: the assignment, which calls itself.
* `step`: the operations on objects. Each call of `OpenFile` that succeeds has a number.
* **`ownership_of_reach`**: in a run without an assignment between different handles, every open file
  has one owner, and each file is closed once.
-/

set_option autoImplicit false

namespace IOS.FS.Ownership

open Transition

/-- The address of a file system. -/
abbrev FsId := ℕ

abbrev Fd := ℕ

/-- The address of an object. -/
abbrev ObjectId := ℕ

/-- `FileHandle` -/
structure FileHandle where
  fs : FsId
  fd : Option Fd
  deriving DecidableEq

namespace FileHandle

/-- The move constructor: the new object, and what is left in the other one. -/
def moveConstruct (other : FileHandle) : FileHandle × FileHandle := (other, { other with fd := none })

/-- The move assignment, which assigns again unless the two are equal. `none` is that the calls do not
end. -/
def moveAssign : ℕ → FileHandle → FileHandle → Option (FileHandle × FileHandle)
  | 0, _, _ => none
  | fuel + 1, this, other =>
    if (this.fs, this.fd) ≠ (other.fs, other.fd) then moveAssign fuel this other
    else some (this, other)

/-- **An assignment ends only if there is nothing to assign.** -/
theorem moveAssign_eq (fuel : ℕ) (this other : FileHandle) :
    moveAssign (fuel + 1) this other = if this = other then some (this, other) else none := by
  obtain ⟨fs, fd⟩ := this
  obtain ⟨fs', fd'⟩ := other
  by_cases heq : (fs, fd) = (fs', fd')
  · obtain ⟨rfl, rfl⟩ := Prod.mk.inj heq
    simp [moveAssign]
  · have hne : (⟨fs, fd⟩ : FileHandle) ≠ ⟨fs', fd'⟩ := by simpa using heq
    rw [if_neg hne]
    induction fuel with
    | zero => simp only [moveAssign, ne_eq, heq, not_false_eq_true, if_true]
    | succ fuel ih =>
      rw [moveAssign, if_pos heq]
      exact ih

end FileHandle

/-- The number of handles of a `HostFileSystem`. -/
def handleCount : ℕ := 16

/-- The objects and the file systems. -/
structure World where
  /-- The handles that are open, with the number of the call of `OpenFile`. -/
  handles : FsId → Fd → Option ℕ
  objects : ObjectId → Option FileHandle
  /-- How many files have been opened. -/
  opened : ℕ
  /-- The files that `Release` gave to the caller. -/
  released : List ℕ
  /-- The files that have been closed. -/
  closed : List ℕ
  /-- All calls of `Close` in destructors succeeded. -/
  asserts : Bool

/-- Nothing is open. -/
def World.start : World := ⟨fun _ _ => none, fun _ => none, 0, [], [], true⟩

inductive Operation where
  /-- `OpenFile`, with an object for the result; `succeeds` tells that the file can be opened. -/
  | openFile (fs : FsId) (object : ObjectId) (succeeds : Bool)
  | moveConstruct (source target : ObjectId)
  | moveAssign (target source : ObjectId)
  | release (object : ObjectId)
  | destroy (object : ObjectId)

namespace World

variable (w : World)

/-- `AssignFreeHandle` -/
def assignFreeHandle (fs : FsId) : Option Fd :=
  (List.range handleCount).find? fun fd => (w.handles fs fd).isNone

/-- `Close`, with its success. -/
def close (fs : FsId) (fd : Fd) : Bool × World :=
  match if fd < handleCount then w.handles fs fd else none with
  | none => (false, w)
  | some file =>
    (true,
      { w with
        handles := Function.update w.handles fs (Function.update (w.handles fs) fd none)
        closed := file :: w.closed })

/-- `OpenFile`: a handle is assigned, and freed again where the file cannot be opened. -/
def openFile (fs : FsId) (object : ObjectId) (succeeds : Bool) : World :=
  match w.assignFreeHandle fs with
  | none => w
  | some fd =>
    if succeeds then
      { w with
        handles := Function.update w.handles fs (Function.update (w.handles fs) fd (some w.opened))
        objects := Function.update w.objects object (some ⟨fs, some fd⟩)
        opened := w.opened + 1 }
    else w

/-- `Release`; it throws where nothing is owned. -/
def release (object : ObjectId) : World :=
  match w.objects object with
  | some ⟨fs, some fd⟩ =>
    { w with
      objects := Function.update w.objects object (some ⟨fs, none⟩)
      released := (w.handles fs fd).toList ++ w.released }
  | _ => w

/-- The destructor. -/
def destroy (object : ObjectId) : World :=
  match w.objects object with
  | none => w
  | some h =>
    let w := { w with objects := Function.update w.objects object none }
    match h.fd with
    | none => w
    | some fd =>
      let r := w.close h.fs fd
      { r.2 with asserts := w.asserts && r.1 }

end World

/-- An operation. Objects that are not there, or a place that is not free, cannot be named in a
program: nothing happens. `none` is an operation that does not end. -/
def step (fuel : ℕ) (w : World) : Operation → Option World
  | .openFile fs object succeeds =>
    if w.objects object = none then some (w.openFile fs object succeeds) else some w
  | .moveConstruct source target =>
    match w.objects source with
    | some h =>
      if w.objects target = none then
        some { w with
          objects := Function.update (Function.update w.objects source
            (some h.moveConstruct.2)) target (some h.moveConstruct.1) }
      else some w
    | none => some w
  | .moveAssign target source =>
    match w.objects target, w.objects source with
    | some this, some other =>
      (this.moveAssign fuel other).map fun r =>
        { w with
          objects := Function.update (Function.update w.objects source (some r.2)) target
            (some r.1) }
    | _, _ => some w
  | .release object => some (w.release object)
  | .destroy object => some (w.destroy object)

/-- An assignment is between handles that are equal. -/
def Trivial (w : World) : Operation → Prop
  | .moveAssign target source =>
    ∀ this other, w.objects target = some this → w.objects source = some other → this = other
  | _ => True

/-! ## Ownership -/

/-- The file is open. -/
def Open (w : World) (file : ℕ) : Prop := ∃ fs fd, w.handles fs fd = some file

/-- The object closes the file when it is destroyed. -/
def Owns (w : World) (object : ObjectId) (file : ℕ) : Prop :=
  ∃ fs fd, w.objects object = some ⟨fs, some fd⟩ ∧ w.handles fs fd = some file

/-- **Ownership**: an open file has one owner or was released, a file that is not open was closed
once, and no destructor failed. -/
structure Sound (w : World) : Prop where
  owner_unique : ∀ file i j, Owns w i file → Owns w j file → i = j
  owner : ∀ file, Open w file → ((∃ i, Owns w i file) ↔ file ∉ w.released)
  once : ∀ file < w.opened, (Open w file ∧ w.closed.count file = 0) ∨
    (¬Open w file ∧ w.closed.count file = 1)
  asserts : w.asserts = true

/-- What every operation keeps. -/
structure Inv (w : World) : Prop where
  bound : ∀ fs fd file, w.handles fs fd = some file → fd < handleCount
  number : ∀ fs fd file, w.handles fs fd = some file → file < w.opened
  injective : ∀ fs fd fs' fd' file, w.handles fs fd = some file → w.handles fs' fd' = some file →
    fs = fs' ∧ fd = fd'
  live : ∀ i fs fd, w.objects i = some ⟨fs, some fd⟩ → ∃ file, w.handles fs fd = some file ∧
    file ∉ w.released
  unique : ∀ i j fs fd, w.objects i = some ⟨fs, some fd⟩ → w.objects j = some ⟨fs, some fd⟩ → i = j
  owned : ∀ fs fd file, w.handles fs fd = some file → file ∉ w.released →
    ∃ i, w.objects i = some ⟨fs, some fd⟩
  released : ∀ file ∈ w.released, file < w.opened
  closed : ∀ file < w.opened, (Open w file ∧ w.closed.count file = 0) ∨
    (¬Open w file ∧ w.closed.count file = 1)
  fresh : ∀ file ∈ w.closed, file < w.opened
  asserts : w.asserts = true

variable {w : World}

theorem Inv.sound (h : Inv w) : Sound w where
  owner_unique := by
    rintro file i j ⟨fs, fd, hi, hfile⟩ ⟨fs', fd', hj, hfile'⟩
    obtain ⟨rfl, rfl⟩ := h.injective fs fd fs' fd' file hfile hfile'
    exact h.unique i j fs fd hi hj
  owner := by
    rintro file ⟨fs, fd, hfile⟩
    constructor
    · rintro ⟨i, fs', fd', hi, hfile'⟩
      obtain ⟨rfl, rfl⟩ := h.injective fs fd fs' fd' file hfile hfile'
      obtain ⟨file', heq, hnot⟩ := h.live i fs fd hi
      obtain rfl : file = file' := Option.some_inj.mp (hfile.symm.trans heq)
      exact hnot
    · intro hnot
      obtain ⟨i, hi⟩ := h.owned fs fd file hfile hnot
      exact ⟨i, fs, fd, hi, hfile⟩
  once := h.closed
  asserts := h.asserts

theorem inv_start : Inv .start where
  bound _ _ _ h := by cases h
  number _ _ _ h := by cases h
  injective _ _ _ _ _ h := by cases h
  live _ _ _ h := by cases h
  unique _ _ _ _ h := by cases h
  owned _ _ _ h := by cases h
  released _ h := by cases h
  closed _ h := absurd h (Nat.not_lt_zero _)
  fresh _ h := by cases h
  asserts := rfl

theorem update_handle {handles : FsId → Fd → Option ℕ} {fs : FsId} {fd : Fd} {x : Option ℕ}
    (fs' : FsId) (fd' : Fd) :
    Function.update handles fs (Function.update (handles fs) fd x) fs' fd' =
      if fs' = fs ∧ fd' = fd then x else handles fs' fd' := by
  by_cases hfs : fs' = fs
  · subst hfs
    rw [Function.update_self]
    by_cases hfd : fd' = fd
    · subst hfd
      simp
    · simp [hfd]
  · simp [hfs]

theorem Inv.openFile (h : Inv w) {fs : FsId} {object : ObjectId} {succeeds : Bool}
    (hfree : w.objects object = none) : Inv (w.openFile fs object succeeds) := by
  unfold World.openFile
  split
  · exact h
  next fd hfd =>
    split
    case isFalse => exact h
    case isTrue =>
      have hlt : fd < handleCount := List.mem_range.mp (List.mem_of_find?_eq_some hfd)
      have hnone : w.handles fs fd = none := by simpa using List.find?_some hfd
      have hnew : ∀ fs' fd' file, w.handles fs' fd' = some file → ¬(fs' = fs ∧ fd' = fd) := by
        rintro fs' fd' file hfile ⟨rfl, rfl⟩
        rw [hnone] at hfile
        cases hfile
      have hobject : ∀ i fs' fd', w.objects i = some ⟨fs', some fd'⟩ → i ≠ object := by
        rintro i fs' fd' hi rfl
        rw [hfree] at hi
        cases hi
      have hopen : ∀ file, Open { w with
          handles := Function.update w.handles fs (Function.update (w.handles fs) fd
            (some w.opened))
          objects := Function.update w.objects object (some ⟨fs, some fd⟩)
          opened := w.opened + 1 } file ↔ Open w file ∨ file = w.opened := by
        intro file
        simp only [Open, update_handle]
        constructor
        · rintro ⟨fs', fd', hfile⟩
          split at hfile
          · exact .inr (Option.some_inj.mp hfile).symm
          · exact .inl ⟨fs', fd', hfile⟩
        · rintro (⟨fs', fd', hfile⟩ | rfl)
          · exact ⟨fs', fd', by rw [if_neg (hnew fs' fd' file hfile), hfile]⟩
          · exact ⟨fs, fd, if_pos ⟨rfl, rfl⟩⟩
      refine {
        bound := ?_, number := ?_, injective := ?_, live := ?_, unique := ?_, owned := ?_,
        released := ?_, closed := ?_, fresh := ?_, asserts := h.asserts }
      · intro fs' fd' file hfile
        simp only [update_handle] at hfile
        split at hfile
        · rename_i heq
          rw [heq.2]
          exact hlt
        · exact h.bound fs' fd' file hfile
      · intro fs' fd' file hfile
        simp only [update_handle] at hfile
        split at hfile
        · rw [← Option.some_inj.mp hfile]
          exact Nat.lt_succ_self _
        · exact Nat.lt_succ_of_lt (h.number fs' fd' file hfile)
      · intro fs₁ fd₁ fs₂ fd₂ file h₁ h₂
        simp only [update_handle] at h₁ h₂
        split at h₁ <;> split at h₂
        · rename_i heq₁ heq₂
          exact ⟨heq₁.1.trans heq₂.1.symm, heq₁.2.trans heq₂.2.symm⟩
        · obtain rfl := Option.some_inj.mp h₁
          exact absurd (h.number _ _ _ h₂) (lt_irrefl _)
        · obtain rfl := Option.some_inj.mp h₂
          exact absurd (h.number _ _ _ h₁) (lt_irrefl _)
        · exact h.injective fs₁ fd₁ fs₂ fd₂ file h₁ h₂
      · intro i fs' fd' hi
        simp only [update_handle]
        simp only at hi
        by_cases hi' : i = object
        · rw [hi', Function.update_self, Option.some_inj, FileHandle.mk.injEq,
            Option.some_inj] at hi
          refine ⟨w.opened, if_pos ⟨hi.1.symm, hi.2.symm⟩, fun hmem => ?_⟩
          exact absurd (h.released _ hmem) (lt_irrefl _)
        · rw [Function.update_of_ne hi'] at hi
          obtain ⟨file, hfile, hnot⟩ := h.live i fs' fd' hi
          exact ⟨file, by rw [if_neg (hnew fs' fd' file hfile), hfile], hnot⟩
      · intro i j fs' fd' hi hj
        have hcase : ∀ i, Function.update w.objects object (some ⟨fs, some fd⟩) i =
            some ⟨fs', some fd'⟩ → (i = object ∧ fs' = fs ∧ fd' = fd) ∨
              (w.objects i = some ⟨fs', some fd'⟩ ∧ ¬(fs' = fs ∧ fd' = fd)) := by
          intro i hi
          by_cases hi' : i = object
          · rw [hi', Function.update_self, Option.some_inj, FileHandle.mk.injEq,
              Option.some_inj] at hi
            exact .inl ⟨hi', hi.1.symm, hi.2.symm⟩
          · rw [Function.update_of_ne hi'] at hi
            obtain ⟨file, hfile, -⟩ := h.live i fs' fd' hi
            exact .inr ⟨hi, hnew fs' fd' file hfile⟩
        rcases hcase i hi with ⟨rfl, heq⟩ | ⟨hi', hne⟩ <;>
          rcases hcase j hj with ⟨rfl, heq'⟩ | ⟨hj', hne'⟩
        · rfl
        · exact absurd heq hne'
        · exact absurd heq' hne
        · exact h.unique i j fs' fd' hi' hj'
      · intro fs' fd' file hfile hnot
        simp only [update_handle] at hfile
        split at hfile
        · rename_i heq
          refine ⟨object, ?_⟩
          rw [heq.1, heq.2]
          exact Function.update_self ..
        · obtain ⟨i, hi⟩ := h.owned fs' fd' file hfile hnot
          exact ⟨i, (Function.update_of_ne (hobject i fs' fd' hi) ..).trans hi⟩
      · exact fun file hmem => Nat.lt_succ_of_lt (h.released file hmem)
      · intro file hlt'
        rw [hopen]
        simp only
        by_cases heq : file = w.opened
        · refine .inl ⟨.inr heq, List.count_eq_zero.mpr fun hmem => ?_⟩
          exact absurd (h.fresh file hmem) (by omega)
        · have hold : file < w.opened := by
            simp only at hlt'
            omega
          rcases h.closed file hold with ⟨hopen', hcount⟩ | ⟨hopen', hcount⟩
          · exact .inl ⟨.inl hopen', hcount⟩
          · exact .inr ⟨fun hor => hor.elim hopen' heq, hcount⟩
      · exact fun file hmem => Nat.lt_succ_of_lt (h.fresh file hmem)

theorem Inv.moveConstruct (h : Inv w) {source target : ObjectId} {handle : FileHandle}
    (hsource : w.objects source = some handle) (htarget : w.objects target = none) :
    Inv { w with
      objects := Function.update (Function.update w.objects source
        (some handle.moveConstruct.2)) target (some handle.moveConstruct.1) } := by
  have hne : source ≠ target := by
    rintro rfl
    rw [hsource] at htarget
    cases htarget
  -- an object that owns a file afterwards is the target, or it owned the file before
  have hcase : ∀ i fs fd, Function.update (Function.update w.objects source
      (some handle.moveConstruct.2)) target (some handle.moveConstruct.1) i =
        some ⟨fs, some fd⟩ →
      (i = target ∧ w.objects source = some ⟨fs, some fd⟩) ∨
        (i ≠ target ∧ i ≠ source ∧ w.objects i = some ⟨fs, some fd⟩) := by
    intro i fs fd hi
    by_cases hit : i = target
    · rw [hit, Function.update_self, FileHandle.moveConstruct] at hi
      exact .inl ⟨hit, hsource.trans hi⟩
    · rw [Function.update_of_ne hit] at hi
      by_cases his : i = source
      · rw [his, Function.update_self, FileHandle.moveConstruct, Option.some_inj] at hi
        cases hi
      · rw [Function.update_of_ne his] at hi
        exact .inr ⟨hit, his, hi⟩
  refine { h with live := ?_, unique := ?_, owned := ?_ }
  · intro i fs fd hi
    rcases hcase i fs fd hi with ⟨-, hi'⟩ | ⟨-, -, hi'⟩
    · exact h.live source fs fd hi'
    · exact h.live i fs fd hi'
  · intro i j fs fd hi hj
    rcases hcase i fs fd hi with ⟨rfl, hi'⟩ | ⟨hit, his, hi'⟩ <;>
      rcases hcase j fs fd hj with ⟨rfl, hj'⟩ | ⟨hjt, hjs, hj'⟩
    · rfl
    · exact absurd (h.unique j source fs fd hj' hi') hjs
    · exact absurd (h.unique i source fs fd hi' hj') his
    · exact h.unique i j fs fd hi' hj'
  · intro fs fd file hfile hnot
    obtain ⟨i, hi⟩ := h.owned fs fd file hfile hnot
    by_cases his : i = source
    · rw [his, hsource] at hi
      exact ⟨target, (Function.update_self ..).trans hi⟩
    · have hit : i ≠ target := by
        rintro rfl
        rw [htarget] at hi
        cases hi
      exact ⟨i, (Function.update_of_ne hit ..).trans ((Function.update_of_ne his ..).trans hi)⟩

theorem owners_after {object : ObjectId} {x : Option FileHandle} (hx : ∀ fs fd, x ≠ some ⟨fs, some fd⟩)
    {i : ObjectId} {fs : FsId} {fd : Fd} :
    Function.update w.objects object x i = some ⟨fs, some fd⟩ ↔
      i ≠ object ∧ w.objects i = some ⟨fs, some fd⟩ := by
  by_cases hi : i = object
  · rw [hi, Function.update_self]
    exact iff_of_false (hx fs fd) fun h => h.1 rfl
  · rw [Function.update_of_ne hi]
    exact ⟨fun h => ⟨hi, h⟩, And.right⟩

theorem Inv.release (h : Inv w) (object : ObjectId) : Inv (w.release object) := by
  unfold World.release
  split
  next fs fd hobject =>
    obtain ⟨file, hfile, hnot⟩ := h.live object fs fd hobject
    have hx : ∀ fs' fd', (some ⟨fs, none⟩ : Option FileHandle) ≠ some ⟨fs', some fd'⟩ := by
      intro fs' fd' heq
      cases heq
    rw [hfile]
    refine { h with live := ?_, unique := ?_, owned := ?_, released := ?_ }
    · intro i fs' fd' hi
      obtain ⟨hne, hi'⟩ := (owners_after hx).mp hi
      obtain ⟨file', hfile', hnot'⟩ := h.live i fs' fd' hi'
      refine ⟨file', hfile', fun hmem => ?_⟩
      rcases List.mem_cons.mp hmem with rfl | hmem
      · obtain ⟨rfl, rfl⟩ := h.injective fs fd fs' fd' file' hfile hfile'
        exact hne (h.unique i object fs fd hi' hobject)
      · exact hnot' hmem
    · intro i j fs' fd' hi hj
      exact h.unique i j fs' fd' ((owners_after hx).mp hi).2 ((owners_after hx).mp hj).2
    · intro fs' fd' file' hfile' hnot'
      have hne : file' ≠ file := fun heq => hnot' (heq ▸ List.mem_cons_self)
      obtain ⟨i, hi⟩ := h.owned fs' fd' file' hfile' fun hmem =>
        hnot' (List.mem_cons_of_mem _ hmem)
      refine ⟨i, (owners_after hx).mpr ⟨?_, hi⟩⟩
      rintro rfl
      rw [hobject, Option.some_inj, FileHandle.mk.injEq, Option.some_inj] at hi
      obtain ⟨rfl, rfl⟩ := hi
      exact hne (Option.some_inj.mp (hfile'.symm.trans hfile))
    · intro file' hmem
      rcases List.mem_cons.mp hmem with rfl | hmem
      · exact h.number fs fd file' hfile
      · exact h.released file' hmem
  · exact h

theorem Inv.destroy (h : Inv w) (object : ObjectId) : Inv (w.destroy object) := by
  have hx : ∀ fs' fd', (none : Option FileHandle) ≠ some ⟨fs', some fd'⟩ := by
    intro fs' fd' heq
    cases heq
  unfold World.destroy
  cases hobject : w.objects object with
  | none => exact h
  | some handle =>
    obtain ⟨fs, fd?⟩ := handle
    cases fd? with
    | none =>
      refine { h with live := ?_, unique := ?_, owned := ?_ }
      · intro i fs' fd' hi
        exact h.live i fs' fd' ((owners_after hx).mp hi).2
      · intro i j fs' fd' hi hj
        exact h.unique i j fs' fd' ((owners_after hx).mp hi).2 ((owners_after hx).mp hj).2
      · intro fs' fd' file hfile hnot
        obtain ⟨i, hi⟩ := h.owned fs' fd' file hfile hnot
        refine ⟨i, (owners_after hx).mpr ⟨?_, hi⟩⟩
        rintro rfl
        rw [hobject] at hi
        cases hi
    | some fd =>
      obtain ⟨file, hfile, hnot⟩ := h.live object fs fd hobject
      simp only [World.close, if_pos (h.bound fs fd file hfile), hfile, Bool.and_true]
      have hold : ∀ {fs' fd' file'}, (if fs' = fs ∧ fd' = fd then none else w.handles fs' fd') =
          some file' → w.handles fs' fd' = some file' ∧ file' ≠ file := by
        intro fs' fd' file' hfile'
        split at hfile'
        · cases hfile'
        · rename_i hne
          refine ⟨hfile', ?_⟩
          rintro rfl
          exact hne (h.injective fs' fd' fs fd file' hfile' hfile)
      have hkeep : ∀ {fs' fd' file'}, w.handles fs' fd' = some file' → file' ≠ file →
          (if fs' = fs ∧ fd' = fd then none else w.handles fs' fd') = some file' := by
        intro fs' fd' file' hfile' hne
        rw [if_neg, hfile']
        rintro ⟨rfl, rfl⟩
        exact hne (Option.some_inj.mp (hfile'.symm.trans hfile))
      have hopen : ∀ file', Open { w with
          objects := Function.update w.objects object none
          handles := Function.update w.handles fs (Function.update (w.handles fs) fd none)
          closed := file :: w.closed } file' ↔ Open w file' ∧ file' ≠ file := by
        intro file'
        simp only [Open, update_handle]
        constructor
        · rintro ⟨fs', fd', hfile'⟩
          exact ⟨⟨fs', fd', (hold hfile').1⟩, (hold hfile').2⟩
        · rintro ⟨⟨fs', fd', hfile'⟩, hne⟩
          exact ⟨fs', fd', hkeep hfile' hne⟩
      refine {
        bound := ?_, number := ?_, injective := ?_, live := ?_, unique := ?_, owned := ?_,
        released := h.released, closed := ?_, fresh := ?_, asserts := h.asserts }
      · intro fs' fd' file' hfile'
        simp only [update_handle] at hfile'
        exact h.bound fs' fd' file' (hold hfile').1
      · intro fs' fd' file' hfile'
        simp only [update_handle] at hfile'
        exact h.number fs' fd' file' (hold hfile').1
      · intro fs₁ fd₁ fs₂ fd₂ file' h₁ h₂
        simp only [update_handle] at h₁ h₂
        exact h.injective fs₁ fd₁ fs₂ fd₂ file' (hold h₁).1 (hold h₂).1
      · intro i fs' fd' hi
        obtain ⟨hne, hi'⟩ := (owners_after hx).mp hi
        obtain ⟨file', hfile', hnot'⟩ := h.live i fs' fd' hi'
        simp only [update_handle]
        refine ⟨file', hkeep hfile' ?_, hnot'⟩
        rintro rfl
        obtain ⟨rfl, rfl⟩ := h.injective fs' fd' fs fd file' hfile' hfile
        exact hne (h.unique i object fs' fd' hi' hobject)
      · intro i j fs' fd' hi hj
        exact h.unique i j fs' fd' ((owners_after hx).mp hi).2 ((owners_after hx).mp hj).2
      · intro fs' fd' file' hfile' hnot'
        simp only [update_handle] at hfile'
        obtain ⟨hfile', hne⟩ := hold hfile'
        obtain ⟨i, hi⟩ := h.owned fs' fd' file' hfile' hnot'
        refine ⟨i, (owners_after hx).mpr ⟨?_, hi⟩⟩
        rintro rfl
        rw [hobject, Option.some_inj, FileHandle.mk.injEq, Option.some_inj] at hi
        obtain ⟨rfl, rfl⟩ := hi
        exact hne (Option.some_inj.mp (hfile'.symm.trans hfile))
      · intro file' hlt
        have hopen' : Open w file := ⟨fs, fd, hfile⟩
        by_cases heq : file' = file
        · have hcount : w.closed.count file = 0 := by
            rcases h.closed file (h.number fs fd file hfile) with ⟨-, hcount⟩ | ⟨hnone, -⟩
            · exact hcount
            · exact absurd hopen' hnone
          refine .inr ⟨fun hopen'' => ((hopen file').mp hopen'').2 heq, ?_⟩
          rw [heq, List.count_cons_self, hcount]
        · have hcount : (file :: w.closed).count file' = w.closed.count file' :=
            List.count_cons_of_ne (Ne.symm heq)
          rcases h.closed file' hlt with ⟨hopen'', hzero⟩ | ⟨hopen'', hone⟩
          · exact .inl ⟨(hopen file').mpr ⟨hopen'', heq⟩, hcount.trans hzero⟩
          · exact .inr ⟨fun hopen''' => hopen'' ((hopen file').mp hopen''').1, hcount.trans hone⟩
      · intro file' hmem
        rcases List.mem_cons.mp hmem with rfl | hmem
        · exact h.number fs fd file' hfile
        · exact h.fresh file' hmem

/-- **Every operation but an assignment of another handle ends**, and keeps the invariant. -/
theorem Inv.step (h : Inv w) {fuel : ℕ} {op : Operation} (htrivial : Trivial w op) :
    ∃ w', step (fuel + 1) w op = some w' ∧ Inv w' := by
  cases op with
  | openFile fs object succeeds =>
    by_cases hfree : w.objects object = none
    · exact ⟨_, if_pos hfree, h.openFile hfree⟩
    · exact ⟨w, if_neg hfree, h⟩
  | moveConstruct source target =>
    rw [Ownership.step]
    cases hsource : w.objects source with
    | none => exact ⟨w, rfl, h⟩
    | some handle =>
      by_cases htarget : w.objects target = none
      · exact ⟨_, if_pos htarget, h.moveConstruct hsource htarget⟩
      · exact ⟨w, if_neg htarget, h⟩
  | moveAssign target source =>
    rw [Ownership.step]
    cases htarget : w.objects target with
    | none => exact ⟨w, rfl, h⟩
    | some this =>
      cases hsource : w.objects source with
      | none => exact ⟨w, rfl, h⟩
      | some other =>
        obtain rfl := htrivial this other htarget hsource
        simp only [FileHandle.moveAssign_eq, if_true, Option.map_some]
        refine ⟨w, ?_, h⟩
        rw [← hsource, Function.update_eq_self, hsource, ← htarget, Function.update_eq_self]
  | release object => exact ⟨_, rfl, h.release object⟩
  | destroy object => exact ⟨_, rfl, h.destroy object⟩

/-- **Ownership of open files.** In a run whose assignments are between equal handles, every such
operation ends, and ownership is sound in every state; any other assignment of a handle does not end. -/
theorem ownership_of_reach (fuel : ℕ) {w : World}
    (h : Reach (step (fuel + 1)) Trivial .start w) :
    Sound w ∧ ∀ op, (step (fuel + 1) w op).isSome ↔ Trivial w op := by
  have hinv : Inv w := h.invariant inv_start fun s op s' hs hop hstep => by
    obtain ⟨s'', hstep', hs''⟩ := hs.step hop
    obtain rfl := Option.some_inj.mp (hstep.symm.trans hstep')
    exact hs''
  refine ⟨hinv.sound, fun op => ⟨fun hsome => ?_, fun hop => ?_⟩⟩
  · cases op with
    | moveAssign target source =>
      intro this other htarget hsource
      rw [step, htarget, hsource] at hsome
      simp only [FileHandle.moveAssign_eq, Option.isSome_map] at hsome
      split at hsome
      · assumption
      · cases hsome
    | _ => trivial
  · obtain ⟨w', hstep, -⟩ := hinv.step hop
    rw [hstep]
    rfl

theorem ownership_of_moved_file :
    ∃ w, Reach (step 1) Trivial .start w ∧ w.closed = [0] ∧
      (Sound w ∧ ∀ op, (step 1 w op).isSome ↔ Trivial w op) := by
  have hopened : Reach (step 1) Trivial .start (World.start.openFile 0 0 true) :=
    .tail (.openFile 0 0 true) .refl trivial rfl
  have hmoved := Reach.tail (Operation.moveConstruct 0 1) hopened (by trivial) rfl
  have hassigned := Reach.tail (Operation.moveAssign 1 1) hmoved
    (by exact fun this other hthis hother => Option.some_inj.mp (hthis.symm.trans hother)) rfl
  have hdestroyed := Reach.tail (Operation.destroy 1) hassigned (by trivial) rfl
  exact ⟨_, hdestroyed, rfl, ownership_of_reach 0 hdestroyed⟩

/-- Two objects that own files. -/
def twoFiles : World := (World.start.openFile 0 0 true).openFile 0 1 true

/-- **The assignment of another file does not end.** -/
theorem moveAssign_does_not_end :
    ¬ ∀ (fuel : ℕ) (w : World), Reach (step fuel) anyStep .start w → ∀ op,
      ∃ fuel', (step fuel' w op).isSome := by
  intro hends
  have hreach : Reach (step 1) anyStep .start twoFiles :=
    .tail (.openFile 0 1 true) (.tail (.openFile 0 0 true) .refl trivial rfl) trivial rfl
  obtain ⟨fuel, hfuel⟩ := hends 1 twoFiles hreach (.moveAssign 0 1)
  cases fuel with
  | zero => cases hfuel
  | succ fuel =>
    have hobjects : twoFiles.objects 0 = some ⟨0, some 0⟩ ∧ twoFiles.objects 1 = some ⟨0, some 1⟩ :=
      ⟨by decide, by decide⟩
    rw [step, hobjects.1, hobjects.2] at hfuel
    simp [FileHandle.moveAssign_eq] at hfuel

end IOS.FS.Ownership
