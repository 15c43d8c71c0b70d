import Mathlib.Data.List.DropRight
import Mathlib.Data.List.Infix
import Mathlib.Data.List.TakeWhile

/-!
# Paths of Riivolution patches

`FileDataLoaderHostFS`: paths of external files, resolved below the root of the SD card or below the
root of the patch.

* `takeElement`: what one element of a path does to the result.
* `resolve`: the loop of `MakeAbsoluteFromRelative` over the elements.
* `Below root depth result`: the result is the root and `depth` proper components behind it.
* `Below.takeElement`: an element keeps this, so that going up never reaches into the root.
* **`makeAbsoluteFromRelative_below`**: a path that is resolved stays below its root.
-/

set_option autoImplicit false

namespace Riivolution

abbrev Text := List Char

/-! ## The loader -/

/-- The host file system, as far as the loader asks for it. A directory has names as an operating
system allows them. -/
structure HostFS where
  /-- `File::Exists` -/
  fileExists : Text → Bool
  /-- The virtual names of the children in `ScanDirectoryTree` of a directory. -/
  children : Text → List Text
  slash_notMem : ∀ directory, ∀ name ∈ children directory, '/' ∉ name
  ne_dots : ∀ directory, ∀ name ∈ children directory, name ≠ ['.'] ∧ name ≠ ['.', '.']

def toLower (c : Char) : Char :=
  if 'A' ≤ c ∧ c ≤ 'Z' then Char.ofNat (c.toNat + ('a'.toNat - 'A'.toNat)) else c

/-- `CaseInsensitiveEquals` -/
def caseInsensitiveEquals (a b : Text) : Bool := a.map toLower = b.map toLower

structure FileDataLoaderHostFS where
  sdRoot : Text
  patchRoot : Text

/-- `while (result.back() != '/') result.pop_back(); result.pop_back();` -/
def dropLastElement (result : Text) : Text := (result.rdropWhile (· ≠ '/')).dropLast

/-- The capitalization of an element that the host file system has; `result` ends in a slash. -/
def hostName (fs : HostFS) (result element : Text) : Text :=
  if fs.fileExists (result ++ element) then element
  else ((fs.children result).find? (caseInsensitiveEquals element)).getD element

/-- What one element does to the result and to the depth below the root. -/
def takeElement (fs : HostFS) (element : Text) (result : Text) (depth : ℕ) : Option (Text × ℕ) :=
  if element = ['.'] then some (result, depth)
  else if element = ['.', '.'] then
    if depth = 0 then none else some (dropLastElement result, depth - 1)
  else if element.all (· = '.') then none
  else some (result ++ ['/'] ++ hostName fs (result ++ ['/']) element, depth + 1)

/-- The loop over the elements of `work`. -/
def resolve (fs : HostFS) (work result : Text) (depth : ℕ) : Option Text :=
  if work = [] then some result
  else
    match takeElement fs (work.takeWhile (· ≠ '/')) result depth with
    | none => none
    | some (result', depth') =>
      match _h : work.dropWhile (· ≠ '/') with
      | [] => some result'
      | _ :: rest => resolve fs (rest.dropWhile (· = '/')) result' depth'
termination_by work.length
decreasing_by
  have hrest := List.length_dropWhile_le (· = '/') rest
  have hwork := List.length_dropWhile_le (· ≠ '/') work
  rw [_h, List.length_cons] at hwork
  omega

/-- `MakeAbsoluteFromRelative`. Backslashes are characters like any other here. -/
def FileDataLoaderHostFS.makeAbsoluteFromRelative (fs : HostFS) (loader : FileDataLoaderHostFS)
    (externalRelativePath : Text) : Option Text :=
  let root := if externalRelativePath.head? = some '/' then loader.sdRoot else loader.patchRoot
  resolve fs ((externalRelativePath.dropWhile (· = '/')).rdropWhile (· = '/')) root 0

/-- The constructor; `xmlFolder` is the directory of the XML file. -/
def FileDataLoaderHostFS.make (fs : HostFS) (sdRoot xmlFolder patchRoot : Text) : FileDataLoaderHostFS :=
  let loader := ⟨sdRoot, xmlFolder⟩
  if patchRoot = [] then loader
  else
    match makeAbsoluteFromRelative fs loader patchRoot with
    | none => loader
    | some r => { loader with patchRoot := r }

/-! ## Proper components -/

/-- A component of a path that goes down by one directory: it is not empty, holds no slash and does
not consist of dots. -/
structure Proper (component : Text) : Prop where
  ne_nil : component ≠ []
  slash_notMem : '/' ∉ component
  not_dots : ¬∀ c ∈ component, c = '.'

/-- Components, each behind a slash. -/
def joined (components : List Text) : Text := components.flatMap ('/' :: ·)

/-- The root and `depth` proper components. -/
def Below (root : Text) (depth : ℕ) (result : Text) : Prop :=
  ∃ components : List Text, result = root ++ joined components ∧ components.length = depth ∧
    ∀ c ∈ components, Proper c

variable {fs : HostFS} {root result : Text} {depth : ℕ}

theorem below_root (root : Text) : Below root 0 root :=
  ⟨[], (List.append_nil root).symm, rfl, by simp⟩

theorem Below.append (h : Below root depth result) {component : Text} (hproper : Proper component) :
    Below root (depth + 1) (result ++ ['/'] ++ component) := by
  obtain ⟨components, rfl, rfl, hall⟩ := h
  refine ⟨components ++ [component], ?_, by simp, ?_⟩
  · simp [joined]
  · intro c hc
    rcases List.mem_append.mp hc with hc | hc
    · exact hall c hc
    · exact List.mem_singleton.mp hc ▸ hproper

/-- The end of a text behind its last slash is what is dropped. -/
theorem dropLastElement_append {text element : Text} (h : '/' ∉ element) :
    dropLastElement (text ++ '/' :: element) = text := by
  have hdrop : (text ++ '/' :: element).rdropWhile (· ≠ '/') = text ++ ['/'] := by
    induction element using List.reverseRecOn with
    | nil => rw [List.rdropWhile_concat_neg _ _ _ (by simp)]
    | append_singleton element c ih =>
      rw [List.mem_append, not_or, List.mem_singleton] at h
      have hassoc : text ++ '/' :: (element ++ [c]) = (text ++ '/' :: element) ++ [c] := by simp
      rw [hassoc, List.rdropWhile_concat_pos _ _ _ (by simpa using Ne.symm h.2), ih h.1]
  rw [dropLastElement, hdrop, List.dropLast_concat]

/-- Going up stays below the root: what is dropped was appended. -/
theorem Below.dropLastElement (h : Below root depth result) (hdepth : depth ≠ 0) :
    Below root (depth - 1) (dropLastElement result) := by
  obtain ⟨components, rfl, rfl, hall⟩ := h
  rcases List.eq_nil_or_concat' components with rfl | ⟨init, last, rfl⟩
  · exact absurd rfl hdepth
  have hlast : Proper last := hall last (by simp)
  have hjoined : root ++ joined (init ++ [last]) = (root ++ joined init) ++ '/' :: last := by
    simp [joined]
  refine ⟨init, ?_, by simp, fun c hc => hall c (List.mem_append_left _ hc)⟩
  rw [hjoined, dropLastElement_append hlast.slash_notMem]

/-! ## Elements -/

theorem toLower_eq_dot_iff (c : Char) : toLower c = '.' ↔ c = '.' := by
  rw [toLower]
  split
  · next hupper =>
    have hletters : ∀ n < 91, 65 ≤ n → Char.ofNat (n + ('a'.toNat - 'A'.toNat)) ≠ '.' := by decide
    have hle : c.toNat ≤ 90 := hupper.2
    refine iff_of_false (hletters c.toNat (by omega) hupper.1) ?_
    rintro rfl
    exact absurd hupper (by decide)
  · rfl

theorem dots_of_caseInsensitiveEquals {a b : Text} (h : caseInsensitiveEquals a b = true)
    (hb : ∀ c ∈ b, c = '.') : ∀ c ∈ a, c = '.' := by
  intro c hc
  have hmap : a.map toLower = b.map toLower := of_decide_eq_true h
  have hmem : toLower c ∈ b.map toLower := hmap ▸ List.mem_map_of_mem hc
  obtain ⟨d, hd, heq⟩ := List.mem_map.mp hmem
  rw [hb d hd] at heq
  exact (toLower_eq_dot_iff c).mp heq.symm

theorem proper_hostName {element : Text} (h : Proper element) (directory : Text) :
    Proper (hostName fs directory element) := by
  rw [hostName]
  split
  · exact h
  cases hfind : (fs.children directory).find? (caseInsensitiveEquals element) with
  | none => exact h
  | some name =>
    have hmem := List.mem_of_find?_eq_some hfind
    have hequal := List.find?_some hfind
    have hlength : element.length = name.length := by
      have hmap : element.map toLower = name.map toLower := of_decide_eq_true hequal
      rw [← List.length_map (f := toLower), hmap, List.length_map]
    refine ⟨fun hnil => ?_, fs.slash_notMem directory name hmem, fun hdots => ?_⟩
    · rw [Option.getD_some] at hnil
      rw [hnil] at hlength
      exact h.ne_nil (List.length_eq_zero_iff.mp hlength)
    · exact h.not_dots (dots_of_caseInsensitiveEquals hequal hdots)

theorem Below.takeElement (h : Below root depth result) {element result' : Text} {depth' : ℕ}
    (hne : element ≠ []) (hslash : '/' ∉ element)
    (htake : takeElement fs element result depth = some (result', depth')) :
    Below root depth' result' := by
  rw [Riivolution.takeElement] at htake
  split at htake
  · cases htake
    exact h
  split at htake
  · split at htake
    · cases htake
    · next hdepth =>
      cases htake
      exact h.dropLastElement hdepth
  split at htake
  · cases htake
  · next hdots =>
    cases htake
    refine h.append (proper_hostName ⟨hne, hslash, fun hall => hdots ?_⟩ _)
    exact List.all_eq_true.mpr fun c hc => decide_eq_true (hall c hc)

/-- Where an element starts there is no slash, so that it has a first character. -/
def Starts (work : Text) : Prop := work.head? ≠ some '/'

theorem starts_dropWhile (work : Text) : Starts (work.dropWhile (· = '/')) := by
  intro h
  have hhead := List.head?_dropWhile_not (· = '/') work
  rw [h] at hhead
  simp at hhead

theorem starts_rdropWhile {work : Text} (h : Starts work) : Starts (work.rdropWhile (· = '/')) := by
  intro hhead
  obtain ⟨rest, hrest⟩ := List.head?_eq_some_iff.mp hhead
  obtain ⟨dropped, hwork⟩ := List.rdropWhile_prefix (· = '/') work
  rw [hrest] at hwork
  exact h (hwork ▸ rfl)

theorem element_of_starts {work : Text} (hwork : Starts work) (hne : work ≠ []) :
    work.takeWhile (· ≠ '/') ≠ [] ∧ '/' ∉ work.takeWhile (· ≠ '/') := by
  constructor
  · cases work with
    | nil => exact absurd rfl hne
    | cons c work =>
      have hc : c ≠ '/' := fun heq => hwork (heq ▸ rfl)
      rw [List.takeWhile_cons_of_pos (by simpa using hc)]
      exact List.cons_ne_nil _ _
  · intro hmem
    exact absurd (List.mem_takeWhile_imp hmem) (by simp)

theorem Below.resolve (h : Below root depth result) {work path : Text} (hwork : Starts work)
    (hresolve : resolve fs work result depth = some path) : ∃ d, Below root d path := by
  fun_induction Riivolution.resolve fs work result depth with
  | case1 result depth =>
    cases hresolve
    exact ⟨depth, h⟩
  | case2 => cases hresolve
  | case3 work result depth hne result' depth' htake hdrop =>
    cases hresolve
    obtain ⟨helement, hslash⟩ := element_of_starts hwork hne
    exact ⟨depth', h.takeElement helement hslash htake⟩
  | case4 work result depth hne result' depth' htake slash rest hdrop ih =>
    obtain ⟨helement, hslash⟩ := element_of_starts hwork hne
    exact ih (h.takeElement helement hslash htake) (starts_dropWhile rest) hresolve

/-- The states of the loop: what is left of the path, the result and the depth. -/
inductive Reached (fs : HostFS) (root path : Text) : Text → Text → ℕ → Prop
  | start : Reached fs root path ((path.dropWhile (· = '/')).rdropWhile (· = '/')) root 0
  | step {work result rest result' : Text} {depth depth' : ℕ} {slash : Char} :
    Reached fs root path work result depth → work ≠ [] →
    takeElement fs (work.takeWhile (· ≠ '/')) result depth = some (result', depth') →
    work.dropWhile (· ≠ '/') = slash :: rest →
    Reached fs root path (rest.dropWhile (· = '/')) result' depth'

theorem Reached.result_below {path work : Text} (h : Reached fs root path work result depth) :
    Starts work ∧ Below root depth result := by
  induction h with
  | start => exact ⟨starts_rdropWhile (starts_dropWhile path), below_root root⟩
  | step _ hne htake _ ih =>
    obtain ⟨helement, hslash⟩ := element_of_starts ih.1 hne
    exact ⟨starts_dropWhile _, ih.2.takeElement helement hslash htake⟩

theorem Below.root_le (h : Below root depth result) : root <+: result := by
  obtain ⟨components, rfl, -, -⟩ := h
  exact List.prefix_append root _

/-! ## The loader -/

/-- The root that a path is resolved against. -/
def FileDataLoaderHostFS.rootOf (loader : FileDataLoaderHostFS) (path : Text) : Text :=
  if path.head? = some '/' then loader.sdRoot else loader.patchRoot

theorem resolved_below {loader : FileDataLoaderHostFS} {path : Text}
    (h : loader.makeAbsoluteFromRelative fs path = some result) :
    ∃ d, Below (loader.rootOf path) d result :=
  (below_root _).resolve (starts_rdropWhile (starts_dropWhile path)) h

theorem sdRoot_make (fs : HostFS) (sdRoot xmlFolder patchRoot : Text) :
    (FileDataLoaderHostFS.make fs sdRoot xmlFolder patchRoot).sdRoot = sdRoot := by
  rw [FileDataLoaderHostFS.make]
  dsimp only
  split
  · rfl
  · split <;> rfl

/-- The root of a patch is below the folder of the XML file or below the SD card. -/
theorem patchRoot_make (fs : HostFS) (sdRoot xmlFolder patchRoot : Text) :
    ∃ d, Below sdRoot d (FileDataLoaderHostFS.make fs sdRoot xmlFolder patchRoot).patchRoot ∨
      Below xmlFolder d (FileDataLoaderHostFS.make fs sdRoot xmlFolder patchRoot).patchRoot := by
  rw [FileDataLoaderHostFS.make]
  dsimp only
  split
  · exact ⟨0, Or.inr (below_root xmlFolder)⟩
  split
  · exact ⟨0, Or.inr (below_root xmlFolder)⟩
  · next r hr =>
    obtain ⟨d, hd⟩ := resolved_below hr
    rw [FileDataLoaderHostFS.rootOf] at hd
    split at hd
    · exact ⟨d, Or.inl hd⟩
    · exact ⟨d, Or.inr hd⟩

/-- **Paths stay below their root.** What is resolved is the root and proper components behind it; in
every state of the loop this is so for the result, and going up leaves the root as it is. -/
theorem makeAbsoluteFromRelative_below (fs : HostFS) (sdRoot xmlFolder patchRoot path : Text) :
    let loader := FileDataLoaderHostFS.make fs sdRoot xmlFolder patchRoot
    loader.sdRoot = sdRoot ∧
    (∃ d, Below sdRoot d loader.patchRoot ∨ Below xmlFolder d loader.patchRoot) ∧
    (∀ result, loader.makeAbsoluteFromRelative fs path = some result →
      ∃ d, Below (loader.rootOf path) d result) ∧
    ∀ work result depth, Reached fs (loader.rootOf path) path work result depth →
      Below (loader.rootOf path) depth result ∧
        (depth ≠ 0 → loader.rootOf path <+: dropLastElement result) := by
  refine ⟨sdRoot_make fs sdRoot xmlFolder patchRoot, patchRoot_make fs sdRoot xmlFolder patchRoot,
    fun result h => resolved_below h, fun work result depth h => ?_⟩
  have hbelow := h.result_below.2
  exact ⟨hbelow, fun hdepth => (hbelow.dropLastElement hdepth).root_le⟩

/-- A card with one directory. -/
def oneFolder : HostFS where
  fileExists := fun _ => false
  children := fun _ => ["Mods".toList]
  slash_notMem := fun _ => by decide
  ne_dots := fun _ => by decide

theorem resolve_oneFolder :
    (FileDataLoaderHostFS.make oneFolder "/sd".toList "/xml".toList []).makeAbsoluteFromRelative oneFolder
      "/mods/../mods".toList = some "/sd/Mods".toList := by
  rw [FileDataLoaderHostFS.makeAbsoluteFromRelative, resolve]
  change resolve oneFolder "../mods".toList "/sd/Mods".toList 1 = _
  rw [resolve]
  change resolve oneFolder "mods".toList "/sd".toList 0 = _
  rw [resolve]
  decide

theorem makeAbsoluteFromRelative_below_oneFolder :
    ∃ d, Below "/sd".toList d "/sd/Mods".toList :=
  (makeAbsoluteFromRelative_below oneFolder "/sd".toList "/xml".toList [] "/mods/../mods".toList).2.2.1 _
    resolve_oneFolder

end Riivolution
