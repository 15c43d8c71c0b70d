import PrimedSteam.IOS.FstDepth
import Mathlib.Data.List.Infix
import Mathlib.Data.List.Sort

/-!
# Escaped names of host files

* `unescapeFileName`: the scan for escape sequences. `unescape_escape`: it undoes `escapeFileName`.
* `escapedPath`: the string of `EscapePath`, with `escapedPath_injective` on the paths of the NAND.
* `readDirectory`: the names that a directory of the host shows, with `fixupDirectoryEntries`.
* **`escaped_names_faithful`**: the names that are shown are those that were created.
-/

set_option autoImplicit false

namespace IOS.FS

/-! ## The scan -/

/-- The value of a hexadecimal digit. -/
def hexDigit? (c : Char) : Option ℕ :=
  if '0' ≤ c ∧ c ≤ '9' then some (c.toNat - '0'.toNat)
  else if 'a' ≤ c ∧ c ≤ 'f' then some (c.toNat - 'a'.toNat + 10)
  else if 'A' ≤ c ∧ c ≤ 'F' then some (c.toNat - 'A'.toNat + 10)
  else none

/-- `FromChars` on two characters in base 16: a second one that is no digit is left over. -/
def fromChars (a b : Char) : Option ℕ :=
  (hexDigit? a).map fun x =>
    match hexDigit? b with
    | some y => 16 * x + y
    | none => x

/-- `UnescapeFileName`, from `pos` on. What is put before `pos` is not scanned again; after an
underscore that starts no escape sequence the scan goes on with the next character. -/
def unescapeFileName : Name → Name
  | '_' :: '_' :: a :: b :: '_' :: '_' :: cs =>
    match fromChars a b with
    | some character => Char.ofNat character :: unescapeFileName cs
    | none => '_' :: unescapeFileName ('_' :: a :: b :: '_' :: '_' :: cs)
  | c :: cs => c :: unescapeFileName cs
  | [] => []

/-- What `EscapeFileName` appends for a character. -/
def escapeChar (c : Char) : Name := if isIllegalCharacter c then hexByte c else [c]

theorem toNat_lt_of_illegal {c : Char} (h : isIllegalCharacter c = true) : c.toNat < 128 := by
  rw [isIllegalCharacter, Bool.or_eq_true, decide_eq_true_eq] at h
  rcases h with h | h
  · omega
  · have hall : ['\"', '*', '/', ':', '<', '>', '?', '\\', '|', '\x7f'].all (·.toNat < 128) = true := by
      decide
    exact of_decide_eq_true (List.all_eq_true.mp hall c (List.contains_iff_mem.mp h))

theorem digits_spec : ∀ n < 128,
    fromChars (Nat.digitChar (n / 16 % 16)) (Nat.digitChar (n % 16)) = some n ∧
      Nat.digitChar (n % 16) ≠ '_' ∧
        isIllegalCharacter (Nat.digitChar (n / 16 % 16)) = false ∧
          isIllegalCharacter (Nat.digitChar (n % 16)) = false := by
  decide +kernel

theorem unescape_hexByte {c : Char} (h : c.toNat < 128) (cs : Name) :
    unescapeFileName (hexByte c ++ cs) = c :: unescapeFileName cs := by
  have hdigits := (digits_spec c.toNat h).1
  show unescapeFileName ('_' :: '_' :: _ :: _ :: '_' :: '_' :: cs) = _
  rw [unescapeFileName, hdigits]
  exact congrArg (· :: _) (Char.ofNat_toNat c)

theorem unescape_cons {c : Char} {cs : Name}
    (h : c = '_' → ∀ a b rest, cs ≠ '_' :: a :: b :: '_' :: '_' :: rest) :
    unescapeFileName (c :: cs) = c :: unescapeFileName cs := by
  rw [unescapeFileName]
  intro a b rest hc hcs
  exact h hc a b rest hcs

theorem flatMap_escapeChar_underscores :
    "__5f____5f__".toList.flatMap escapeChar = "__5f____5f__".toList := by
  simp [escapeChar, isIllegalCharacter]

theorem escapeUnderscores_cons {c : Char} {cs : Name} (h : c ≠ '_') :
    escapeUnderscores (c :: cs) = c :: escapeUnderscores cs := by
  generalize hs : c :: cs = s
  fun_cases escapeUnderscores s with
  | case1 rest => exact absurd (List.cons.inj hs).1 h
  | case2 c' cs' =>
    obtain ⟨rfl, rfl⟩ := List.cons.inj hs
    rfl
  | case3 => cases hs

/-- **The scan of an escaped name.** An underscore before an escape sequence is not taken for a part
of it, since the last digit of the sequence is no underscore. -/
theorem unescape_flatMap (s : Name) :
    unescapeFileName ((escapeUnderscores s).flatMap escapeChar) = s := by
  fun_induction escapeUnderscores s with
  | case1 cs ih =>
    rw [List.flatMap_append, flatMap_escapeChar_underscores]
    show unescapeFileName ('_' :: '_' :: '5' :: 'f' :: '_' :: '_' :: '_' :: '_' :: '5' :: 'f' ::
      '_' :: '_' :: (escapeUnderscores cs).flatMap escapeChar) = _
    simp [unescapeFileName, fromChars, hexDigit?, ih]
  | case2 c cs hne ih =>
    rw [List.flatMap_cons, escapeChar]
    split
    · next hillegal => rw [unescape_hexByte (toNat_lt_of_illegal hillegal), ih]
    · rw [List.singleton_append, unescape_cons, ih]
      rintro rfl a b rest heq
      cases cs with
      | nil => cases heq
      | cons d ds =>
        have hd : d ≠ '_' := fun h => hne ds rfl (by rw [h])
        rw [escapeUnderscores_cons hd, List.flatMap_cons, escapeChar] at heq
        split at heq
        · next hillegal =>
          have hlast := (digits_spec d.toNat (toNat_lt_of_illegal hillegal)).2.1
          have hcons : '_' :: '_' :: Nat.digitChar (d.toNat / 16 % 16) ::
              Nat.digitChar (d.toNat % 16) :: '_' :: '_' ::
                (escapeUnderscores ds).flatMap escapeChar = '_' :: a :: b :: '_' :: '_' :: rest := heq
          simp only [List.cons.injEq] at hcons
          exact hlast hcons.2.2.2.1
        · exact hd (List.cons.inj heq).1
  | case3 => rfl

/-- **`UnescapeFileName` undoes `EscapeFileName`.** -/
theorem unescape_escape (s : Name) : unescapeFileName (escapeFileName s) = s := by
  rw [escapeFileName]
  split
  · next hdots =>
    have hdot : "__2e__".toList = hexByte '.' := rfl
    rw [hdot]
    induction s with
    | nil => rfl
    | cons c s ih =>
      rw [List.all_cons, Bool.and_eq_true, beq_iff_eq] at hdots
      rw [List.flatMap_cons, hdots.1, unescape_hexByte (by decide), ih hdots.2]
  · exact unescape_flatMap s

theorem escapeFileName_injective : Function.Injective escapeFileName :=
  Function.LeftInverse.injective unescape_escape

theorem unescape_eq_self {s : Name} (h : ¬['_', '_'] <:+: s) : unescapeFileName s = s := by
  fun_induction unescapeFileName s with
  | case1 a b cs character hvalue ih => exact absurd (List.prefix_append ['_', '_'] _).isInfix h
  | case2 a b cs hvalue ih => exact absurd (List.prefix_append ['_', '_'] _).isInfix h
  | case3 c cs hne ih => rw [ih fun hinside => h (hinside.trans (List.suffix_cons c cs).isInfix)]
  | case4 => rfl

theorem legal_of_mem_hexByte {c d : Char} (hd : d.toNat < 128) (hc : c ∈ hexByte d) :
    isIllegalCharacter c = false := by
  obtain ⟨-, -, hhigh, hlow⟩ := digits_spec d.toNat hd
  have hmem : c ∈ ['_', '_', Nat.digitChar (d.toNat / 16 % 16), Nat.digitChar (d.toNat % 16), '_',
      '_'] := hc
  simp only [List.mem_cons, List.not_mem_nil, or_false] at hmem
  rcases hmem with rfl | rfl | rfl | rfl | rfl | rfl
  · decide
  · decide
  · exact hhigh
  · exact hlow
  · decide
  · decide

/-- **An escaped name has no illegal character.** -/
theorem legal_of_mem_escape {s : Name} {c : Char} (hc : c ∈ escapeFileName s) :
    isIllegalCharacter c = false := by
  rw [escapeFileName] at hc
  split at hc
  · obtain ⟨-, -, hc⟩ := List.mem_flatMap.mp hc
    exact legal_of_mem_hexByte (d := '.') (by decide) hc
  · obtain ⟨d, -, hc⟩ := List.mem_flatMap.mp hc
    split at hc
    · next hillegal => exact legal_of_mem_hexByte (toNat_lt_of_illegal hillegal) hc
    · next hlegal =>
      rw [List.mem_singleton.mp hc]
      exact Bool.eq_false_of_not_eq_true hlegal

/-- **An escaped name is not composed of dots only.** -/
theorem escape_not_dots {s : Name} (hs : s ≠ []) : ∃ c ∈ escapeFileName s, c ≠ '.' := by
  by_contra hdots
  push Not at hdots
  -- a name of dots is not changed by the scan, so that it would be the escaped name of itself
  have hself : unescapeFileName (escapeFileName s) = escapeFileName s :=
    unescape_eq_self fun hinside =>
      absurd (hdots '_' (hinside.subset List.mem_cons_self)) (by decide)
  rw [unescape_escape] at hself
  have hall : s.all (· == '.') = true := by
    rw [List.all_eq_true]
    intro c hc
    rw [hself] at hc
    exact beq_iff_eq.mpr (hdots c hc)
  obtain ⟨c, cs, rfl⟩ := List.exists_cons_of_ne_nil hs
  have hmem : '_' ∈ escapeFileName (c :: cs) := by
    rw [escapeFileName, if_pos hall]
    exact List.mem_flatMap.mpr ⟨c, List.mem_cons_self, by simp⟩
  exact absurd (hdots '_' hmem) (by decide)

/-! ## Paths -/

/-- The string of `EscapePath`. -/
def escapedPath (path : Path) : Path :=
  ['/'].intercalate ((splitString path).map escapeFileName)

theorem parts_eq_splitOn (path : Path) : parts path = path.splitOn '/' := by
  induction path with
  | nil => rfl
  | cons c cs ih =>
    rw [parts, List.splitOn_cons_eq_if_modifyHead, ← ih]
    by_cases hc : c = '/'
    · simp [hc]
    · simp only [hc, if_false, beq_iff_eq]
      cases hparts : parts cs with
      | nil => exact absurd hparts (parts_ne_nil cs)
      | cons part rest => rfl

theorem parts_escapedPath {path : Path} (h : splitString path ≠ []) :
    parts (escapedPath path) = (splitString path).map escapeFileName := by
  rw [parts_eq_splitOn, escapedPath, List.splitOn_intercalate]
  · intro name hname hslash
    obtain ⟨part, -, rfl⟩ := List.mem_map.mp hname
    exact absurd (legal_of_mem_escape hslash) (by decide)
  · simpa using h

theorem getLast?_parts {path : Path} (h : (parts path).getLast? = some []) :
    path = [] ∨ path.getLast? = some '/' := by
  induction path with
  | nil => exact .inl rfl
  | cons c cs ih =>
    right
    rw [parts] at h
    cases cs with
    | nil =>
      by_cases hc : c = '/'
      · rw [hc]
        rfl
      · simp [hc, parts] at h
    | cons d ds =>
      rw [List.getLast?_cons_cons]
      have hlast : (parts (d :: ds)).getLast? = some [] := by
        cases hparts : parts (d :: ds) with
        | nil => exact absurd hparts (parts_ne_nil _)
        | cons part rest =>
          rw [hparts] at h
          by_cases hc : c = '/'
          · rw [if_pos hc, List.getLast?_cons_cons] at h
            exact h
          · rw [if_neg hc] at h
            cases rest with
            | nil => cases h
            | cons part' rest => exact h
      exact (ih hlast).resolve_left (List.cons_ne_nil d ds)

theorem splitString_eq_parts {path : Path} (h : isValidNonRootPath path = true) :
    splitString path = parts path := by
  rw [splitString, if_neg]
  intro hlast
  simp only [isValidNonRootPath, Bool.and_eq_true, decide_eq_true_eq] at h
  rcases getLast?_parts hlast with rfl | hslash
  · exact absurd h.1.1.1 (by simp)
  · exact h.2 hslash

theorem eq_of_parts_eq {p q : Path} (h : parts p = parts q) : p = q := by
  rw [parts_eq_splitOn, parts_eq_splitOn] at h
  have hjoin : ['/'].intercalate (p.splitOn '/') = p := List.intercalate_splitOn _
  rw [← hjoin, h, List.intercalate_splitOn]

theorem eq_of_splitString_eq {p q : Path} (hp : isValidPath p = true) (hq : isValidPath q = true)
    (h : splitString p = splitString q) : p = q := by
  have hroot : ∀ path, isValidNonRootPath path = true → splitString path ≠ splitString ['/'] := by
    intro path hpath heq
    rw [splitString_eq_parts hpath] at heq
    have hnil : path = [] := eq_of_parts_eq (q := []) heq
    rw [hnil] at hpath
    cases hpath
  rw [isValidPath, Bool.or_eq_true, decide_eq_true_eq] at hp hq
  rcases hp with rfl | hp <;> rcases hq with rfl | hq
  · rfl
  · exact absurd h.symm (hroot q hq)
  · exact absurd h (hroot p hp)
  · rw [splitString_eq_parts hp, splitString_eq_parts hq] at h
    exact eq_of_parts_eq h

theorem splitString_ne_nil {path : Path} (h : isValidPath path = true) : splitString path ≠ [] := by
  rw [isValidPath, Bool.or_eq_true, decide_eq_true_eq] at h
  rcases h with rfl | h
  · decide
  · rw [splitString_eq_parts h]
    exact parts_ne_nil path

/-- **Distinct paths of the NAND have distinct host paths.** -/
theorem escapedPath_injective {p q : Path} (hp : isValidPath p = true) (hq : isValidPath q = true)
    (h : escapedPath p = escapedPath q) : p = q := by
  have hparts : (splitString p).map escapeFileName = (splitString q).map escapeFileName := by
    rw [← parts_escapedPath (splitString_ne_nil hp), h, parts_escapedPath (splitString_ne_nil hq)]
  exact eq_of_splitString_eq hp hq (List.map_injective_iff.mpr escapeFileName_injective hparts)

/-! ## Directories -/

def isValidFilename (filename : Name) : Bool :=
  filename.length ≤ maxFilenameLength && !filename.contains '/'

/-- What `FixupDirectoryEntries` makes of the host's name of a child, or `none` where the child is
dropped. -/
def fixupName (isRoot : Bool) (name : Name) (isDirectory : Bool) : Option Name :=
  if isRoot && !isDirectory then none
  else
    let virtualName := if ['_', '_'] <:+: name then unescapeFileName name else name
    if isValidFilename virtualName then some virtualName else none

/-- `FixupDirectoryEntries` on the children of one directory: names, and which are directories. -/
def fixupDirectoryEntries (isRoot : Bool) (children : List (Name × Bool)) : List Name :=
  children.filterMap fun child => fixupName isRoot child.1 child.2

def modeRead : BitVec 8 := 1

/-- The place of a name in the table, with -1 for a name that is not there. -/
def sortKey (children : List FstEntry) (name : Name) : ℤ :=
  if name ∈ children.map FstEntry.name then (children.map FstEntry.name).idxOf name else -1

/-- The order of the names: the reverse of the table, and then of the alphabet. -/
def sortsBefore (children : List FstEntry) (one two : Name) : Bool :=
  if sortKey children one ≠ sortKey children two then sortKey children two < sortKey children one
  else two < one

namespace FileSystem

/-- `ReadDirectory`; `children` is what `ScanDirectoryTree` finds in the directory of the host. -/
def readDirectory (s : FileSystem) (uid : Uid) (gid : Gid) (path : Path)
    (children : List (Name × Bool)) : Except ResultCode (List Name) × FileSystem :=
  if isValidPath path = false then (.error .invalid, s)
  else if s.found path = false then (.error .notFound, s)
  else
    let s := s.touch path
    match s.entry path with
    | none => (.error .notFound, s)
    | some entry =>
      if entry.checkPermission uid gid modeRead = false then (.error .accessDenied, s)
      else if entry.data.isFile then (.error .invalid, s)
      else
        (.ok ((fixupDirectoryEntries (path = ['/']) children).insertionSort fun one two =>
          sortsBefore entry.children two one = false), s)

end FileSystem

/-- The children are those of the directory. -/
def Host.Lists (h : Host) (dir : HostPath) (children : List (Name × Bool)) : Prop :=
  (children.map Prod.fst).Nodup ∧ ∀ name isDirectory, (name, isDirectory) ∈ children ↔
    ∃ node, h (dir ++ [name]) = some node ∧ isDirectory = !node.isFile

/-- **The name of a created object is shown**, if it is not too long; files in the root are not
shown. -/
theorem fixupName_escape (isRoot : Bool) (name : Name) (isDirectory : Bool) :
    fixupName isRoot (escapeFileName name) isDirectory =
      if isRoot && !isDirectory then none
      else if isValidFilename name then some name else none := by
  have hname : (if ['_', '_'] <:+: escapeFileName name then unescapeFileName (escapeFileName name)
      else escapeFileName name) = name := by
    split
    · exact unescape_escape name
    · next hplain => rw [← unescape_eq_self hplain, unescape_escape]
  rw [fixupName, hname]

theorem readDirectory_perm {s : FileSystem} {uid : Uid} {gid : Gid} {path : Path}
    {children : List (Name × Bool)} {names : List Name}
    (h : (s.readDirectory uid gid path children).1 = .ok names) :
    names.Perm (fixupDirectoryEntries (path = ['/']) children) := by
  unfold FileSystem.readDirectory at h
  split at h
  · cases h
  · split at h
    · cases h
    · dsimp only at h
      split at h
      · cases h
      · split at h
        · cases h
        · split at h
          · cases h
          · cases h
            exact List.perm_insertionSort _ _

theorem mem_readDirectory {s : FileSystem} {uid : Uid} {gid : Gid} {path : Path}
    {children : List (Name × Bool)} {names : List Name} {name : Name} {node : Node}
    (h : (s.readDirectory uid gid path children).1 = .ok names)
    (hlists : s.host.Lists (s.hostPath path) children)
    (hnode : s.host (s.hostPath path ++ [escapeFileName name]) = some node)
    (hvalid : isValidFilename name = true) (hroot : path = ['/'] → node.isFile = false) :
    name ∈ names := by
  refine (readDirectory_perm h).mem_iff.mpr (List.mem_filterMap.mpr
    ⟨(escapeFileName name, !node.isFile), (hlists.2 _ _).mpr ⟨node, hnode, rfl⟩, ?_⟩)
  rw [fixupName_escape, if_neg, if_pos hvalid]
  simpa using hroot

/-- **Escaped host file names are faithful.** The scan undoes the escape of every name, so that names
are not mixed up; an escaped name can be used on the host; paths of the NAND have different host paths,
and `ReadDirectory` shows the names that were created, except files in the root and names that are
too long. -/
theorem escaped_names_faithful :
    (∀ s : Name, unescapeFileName (escapeFileName s) = s) ∧
    Function.Injective escapeFileName ∧
    (∀ s : Name, s ≠ [] →
      (∀ c ∈ escapeFileName s, isIllegalCharacter c = false) ∧ ∃ c ∈ escapeFileName s, c ≠ '.') ∧
    (∀ p q : Path, isValidPath p = true → isValidPath q = true → escapedPath p = escapedPath q →
      p = q) ∧
    ∀ (s : FileSystem) (uid : Uid) (gid : Gid) (path : Path) (children : List (Name × Bool))
      (names : List Name), s.host.Lists (s.hostPath path) children →
      (s.readDirectory uid gid path children).1 = .ok names →
      (∀ name node, s.host (s.hostPath path ++ [escapeFileName name]) = some node →
        isValidFilename name = true → (path = ['/'] → node.isFile = false) → name ∈ names) ∧
      names.Perm (children.filterMap fun child => fixupName (path = ['/']) child.1 child.2) :=
  ⟨unescape_escape, escapeFileName_injective,
    fun _ hs => ⟨fun _ hc => legal_of_mem_escape hc, escape_not_dots hs⟩,
    fun _ _ hp hq h => escapedPath_injective hp hq h,
    fun _ _ _ _ _ _ hlists h =>
      ⟨fun _ _ hnode hvalid hroot => mem_readDirectory h hlists hnode hvalid hroot,
        readDirectory_perm h⟩⟩

/-- A NAND with the directory `/a`. -/
def nandWithDirectory : FileSystem :=
  .start [] [] (fun path => if path = [] ∨ path = [['a']] then some .dir else none) none

theorem lists_of_one_file (name : Name) :
    Host.Lists (Function.update nandWithDirectory.host [['a'], name] (some (.file 1 0))) [['a']]
      [(name, false)] := by
  refine ⟨List.nodup_singleton _, fun other isDirectory => ?_⟩
  rw [List.mem_singleton, Prod.mk.injEq, List.singleton_append]
  by_cases hname : other = name
  · rw [hname, Function.update_self]
    simp [Node.isFile]
  · rw [Function.update_of_ne (by simpa using hname)]
    have hnone : nandWithDirectory.host [['a'], other] = none := rfl
    simp [hname, hnone]

/-- The path of a file whose name has 13 characters. -/
def longPath : Path :=
  ['/', 'a', '/', '0', '1', '2', '3', '4', '5', '6', '7', '8', '9', 'a', 'b', 'c']

/-- The path of a file whose name is not one of the host. -/
def colonPath : Path := ['/', 'a', '/', 'b', ':', 'c']

/-- The file is created under another name of the host, and shown under its own. -/
theorem escaped_names_faithful_colon : ∃ names,
    (nandWithDirectory.createFileOrDirectory openEnv 1 1 colonPath 0 (3, 3, 3) true).1 = .success ∧
      (∀ c ∈ escapeFileName ['b', ':', 'c'], isIllegalCharacter c = false) ∧
      escapedPath colonPath ≠ escapedPath longPath ∧
      ((nandWithDirectory.createFileOrDirectory openEnv 1 1 colonPath 0 (3, 3, 3) true).2.readDirectory 1 1
        ['/', 'a'] [(escapeFileName ['b', ':', 'c'], false)]).1 = .ok names ∧ ['b', ':', 'c'] ∈ names := by
  obtain ⟨-, -, hescaped, hpaths, hshown⟩ := escaped_names_faithful
  have hhost : (nandWithDirectory.createFileOrDirectory openEnv 1 1 colonPath 0 (3, 3, 3) true).2.host =
      Function.update nandWithDirectory.host [['a'], escapeFileName ['b', ':', 'c']] (some (.file 1 0)) := rfl
  have hlists : Host.Lists
      (nandWithDirectory.createFileOrDirectory openEnv 1 1 colonPath 0 (3, 3, 3) true).2.host [['a']]
      [(escapeFileName ['b', ':', 'c'], false)] := by
    rw [hhost]
    exact lists_of_one_file _
  have hread : ((nandWithDirectory.createFileOrDirectory openEnv 1 1 colonPath 0 (3, 3, 3) true).2.readDirectory 1 1
      ['/', 'a'] [(escapeFileName ['b', ':', 'c'], false)]).1 = .ok [['b', ':', 'c']] := by decide
  refine ⟨_, by decide, (hescaped _ (List.cons_ne_nil _ _)).1, fun heq => ?_, hread, ?_⟩
  · exact absurd (hpaths colonPath longPath (by decide) (by decide) heq) (by decide)
  · refine (hshown _ 1 1 ['/', 'a'] _ _ hlists hread).1 ['b', ':', 'c'] (.file 1 0) ?_ (by decide)
      fun hroot => absurd hroot (by decide)
    rw [hhost]
    exact Function.update_self ..

theorem long_name_not_shown :
    ¬ ∀ (s : FileSystem) (env : HostEnv) (uid : Uid) (gid : Gid) (path : Path)
      (children : List (Name × Bool)) (names : List Name),
      let created := s.createFileOrDirectory env uid gid path 0 (3, 3, 3) true
      created.1 = .success → created.2.host.Lists (created.2.hostPath (parentPath path)) children →
        (created.2.readDirectory uid gid (parentPath path) children).1 = .ok names →
          basename path ∈ names := by
  intro hshown
  have hhost : (nandWithDirectory.createFileOrDirectory openEnv 1 1 longPath 0 (3, 3, 3) true).2.host =
      Function.update nandWithDirectory.host [['a'], basename longPath] (some (.file 1 0)) := rfl
  have hlists : Host.Lists
      (nandWithDirectory.createFileOrDirectory openEnv 1 1 longPath 0 (3, 3, 3) true).2.host [['a']]
      [(basename longPath, false)] := by
    rw [hhost]
    exact lists_of_one_file _
  have hmem := hshown nandWithDirectory openEnv 1 1 longPath [(basename longPath, false)] [] (by decide)
    hlists (by decide)
  cases hmem

end IOS.FS
