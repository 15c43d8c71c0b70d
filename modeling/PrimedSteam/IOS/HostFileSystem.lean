import PrimedSteam.IOS.Fst
import Mathlib.Logic.Function.Basic

/-!
# The file system of the emulated NAND

`HostFileSystem` over the directory tree of the host.

* `buildFilename`: the host path of a Wii path, with the redirects.
* `touch`: what `GetFstEntryForPath` does to the metadata tree.
* `createFileOrDirectory`, `delete`, `rename`, `setMetadata`: the operations.

A pointer into the metadata tree is the list of names that leads to the entry. The file of the table
itself is kept apart from the tree of the host.
-/

set_option autoImplicit false

namespace IOS.FS

abbrev Path := List Char

abbrev Uid := BitVec 32

abbrev Gid := BitVec 16

inductive ResultCode where
  | success | invalid | accessDenied | alreadyExists | notFound | tooManyPathComponents | inUse
  | fileNotEmpty | unknownError
  deriving DecidableEq

/-! ## Paths -/

def maxPathLength : ℕ := 64

def isValidNonRootPath (path : Path) : Bool :=
  1 < path.length && path.length ≤ maxPathLength && path.head? = some '/' &&
    path.getLast? ≠ some '/'

def isValidPath (path : Path) : Bool := path = ['/'] || isValidNonRootPath path

/-- The parts between slashes. -/
def parts : Path → List Name
  | [] => [[]]
  | c :: cs =>
    if c = '/' then [] :: parts cs
    else
      match parts cs with
      | [] => [[c]]
      | part :: rest => (c :: part) :: rest

/-- `SplitString` on slashes: after a slash at the end there is no further part. -/
def splitString (path : Path) : List Name :=
  if (parts path).getLast? = some [] then (parts path).dropLast else parts path

/-- The components of a path after its first slash. -/
def components (path : Path) : List Name := splitString path.tail

/-- `SplitPathAndBasename` -/
def basename (path : Path) : Name := (path.reverse.takeWhile (· != '/')).reverse

def parentPath (path : Path) : Path :=
  path.take (max 1 (path.length - (basename path).length - 1))

def isPrintableCharacter (c : Char) : Bool := 0x20 ≤ c.toNat && c.toNat ≤ 0x7E

/-! ## The host -/

/-- The names from the root of the host. -/
abbrev HostPath := List Name

inductive Node where
  | dir
  | file (id size : ℕ)
  deriving DecidableEq

def Node.isFile : Node → Bool
  | dir => false
  | file .. => true

abbrev Host := HostPath → Option Node

/-- What the host does in one call: whether it creates, renames and copies, which objects it deletes,
and the file that it makes. -/
structure HostEnv where
  creates : Bool
  renames : Bool
  copies : Bool
  deletes : HostPath → Bool
  newFile : ℕ

namespace Host

variable (h : Host) (env : HostEnv)

def existsAt (path : HostPath) : Bool := (h path).isSome

def isFile (path : HostPath) : Bool := (h path).any Node.isFile

/-- `File::GetSize` -/
def getSize (path : HostPath) : ℕ :=
  match h path with
  | some (.file _ size) => size
  | _ => 0

/-- `File::Delete`, which does not delete a directory. -/
def delete (path : HostPath) : Bool × Host :=
  if h.existsAt path = false then (true, h)
  else if h.isFile path && env.deletes path then (true, Function.update h path none)
  else (false, h)

/-- `File::DeleteDirRecursively` -/
def deleteDirRecursively (path : HostPath) : Host := fun q =>
  if path <+: q ∧ env.deletes q = true then none else h q

/-- The tree after a directory entry has been moved. -/
def move (old new : HostPath) : Host := fun q =>
  if new <+: q then h (old ++ q.drop new.length) else if old <+: q then none else h q

/-- The host can move what exists, and no directory into itself. -/
def canRename (old new : HostPath) : Bool :=
  env.renames && h.existsAt old && !(decide (old <+: new) && decide (old ≠ new))

/-- `File::CopyRegularFile` needs a file at the source and none of the two may be the other one. -/
def canCopy (old new : HostPath) : Bool :=
  env.copies && h.isFile old && decide (old ≠ new) && (!h.existsAt new || h.isFile new)

def copyRegularFile (old new : HostPath) : Host :=
  match h old with
  | some (.file _ size) => Function.update h new (some (.file env.newFile size))
  | _ => h

end Host

/-! ## State -/

structure Handle where
  opened : Bool
  wiiPath : Path

structure FileSystem where
  /-- The directories of `m_root_path`. -/
  rootPath : HostPath
  /-- Source and target of the redirects. -/
  redirects : List (Path × HostPath)
  host : Host
  rootEntry : FstEntry
  redirectFst : FstEntry
  handles : List Handle
  /-- The file of the table. -/
  fstFile : Option (List SerializedFstEntry)

/-! ## Escaped names -/

def isIllegalCharacter (c : Char) : Bool :=
  c.toNat ≤ 0x1F || ['\"', '*', '/', ':', '<', '>', '?', '\\', '|', '\x7f'].contains c

def hexByte (c : Char) : Name :=
  "__".toList ++ [Nat.digitChar (c.toNat / 16 % 16), Nat.digitChar (c.toNat % 16)] ++ "__".toList

/-- `ReplaceAll` of double underscores. -/
def escapeUnderscores : Name → Name
  | '_' :: '_' :: cs => "__5f____5f__".toList ++ escapeUnderscores cs
  | c :: cs => c :: escapeUnderscores cs
  | [] => []

def escapeFileName (filename : Name) : Name :=
  if filename.all (· == '.') then filename.flatMap fun _ => "__2e__".toList
  else (escapeUnderscores filename).flatMap fun c => if isIllegalCharacter c then hexByte c else [c]

/-- `EscapePath`, as names of the host: an empty name is none. -/
def escapePath (path : Path) : HostPath :=
  ((splitString path).map escapeFileName).filter (· ≠ [])

/-- Sets the type in an entry that has been looked up; a file has no children. -/
def FstEntry.setType (isFile : Bool) : FstEntry → FstEntry
  | mk name data children => mk name { data with isFile := isFile } (if isFile then [] else children)

/-- `CheckPermission` -/
def FstEntry.checkPermission (e : FstEntry) (callerUid : Uid) (callerGid : Gid)
    (requestedMode : BitVec 8) : Bool :=
  if callerUid = 0 then true
  else
    let fileMode :=
      if e.data.uid = callerUid then e.data.modes.1
      else if e.data.gid = callerGid then e.data.modes.2.1
      else e.data.modes.2.2
    requestedMode &&& fileMode = requestedMode

def modeWrite : BitVec 8 := 2

namespace FileSystem

variable (s : FileSystem) (env : HostEnv)

/-- `BuildFilename`: the host path, and whether a redirect gives it. -/
def buildFilename (wiiPath : Path) : HostPath × Bool :=
  match s.redirects.find? fun r =>
      r.1.isPrefixOf wiiPath && ((wiiPath.drop r.1.length).isEmpty ||
        (wiiPath.drop r.1.length).head? = some '/') with
  | some r => (r.2 ++ escapePath (wiiPath.drop r.1.length), true)
  | none => (s.rootPath ++ escapePath wiiPath, false)

def hostPath (path : Path) : HostPath := (s.buildFilename path).1

/-- The tree that has the metadata of a path. -/
def tree (path : Path) : FstEntry :=
  if path ≠ ['/'] ∧ (s.buildFilename path).2 = true then s.redirectFst else s.rootEntry

/-- The names that lead to the entry of a path. -/
def pointer (path : Path) : List Name := if path = ['/'] then [] else components path

/-- A change in the tree of a path. -/
def mapTree (path : Path) (f : FstEntry → FstEntry) : FileSystem :=
  if path ≠ ['/'] ∧ (s.buildFilename path).2 = true then { s with redirectFst := f s.redirectFst }
  else { s with rootEntry := f s.rootEntry }

/-- `GetFstEntryForPath` gives an entry. -/
def found (path : Path) : Bool :=
  path = ['/'] || (isValidNonRootPath path && s.host.existsAt (s.hostPath path))

/-- What `GetFstEntryForPath` does to the trees. -/
def touch (path : Path) : FileSystem :=
  if path ≠ ['/'] ∧ s.found path = true then
    s.mapTree path (.modifyAt (.setType (s.host.isFile (s.hostPath path))) (components path))
  else s

/-- The entry that the pointer of a path leads to. -/
def entry (path : Path) : Option FstEntry := (s.tree path).find? (pointer path)

def checkPermission (path : Path) (uid : Uid) (gid : Gid) : Bool :=
  (s.entry path).any fun e => e.checkPermission uid gid modeWrite

def saveFst : FileSystem := { s with fstFile := some (FS.saveFst s.rootEntry) }

def isFileOpened (path : Path) : Bool :=
  s.handles.any fun handle => handle.opened && handle.wiiPath = path

def isDirectoryInUse (path : Path) : Bool :=
  s.handles.any fun handle => handle.opened && path.isPrefixOf handle.wiiPath

/-! ## Operations -/

/-- `CreateFileOrDirectory` -/
def createFileOrDirectory (uid : Uid) (gid : Gid) (path : Path) (attr : BitVec 8)
    (modes : BitVec 8 × BitVec 8 × BitVec 8) (isFile : Bool) : ResultCode × FileSystem :=
  if isValidNonRootPath path = false ∨ path.all isPrintableCharacter = false then (.invalid, s)
  else if isFile = false ∧ maxPathDepth < path.count '/' then (.tooManyPathComponents, s)
  else if s.found (parentPath path) = false then (.notFound, s)
  else
    let s := s.touch (parentPath path)
    if s.checkPermission (parentPath path) uid gid = false then (.accessDenied, s)
    else if s.host.existsAt (s.hostPath path) then (.alreadyExists, s)
    else if env.creates = false then (.unknownError, s)
    else
      let node := if isFile then Node.file env.newFile 0 else .dir
      let s := { s with host := Function.update s.host (s.hostPath path) (some node) }
      let s := s.touch path
      let child := FstEntry.mk (basename path) ⟨uid, gid, isFile, modes, attr⟩ []
      (.success, (s.mapTree path (.modifyAt (fun _ => child) (components path))).saveFst)

/-- `Delete` -/
def delete (uid : Uid) (gid : Gid) (path : Path) : ResultCode × FileSystem :=
  if isValidNonRootPath path = false then (.invalid, s)
  else if s.found (parentPath path) = false then (.notFound, s)
  else
    let s := s.touch (parentPath path)
    let hostPath := s.hostPath path
    if s.checkPermission (parentPath path) uid gid = false then (.accessDenied, s)
    else if s.host.existsAt hostPath = false then (.notFound, s)
    else
      let deleted :=
        if s.host.isFile hostPath = true ∧ s.isFileOpened path = false then
          some (s.host.delete env hostPath).2
        else if s.host.isFile hostPath = false ∧ s.isDirectoryInUse path = false then
          some (s.host.deleteDirRecursively env hostPath)
        else none
      match deleted with
      | none => (.inUse, s)
      | some host =>
        let s := { s with host := host }
        (.success, (s.mapTree (parentPath path)
          (.modifyAt (.eraseChild (basename path)) (pointer (parentPath path)))).saveFst)

/-- `Rename` up to the access of the host: the state after the lookups, and the error of a check. -/
def renameChecks (uid : Uid) (gid : Gid) (old new : Path) : FileSystem × Option ResultCode :=
  if isValidNonRootPath old = false ∨ isValidNonRootPath new = false then (s, some .invalid)
  else
    let found := s.found (parentPath old) && s.found (parentPath new)
    let s := (s.touch (parentPath old)).touch (parentPath new)
    if found = false then (s, some .notFound)
    else if s.checkPermission (parentPath old) uid gid = false ∨
        s.checkPermission (parentPath new) uid gid = false then (s, some .accessDenied)
    else if s.found old = false then (s, some .notFound)
    else
      let s := s.touch old
      let isFile := s.host.isFile (s.hostPath old)
      if isFile = true ∧ basename old ≠ basename new then (s, some .invalid)
      else if (isFile = false ∧ s.isDirectoryInUse old = true) ∨
          (isFile = true ∧ s.isFileOpened old = true) then (s, some .inUse)
      else (s, none)

/-- What is at the new path is deleted, if it is of the same type. -/
def deleteTarget (old new : HostPath) : Option Host :=
  if s.host.existsAt new then
    if s.host.isFile old && s.host.isFile new then some (s.host.delete env new).2
    else if !s.host.isFile old && !s.host.isFile new then
      some (s.host.deleteDirRecursively env new)
    else none
  else some s.host

/-- The rename of the host, with the copy as a fallback for redirects. -/
def renameOnHost (host : Host) (old new : HostPath) (redirect : Bool) : ResultCode × Host :=
  if host.canRename env old new then (.success, host.move old new)
  else if redirect then
    if host.canCopy env old new then
      let copied := host.copyRegularFile env old new
      let deleted := copied.delete env old
      if deleted.1 then (.success, deleted.2) else (.invalid, copied)
    else (.notFound, host)
  else (.notFound, host)

/-- `Rename` up to the move of the metadata. -/
def renameObject (uid : Uid) (gid : Gid) (old new : Path) : ResultCode × FileSystem :=
  match s.renameChecks uid gid old new with
  | (s, some error) => (error, s)
  | (s, none) =>
    match s.deleteTarget env (s.hostPath old) (s.hostPath new) with
    | none => (.invalid, s)
    | some host =>
      let r := renameOnHost env host (s.hostPath old) (s.hostPath new)
        ((s.buildFilename old).2 || (s.buildFilename new).2)
      (r.1, { s with host := r.2 })

/-- The entry that is found at the old path after the last lookup. -/
def movedEntry (old new : Path) : Option FstEntry :=
  ((s.touch new).tree (parentPath old)).find? (pointer (parentPath old) ++ [basename old])

/-- The metadata is moved to the entry of the new path. -/
def moveMetadata (old new : Path) : FileSystem :=
  match s.movedEntry old new with
  | some e =>
    let moved := FstEntry.mk (basename new) e.data e.children
    let s := (s.touch new).mapTree new (.modifyAt (fun _ => moved) (components new))
    s.mapTree (parentPath old) (.modifyAt (.eraseChild (basename old)) (pointer (parentPath old)))
  | none => s.touch new

/-- `Rename`, as long as no entry that it uses has been freed. -/
def rename (uid : Uid) (gid : Gid) (old new : Path) : ResultCode × FileSystem :=
  let r := s.renameObject env uid gid old new
  if r.1 = .success then (.success, (r.2.moveMetadata old new).saveFst) else r

/-- The children of an entry are in a vector. A lookup of `path` frees the entry of `held` if it adds an
entry to the vector that holds it, or clears the children of an entry above it. -/
def frees (held path : Path) : Bool :=
  let way := pointer held
  let names := components path
  path ≠ ['/'] && s.found path && held ≠ ['/'] &&
    (s.buildFilename held).2 == (s.buildFilename path).2 &&
      (way.dropLast <+: names && way.length ≤ names.length &&
          ((s.tree path).find? (names.take way.length)).isNone ||
        s.host.isFile (s.hostPath path) && names <+: way && names ≠ way)

/-- One of the lookups frees the entry of `held`. -/
def freesAny (held : Path) : List Path → FileSystem → Bool
  | [], _ => false
  | path :: paths, s => s.frees held path || freesAny held paths (s.touch path)

/-- `Rename` uses the entry of the old parent after it has been freed: in the check of the permission,
which reads it for a caller other than the first one, or when the metadata is moved. -/
def renameDangles (uid : Uid) (gid : Gid) (old new : Path) : Bool :=
  let parent := parentPath old
  let first := s.touch parent
  let r := s.renameObject env uid gid old new
  isValidNonRootPath old && isValidNonRootPath new && s.found parent && s.found (parentPath new) &&
    (uid ≠ 0 && first.frees parent (parentPath new) ||
      r.1 = .success && (freesAny parent [parentPath new, old] first || r.2.frees parent new ||
        -- the children of the new entry, which hold the old parent or its child, are overwritten
        (s.buildFilename parent).2 == (s.buildFilename new).2 && components new <+: pointer parent))

/-- `Rename`, which has no defined result if it uses a freed entry. -/
def definedRename (uid : Uid) (gid : Gid) (old new : Path) : Option (ResultCode × FileSystem) :=
  if s.renameDangles env uid gid old new then none else some (s.rename env uid gid old new)

/-- `SetMetadata` -/
def setMetadata (callerUid : Uid) (path : Path) (uid : Uid) (gid : Gid) (attr : BitVec 8)
    (modes : BitVec 8 × BitVec 8 × BitVec 8) : ResultCode × FileSystem :=
  if isValidPath path = false then (.invalid, s)
  else if s.found path = false then (.notFound, s)
  else
    let s := s.touch path
    match s.entry path with
    | none => (.unknownError, s) -- the entry of a found path is in the tree
    | some e =>
      let isEmpty := s.host.getSize (s.hostPath path) = 0
      if callerUid ≠ 0 ∧ callerUid ≠ e.data.uid then (.accessDenied, s)
      else if callerUid ≠ 0 ∧ uid ≠ e.data.uid then (.accessDenied, s)
      else if e.data.uid ≠ uid ∧ e.data.isFile = true ∧ ¬ isEmpty then (.fileNotEmpty, s)
      else if e.data.gid ≠ gid ∨ e.data.uid ≠ uid ∨ e.data.fileAttribute ≠ attr ∨
          e.data.modes ≠ modes then
        let set := fun e : FstEntry =>
          FstEntry.mk e.name { e.data with gid := gid, uid := uid, fileAttribute := attr, modes := modes }
            e.children
        (.success, (s.mapTree path (.modifyAt set (pointer path))).saveFst)
      else (.success, s)

/-! ## Start -/

/-- `ResetFst` -/
def resetFst : FstEntry := .mk ['/'] ⟨0, 0, false, (0, 1, 1), 0⟩ []

/-- The constructor: the table is that of the file, if it is there and can be parsed. -/
def start (rootPath : HostPath) (redirects : List (Path × HostPath)) (host : Host)
    (fstFile : Option (List SerializedFstEntry)) : FileSystem where
  rootPath := rootPath
  redirects := redirects
  host := host
  rootEntry := (fstFile.bind loadFst).getD resetFst
  redirectFst := .mk [] ⟨0, 0, false, (0, 0, 0), 0⟩ []
  handles := []
  fstFile := fstFile

end FileSystem

end IOS.FS
