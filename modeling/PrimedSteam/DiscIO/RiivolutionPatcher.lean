import PrimedSteam.DiscIO.RiivolutionPaths
import PrimedSteam.Lib.Tiling
import Mathlib.Data.BitVec

/-!
# Patches of files

`ApplyPatchToFile`: the content sources of a file are split at both ends of the patch, those in
between are replaced.

* `splitFrom`: the loop that splits.
* `applyPatchToFile`: one patch.
* `Env`: what reads of the host files, of the wrapped volume and of a partition give.
* `BuilderContentSource.byteAt`: what `DiscContent::Read` gives for one byte of a source.
-/

set_option autoImplicit false

namespace Riivolution

open Tiling

abbrev Byte := BitVec 8

/-! ## Sources -/

inductive ContentSource where
  | file (filename : Text) (offset : ℕ)
  | memory (bytes : List Byte)
  | partition (offset partitionDataOffset : ℕ)
  | volume (offset partition : ℕ)
  | fixedByte (byte : Byte)

structure BuilderContentSource where
  offset : ℕ
  size : ℕ
  source : ContentSource

/-- A file of the disc. -/
structure FSTBuilderNode where
  size : ℕ
  content : List BuilderContentSource

/-- An external file: the path it was resolved to and its size. -/
structure ExternalFile where
  filename : Text
  size : ℕ

variable (c : BuilderContentSource)

def BuilderContentSource.stop : ℕ := c.offset + c.size

/-- The source from `n` bytes on. -/
def ContentSource.advance (n : ℕ) : ContentSource → ContentSource
  | .file filename offset => .file filename (offset + n)
  | .memory bytes => .memory (bytes.drop n)
  | .partition offset partitionDataOffset => .partition (offset + n) partitionDataOffset
  | .volume offset part => .volume (offset + n) part
  | .fixedByte byte => .fixedByte byte

/-- `SplitAt`, the part before. -/
def BuilderContentSource.before (splitAt : ℕ) : BuilderContentSource :=
  { c with size := splitAt - c.offset }

/-- `SplitAt`, the part after. -/
def BuilderContentSource.after (splitAt : ℕ) : BuilderContentSource :=
  ⟨c.offset + (splitAt - c.offset), c.stop - splitAt, c.source.advance (splitAt - c.offset)⟩

/-- A place lies strictly inside a source. -/
def BuilderContentSource.Inside (place : ℕ) : Prop := c.offset < place ∧ place < c.stop

instance (place : ℕ) : Decidable (c.Inside place) := inferInstanceAs (Decidable (_ ∧ _))

/-! ## Patches -/

/-- The loop that splits; the part behind a split is looked at again. -/
def splitFrom (patchStart patchEnd : ℕ) : List BuilderContentSource → List BuilderContentSource
  | [] => []
  | c :: rest =>
    if c.Inside patchStart then
      c.before patchStart :: splitFrom patchStart patchEnd (c.after patchStart :: rest)
    else if c.Inside patchEnd then
      c.before patchEnd :: splitFrom patchStart patchEnd (c.after patchEnd :: rest)
    else c :: splitFrom patchStart patchEnd rest
termination_by content => (content.map (·.size)).sum + content.length
decreasing_by
  all_goals
    simp only [BuilderContentSource.Inside, BuilderContentSource.after, BuilderContentSource.stop,
      List.map_cons, List.sum_cons, List.length_cons] at *
    omega

/-- The overlapping sources are discarded; what is left stands before and behind `insert_where`. -/
def discard (patchStart patchEnd : ℕ) (content : List BuilderContentSource) :
    List BuilderContentSource × List BuilderContentSource :=
  match content.dropWhile (·.offset ≠ patchStart) with
  | [] => ([], content)
  | overlapping =>
    (content.takeWhile (·.offset ≠ patchStart), overlapping.dropWhile fun c => decide (c.stop ≤ patchEnd))

/-- `MakeContentSource` of `FileDataLoaderHostFS`. -/
def ExternalFile.makeContentSource (file : ExternalFile) (externalOffset externalSize discOffset : ℕ) :
    BuilderContentSource :=
  ⟨discOffset, externalSize, .file file.filename externalOffset⟩

/-- The parameters of one call. -/
structure FilePatch where
  /-- `GetExternalFileSize` gives nothing where there is no regular file. -/
  external : Option ExternalFile
  offset : ℕ
  fileOffset : ℕ
  length : ℕ
  resize : Bool

/-- The bytes of the external file from the offset on. -/
def FilePatch.externalFilesize (p : FilePatch) (file : ExternalFile) : ℕ :=
  file.size - min p.fileOffset file.size

def FilePatch.patchSize (p : FilePatch) (file : ExternalFile) : ℕ :=
  if p.length = 0 then p.externalFilesize file else p.length

def FilePatch.patchEnd (p : FilePatch) (file : ExternalFile) : ℕ := p.offset + p.patchSize file

def FilePatch.targetFilesize (p : FilePatch) (file : ExternalFile) (node : FSTBuilderNode) : ℕ :=
  if p.resize then p.patchEnd file else max node.size (p.patchEnd file)

/-- The sources of the patch data and of the padding behind it. -/
def FilePatch.sources (p : FilePatch) (file : ExternalFile) : List BuilderContentSource :=
  let patchSize := p.patchSize file
  let externalFilesize := p.externalFilesize file
  (if 0 < patchSize ∧ 0 < externalFilesize then
    [file.makeContentSource (min p.fileOffset file.size) (min patchSize externalFilesize) p.offset]
    else []) ++
  if externalFilesize < patchSize then
    [⟨p.offset + externalFilesize, patchSize - externalFilesize, .fixedByte 0⟩]
  else []

/-- The sources before and behind the place where the patch is inserted. -/
def FilePatch.around (p : FilePatch) (file : ExternalFile) (node : FSTBuilderNode) :
    List BuilderContentSource × List BuilderContentSource :=
  if node.size ≤ p.offset then
    (node.content ++
      if node.size < p.offset then [⟨node.size, p.offset - node.size, .fixedByte 0⟩] else [], [])
  else discard p.offset (p.patchEnd file) (splitFrom p.offset (p.patchEnd file) node.content)

/-- `ApplyPatchToFile` -/
def applyPatchToFile (p : FilePatch) (node : FSTBuilderNode) : FSTBuilderNode :=
  match p.external with
  | none => node
  | some file =>
    let around := p.around file node
    let content := around.1 ++ p.sources file ++ around.2
    let target := p.targetFilesize file node
    ⟨target, content.rdropWhile fun c => decide (target ≤ c.offset)⟩

/-! ## Reading -/

/-- What the host files, the wrapped volume and `EncryptPartitionData` give for one byte. -/
structure Env where
  fileByte : Text → ℕ → Option Byte
  /-- By the offset, the partition data offset and the decrypted size of the partition data. -/
  encryptPartitionData : ℕ → ℕ → ℕ → Option Byte
  /-- By the partition and the offset. -/
  volumeByte : ℕ → ℕ → Option Byte

/-- The decrypted size of partition data, as a read takes it from the size of the content. -/
def decryptedSize (size : ℕ) : ℕ := size * 0x7C00 % 2 ^ 64 / 0x8000

/-- A byte of a source, for content of a given decrypted size. -/
def ContentSource.byteAt (env : Env) (decrypted i : ℕ) : ContentSource → Option Byte
  | .file filename offset => env.fileByte filename (offset + i)
  | .memory bytes => bytes[i]?
  | .partition offset partitionDataOffset =>
    env.encryptPartitionData (offset + i) partitionDataOffset decrypted
  | .volume offset part => env.volumeByte part (offset + i)
  | .fixedByte byte => some byte

/-- `DiscContent::Read` of one byte. -/
def BuilderContentSource.byteAt (env : Env) (i : ℕ) : Option Byte :=
  c.source.byteAt env (decryptedSize c.size) i

/-- The byte of a file at an offset, from the source that holds it. -/
def valueAt (env : Env) (content : List BuilderContentSource) (o : ℕ) : Option Byte :=
  (content.find? fun c => decide (c.offset ≤ o ∧ o < c.stop)).bind fun c => c.byteAt env (o - c.offset)

/-! ## Tilings -/

/-- The sources follow each other without a gap, from `a` to `b`. -/
def Tiled (a b : ℕ) (content : List BuilderContentSource) : Prop :=
  Tiles a b (content.map fun c => (c.offset, c.stop))

variable {a b d ps pe : ℕ} {c} {content rest : List BuilderContentSource} {env : Env}

theorem tiled_cons : Tiled a b (c :: rest) ↔ c.offset = a ∧ Tiled c.stop b rest := by
  constructor
  · exact fun h => ⟨h.1, h.2.2⟩
  · exact fun h => ⟨h.1, Nat.le_add_right _ _, h.2⟩

theorem tiled_nil : Tiled a b [] ↔ a = b := Iff.rfl

theorem Tiled.append (h : Tiled a b content) (h' : Tiled b d rest) : Tiled a d (content ++ rest) := by
  rw [Tiled, List.map_append]
  exact Tiles.append h h'

theorem Tiled.le (h : Tiled a b content) : a ≤ b := Tiles.le h

theorem Tiled.bounds (h : Tiled a b content) : ∀ c ∈ content, a ≤ c.offset ∧ c.stop ≤ b := by
  intro c hc
  have hbounds := Tiles.bounds h _ (List.mem_map_of_mem hc)
  exact ⟨hbounds.1, hbounds.2.2⟩

/-- A tiling of an append is two tilings. -/
theorem Tiled.of_append (h : Tiled a d (content ++ rest)) :
    ∃ m, Tiled a m content ∧ Tiled m d rest := by
  induction content generalizing a with
  | nil => exact ⟨a, rfl, h⟩
  | cons c content ih =>
    obtain ⟨ha, h⟩ := tiled_cons.mp h
    obtain ⟨m, hm, hrest⟩ := ih h
    exact ⟨m, tiled_cons.mpr ⟨ha, hm⟩, hrest⟩

theorem valueAt_cons (o : ℕ) :
    valueAt env (c :: rest) o =
      if c.offset ≤ o ∧ o < c.stop then c.byteAt env (o - c.offset) else valueAt env rest o := by
  rw [valueAt, List.find?_cons]
  by_cases h : c.offset ≤ o ∧ o < c.stop
  · rw [decide_eq_true h, if_pos h]
    rfl
  · rw [decide_eq_false h, if_neg h]
    rfl

/-- Sources that do not hold the offset do not matter. -/
theorem valueAt_append_left {o : ℕ} (h : ∀ c ∈ content, ¬(c.offset ≤ o ∧ o < c.stop)) :
    valueAt env (content ++ rest) o = valueAt env rest o := by
  induction content with
  | nil => rfl
  | cons c content ih =>
    rw [List.forall_mem_cons] at h
    rw [List.cons_append, valueAt_cons, if_neg h.1, ih h.2]

theorem valueAt_append_right {o : ℕ} (h : ∀ c ∈ rest, ¬(c.offset ≤ o ∧ o < c.stop)) :
    valueAt env (content ++ rest) o = valueAt env content o := by
  induction content with
  | nil =>
    have hnone := @valueAt_append_left rest [] env o h
    rwa [List.append_nil] at hnone
  | cons c content ih => rw [List.cons_append, valueAt_cons, valueAt_cons, ih]

end Riivolution
