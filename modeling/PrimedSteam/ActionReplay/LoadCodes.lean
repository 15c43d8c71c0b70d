import PrimedSteam.ActionReplay.Decryption

/-!
# The section of Action Replay codes

Lines that begin with a dollar sign are the names of codes. The plain lines of a block are a code, and the encrypted
lines of a block are another one.

* `loadLines`: the loop over the lines, which ends a block at the next name, and the last block after the lines.
* `loadLines_eq`: the codes of the blocks before the last one, and what the last one gives.
* `sectionParses_iff`: when all blocks are parsed alike.
-/

set_option autoImplicit false

namespace ActionReplay

structure ARCode where
  name : Text
  ops : List AREntry
  enabled : Bool
  defaultEnabled : Bool
  userDefined : Bool
deriving DecidableEq

/-- The variables of the loop over the lines. -/
structure Reader where
  codes : List ARCode
  currentCode : ARCode
  encryptedLines : List Text

def newCode : ARCode := ⟨[], [], false, false, false⟩

section Reading

variable (filterAddress : Word) (userDefined : Bool)

/-- The code so far is added, and its entries are cleared. -/
def Reader.flushOps (r : Reader) : Reader :=
  if r.currentCode.ops ≠ [] then
    { r with codes := r.codes ++ [r.currentCode], currentCode := { r.currentCode with ops := [] } }
  else r

/-- The encrypted lines are decrypted behind the entries of the code, which is added. -/
def Reader.decrypt (r : Reader) : Reader :=
  if r.encryptedLines ≠ [] then
    let code := { r.currentCode with ops := r.currentCode.ops ++ decryptARCode filterAddress r.encryptedLines }
    { r with codes := r.codes ++ [code], currentCode := code }
  else r

/-- The end of a block before a name. -/
def Reader.flush (r : Reader) : Reader :=
  let r := r.flushOps
  if r.encryptedLines ≠ [] then
    let r := r.decrypt filterAddress
    { r with currentCode := { r.currentCode with ops := [] }, encryptedLines := [] }
  else r

/-- A line of the section. -/
def Reader.line (r : Reader) (line : Text) : Reader :=
  if line = [] then r
  else if line.head? = some '$' then
    let r := r.flush filterAddress
    { r with currentCode := { r.currentCode with name := line.tail, userDefined := userDefined } }
  else
    match deserializeLine line with
    | .entry op => { r with currentCode := { r.currentCode with ops := r.currentCode.ops ++ [op] } }
    | .encrypted line => { r with encryptedLines := r.encryptedLines ++ [line] }
    -- an alert
    | .invalid => r

/-- The end of the last block: the entries are not cleared. -/
def Reader.finish (r : Reader) : List ARCode :=
  let r := if r.currentCode.ops ≠ [] then { r with codes := r.codes ++ [r.currentCode] } else r
  (r.decrypt filterAddress).codes

/-- The codes of a section, behind those that are there. -/
def loadLines (codes : List ARCode) (lines : List Text) : List ARCode :=
  (lines.foldl (Reader.line filterAddress userDefined) ⟨codes, newCode, []⟩).finish filterAddress

end Reading

/-- `ReadEnabledOrDisabled` -/
def readEnabledOrDisabled (lines : List Text) (enabled : Bool) (codes : List ARCode) : List ARCode :=
  lines.foldl (fun codes line =>
    if line.head? = some '$' then
      codes.map fun code => if line.tail = code.name then { code with enabled := enabled } else code
    else codes) codes

/-- The lines of the sections of a file. -/
structure Ini where
  lines : List Text
  enabledLines : List Text
  disabledLines : List Text

/-- The codes of a file, behind those that are there. -/
def loadIni (filterAddress : Word) (userDefined : Bool) (codes : List ARCode) (ini : Ini) : List ARCode :=
  readEnabledOrDisabled ini.disabledLines false
    (readEnabledOrDisabled ini.enabledLines true (loadLines filterAddress userDefined codes ini.lines))

/-- `LoadCodes` -/
def loadCodes (filterAddress : Word) (globalIni localIni : Ini) : List ARCode :=
  let codes := (loadIni filterAddress false [] globalIni).map fun code =>
    { code with defaultEnabled := code.enabled }
  loadIni filterAddress true codes localIni

/-! ## Blocks -/

/-- A name, or none at the start of the section, and the lines up to the next name. -/
structure Block where
  name : Option Text
  body : List Text

/-- The lines of the block. -/
def Block.lines (b : Block) : List Text := (b.name.map fun name => '$' :: name).toList ++ b.body

/-- No line of the block is another name. -/
def Block.Closed (b : Block) : Prop := ∀ line ∈ b.body, line.head? ≠ some '$'

/-- The blocks of lines, of which the first one has begun. -/
def blocksFrom (b : Block) : List Text → List Block
  | [] => [b]
  | line :: lines =>
    if line.head? = some '$' then b :: blocksFrom ⟨some line.tail, []⟩ lines
    else blocksFrom ⟨b.name, b.body ++ [line]⟩ lines

/-- The blocks of a section; the first one has no name. -/
def blocks (lines : List Text) : List Block := blocksFrom ⟨none, []⟩ lines

/-- The entries of the plain lines. -/
def Block.ops (b : Block) : List AREntry :=
  b.body.filterMap fun line => match deserializeLine line with
    | .entry op => some op
    | _ => none

/-- The encrypted lines. -/
def Block.encryptedLines (b : Block) : List Text :=
  b.body.filterMap fun line => match deserializeLine line with
    | .encrypted line => some line
    | _ => none

/-- The block has plain and encrypted lines. -/
def Block.Mixed (b : Block) : Prop := b.ops ≠ [] ∧ b.encryptedLines ≠ []

section Blocks

variable (filterAddress : Word) (userDefined : Bool)

/-- A code of the block. -/
def Block.code (b : Block) (ops : List AREntry) : ARCode :=
  ⟨b.name.getD [], ops, false, false, b.name.isSome && userDefined⟩

/-- The codes of a block before a name. -/
def Block.codes (b : Block) : List ARCode :=
  (if b.ops ≠ [] then [b.code userDefined b.ops] else []) ++
    if b.encryptedLines ≠ [] then [b.code userDefined (decryptARCode filterAddress b.encryptedLines)] else []

/-- The codes of the last block: the decrypted entries are behind the plain ones. -/
def Block.lastCodes (b : Block) : List ARCode :=
  (if b.ops ≠ [] then [b.code userDefined b.ops] else []) ++
    if b.encryptedLines ≠ [] then [b.code userDefined (b.ops ++
      decryptARCode filterAddress b.encryptedLines)] else []

theorem Block.lastCodes_eq_iff (b : Block) :
    b.lastCodes filterAddress userDefined = b.codes filterAddress userDefined ↔ ¬b.Mixed := by
  rw [lastCodes, codes, Mixed]
  by_cases hencrypted : b.encryptedLines = []
  · rw [if_neg (not_not.mpr hencrypted), if_neg (not_not.mpr hencrypted)]
    exact iff_of_true rfl fun h => h.2 hencrypted
  · by_cases hops : b.ops = []
    · rw [hops, List.nil_append]
      exact iff_of_true rfl fun h => h.1 rfl
    · rw [if_pos hencrypted, if_pos hencrypted]
      refine iff_of_false (fun heq => ?_) (fun h => h ⟨hops, hencrypted⟩)
      have hcode := List.singleton_inj.mp (List.append_cancel_left heq)
      have happend : b.ops ++ decryptARCode filterAddress b.encryptedLines =
        decryptARCode filterAddress b.encryptedLines :=
        congrArg ARCode.ops hcode
      exact hops (List.append_left_eq_self.mp happend)

/-- The codes of blocks, of which the last one is treated differently. -/
def codesOf : List Block → List ARCode
  | [] => []
  | [b] => b.lastCodes filterAddress userDefined
  | b :: bs => b.codes filterAddress userDefined ++ codesOf bs

/-- The variables of the loop inside a block. -/
def Block.reader (b : Block) (codes : List ARCode) : Reader := ⟨codes, b.code userDefined b.ops, b.encryptedLines⟩

theorem codesOf_cons {b : Block} {bs : List Block} (h : bs ≠ []) : codesOf filterAddress userDefined (b :: bs)
    = b.codes filterAddress userDefined ++ codesOf filterAddress userDefined bs := by
  obtain ⟨b', bs, rfl⟩ := List.exists_cons_of_ne_nil h
  rfl

theorem blocksFrom_ne_nil (b : Block) (lines : List Text) : blocksFrom b lines ≠ [] := by
  induction lines generalizing b with
  | nil => exact List.cons_ne_nil b []
  | cons line lines ih =>
    rw [blocksFrom]
    split_ifs
    · exact List.cons_ne_nil _ _
    · exact ih _

theorem reader_line (b : Block) (codes : List ARCode) {line : Text} (h : line.head? ≠ some '$') :
    (b.reader userDefined codes).line filterAddress userDefined line
      = Block.reader userDefined ⟨b.name, b.body ++ [line]⟩ codes := by
  have hops : Block.ops ⟨b.name, b.body ++ [line]⟩ = b.ops ++ Block.ops ⟨none, [line]⟩ := List.filterMap_append
  have hencrypted : Block.encryptedLines ⟨b.name, b.body ++ [line]⟩
      = b.encryptedLines ++ Block.encryptedLines ⟨none, [line]⟩ := List.filterMap_append
  rw [Block.reader, Block.reader, hops, hencrypted, Reader.line]
  by_cases hempty : line = []
  · subst hempty
    rw [if_pos rfl]
    have hnone : deserializeLine [] = .invalid := rfl
    rw [show Block.ops ⟨none, [[]]⟩ = [] from rfl, show Block.encryptedLines ⟨none, [[]]⟩ = [] from rfl,
      List.append_nil, List.append_nil]
    rfl
  · rw [if_neg hempty, if_neg h]
    cases hline : deserializeLine line with
    | invalid =>
      simp only [Block.ops, Block.encryptedLines, List.filterMap_cons, List.filterMap_nil, hline, List.append_nil]
      rfl
    | entry op =>
      simp only [Block.ops, Block.encryptedLines, List.filterMap_cons, List.filterMap_nil, hline, List.append_nil]
      rfl
    | encrypted text =>
      simp only [Block.ops, Block.encryptedLines, List.filterMap_cons, List.filterMap_nil, hline, List.append_nil]
      rfl

theorem reader_name (b : Block) (codes : List ARCode) {line : Text} (h : line.head? = some '$') :
    (b.reader userDefined codes).line filterAddress userDefined line
      = Block.reader userDefined ⟨some line.tail, []⟩ (codes ++ b.codes filterAddress userDefined) := by
  have hne : line ≠ [] := by
    rintro rfl
    cases h
  have hnewOps : Block.ops ⟨some line.tail, []⟩ = [] := rfl
  have hnewEncrypted : Block.encryptedLines ⟨some line.tail, []⟩ = [] := rfl
  rw [Reader.line, if_neg hne, if_pos h, Block.reader, Block.reader, Block.codes, hnewOps, hnewEncrypted,
    Reader.flush,
    Reader.flushOps]
  generalize b.ops = ops
  generalize b.encryptedLines = encryptedLines
  by_cases hops : ops = []
  · by_cases hencrypted : encryptedLines = []
    · simp [Block.code, hops, hencrypted]
    · simp [Block.code, hops, hencrypted, Reader.decrypt]
  · by_cases hencrypted : encryptedLines = []
    · simp [Block.code, hops, hencrypted]
    · simp [Block.code, hops, hencrypted, Reader.decrypt]

theorem reader_finish (b : Block) (codes : List ARCode) :
    (b.reader userDefined codes).finish filterAddress = codes ++ b.lastCodes filterAddress userDefined := by
  rw [Reader.finish, Block.reader, Block.lastCodes, Reader.decrypt]
  by_cases hops : b.ops = []
  · by_cases hencrypted : b.encryptedLines = []
    · simp [Block.code, hops, hencrypted]
    · simp [Block.code, hops, hencrypted]
  · by_cases hencrypted : b.encryptedLines = []
    · simp [Block.code, hops, hencrypted]
    · simp [Block.code, hops, hencrypted]

/-- **The codes of a section** are those of its blocks. -/
theorem loadLines_eq (codes : List ARCode) (lines : List Text) : loadLines filterAddress userDefined codes lines
    = codes ++ codesOf filterAddress userDefined (blocks lines) := by
  have hloop : ∀ (lines : List Text) (b : Block) (codes : List ARCode),
      (lines.foldl (Reader.line filterAddress userDefined) (b.reader userDefined codes)).finish filterAddress
        = codes ++ codesOf filterAddress userDefined (blocksFrom b lines) := by
    intro lines
    induction lines with
    | nil => exact fun b codes => reader_finish filterAddress userDefined b codes
    | cons line lines ih =>
      intro b codes
      rw [List.foldl_cons, blocksFrom]
      by_cases h : line.head? = some '$'
      · rw [if_pos h, reader_name filterAddress userDefined b codes h, ih,
          codesOf_cons filterAddress userDefined (blocksFrom_ne_nil _ _), List.append_assoc]
      · rw [if_neg h, reader_line filterAddress userDefined b codes h, ih]
  exact hloop lines ⟨none, []⟩ codes

theorem blocksFrom_append (b : Block) {body : List Text} (hbody : ∀ line ∈ body, line.head? ≠ some '$')
    (lines : List Text) : blocksFrom b (body ++ lines) = blocksFrom ⟨b.name, b.body ++ body⟩ lines := by
  induction body generalizing b with
  | nil => rw [List.nil_append, List.append_nil]
  | cons line body ih =>
    obtain ⟨hline, hbody⟩ := List.forall_mem_cons.mp hbody
    rw [List.cons_append, blocksFrom, if_neg hline, ih _ hbody, List.append_assoc, List.singleton_append]

theorem blocksFrom_closed {b : Block} (hb : b.Closed) (lines : List Text) :
    ∀ b' ∈ blocksFrom b lines, b'.Closed := by
  induction lines generalizing b with
  | nil =>
    intro b' hmem
    rwa [List.mem_singleton.mp hmem]
  | cons line lines ih =>
    rw [blocksFrom]
    by_cases h : line.head? = some '$'
    · rw [if_pos h]
      exact List.forall_mem_cons.mpr ⟨hb, ih fun _ hmem => absurd hmem List.not_mem_nil⟩
    · rw [if_neg h]
      refine ih fun line' hmem => ?_
      rcases List.mem_append.mp hmem with hmem | hmem
      · exact hb line' hmem
      · rwa [List.mem_singleton.mp hmem]

theorem loadLines_block {b : Block} (hb : b.Closed) :
    loadLines filterAddress userDefined [] b.lines = b.lastCodes filterAddress userDefined ∧
      ∀ name, loadLines filterAddress userDefined [] (b.lines ++ ['$' :: name]) =
        b.codes filterAddress userDefined := by
  obtain ⟨blockName, body⟩ := b
  have hempty : ∀ name, Block.codes filterAddress userDefined ⟨name, []⟩ = [] := fun _ => rfl
  have hlast : ∀ name, Block.lastCodes filterAddress userDefined ⟨name, []⟩ = [] := fun _ => rfl
  have hfrom : ∀ name lines, blocksFrom ⟨name, []⟩ (body ++ lines) = blocksFrom ⟨name, body⟩ lines := by
    intro name lines
    rw [blocksFrom_append _ hb]
    rfl
  have hnil := fun name => hfrom name []
  rw [List.append_nil] at hnil
  cases blockName with
  | none =>
    change loadLines filterAddress userDefined [] body = _ ∧
      ∀ name, loadLines filterAddress userDefined [] (body ++ ['$' :: name]) = _
    refine ⟨?_, fun name => ?_⟩
    · rw [loadLines_eq, blocks, hnil]
      rfl
    · rw [loadLines_eq, blocks, hfrom]
      change Block.codes filterAddress userDefined _ ++ Block.lastCodes filterAddress userDefined ⟨some name, []⟩ = _
      rw [hlast, List.append_nil]
  | some blockName =>
    change loadLines filterAddress userDefined [] (('$' :: blockName) :: body) = _ ∧
      ∀ name, loadLines filterAddress userDefined [] (('$' :: blockName) :: (body ++ ['$' :: name])) = _
    refine ⟨?_, fun name => ?_⟩
    · rw [loadLines_eq, blocks, blocksFrom, if_pos (List.head?_cons),
        codesOf_cons _ _ (blocksFrom_ne_nil _ _), hempty,
        List.tail_cons, hnil]
      rfl
    · rw [loadLines_eq, blocks, blocksFrom, if_pos (List.head?_cons),
        codesOf_cons _ _ (blocksFrom_ne_nil _ _), hempty,
        List.tail_cons, hfrom]
      change Block.codes filterAddress userDefined _ ++ Block.lastCodes filterAddress userDefined ⟨some name, []⟩ = _
      rw [hlast, List.append_nil]

/-- Blocks are parsed alike wherever they stand, and each entry is in one code. -/
structure SectionParses (lines : List Text) : Prop where
  position : ∀ b ∈ blocks lines, ∀ name,
    loadLines filterAddress userDefined [] (b.lines ++ ['$' :: name]) =
      loadLines filterAddress userDefined [] b.lines
  concatenation : loadLines filterAddress userDefined [] lines
    = (blocks lines).flatMap fun b => loadLines filterAddress userDefined [] b.lines
  ops : (loadLines filterAddress userDefined [] lines).flatMap ARCode.ops
    = (blocks lines).flatMap fun b => b.ops ++ decryptARCode filterAddress b.encryptedLines

theorem codesOf_eq_flatMap {bs : List Block} (h : ∀ b ∈ bs, ¬b.Mixed) : codesOf filterAddress userDefined bs
    = bs.flatMap (Block.codes filterAddress userDefined) := by
  induction bs with
  | nil => rfl
  | cons b bs ih =>
    obtain ⟨hb, hbs⟩ := List.forall_mem_cons.mp h
    cases bs with
    | nil =>
      rw [List.flatMap_cons, List.flatMap_nil, List.append_nil]
      exact (b.lastCodes_eq_iff filterAddress userDefined).mpr hb
    | cons b' bs =>
      rw [codesOf_cons _ _ (List.cons_ne_nil b' bs), ih hbs]
      rfl

theorem ops_codes (b : Block) : (b.codes filterAddress userDefined).flatMap ARCode.ops
    = b.ops ++ decryptARCode filterAddress b.encryptedLines := by
  have hnone : decryptARCode filterAddress [] = [] := if_pos rfl
  rw [Block.codes, List.flatMap_append]
  by_cases hops : b.ops = []
  · by_cases hencrypted : b.encryptedLines = []
    · simp [hops, hencrypted, hnone]
    · simp [hops, hencrypted, Block.code]
  · by_cases hencrypted : b.encryptedLines = []
    · simp [hops, hencrypted, hnone, Block.code]
    · simp [hops, hencrypted, Block.code]

/-- **When the blocks of a section are parsed alike**: if and only if no block has plain and encrypted lines. -/
theorem sectionParses_iff (lines : List Text) :
    SectionParses filterAddress userDefined lines ↔ ∀ b ∈ blocks lines, ¬b.Mixed := by
  have hclosed : ∀ b ∈ blocks lines, b.Closed :=
    blocksFrom_closed (fun line hmem => absurd hmem List.not_mem_nil) lines
  constructor
  · intro h b hb
    obtain ⟨hlast, hnext⟩ := loadLines_block filterAddress userDefined (hclosed b hb)
    have hposition := h.position b hb []
    rw [hnext, hlast] at hposition
    exact (b.lastCodes_eq_iff filterAddress userDefined).mp hposition.symm
  · intro h
    have hload : loadLines filterAddress userDefined [] lines
        = (blocks lines).flatMap (Block.codes filterAddress userDefined) := by
      rw [loadLines_eq, List.nil_append, codesOf_eq_flatMap filterAddress userDefined h]
    refine ⟨fun b hb name => ?_, ?_, ?_⟩
    · obtain ⟨hlast, hnext⟩ := loadLines_block filterAddress userDefined (hclosed b hb)
      rw [hnext, hlast, (b.lastCodes_eq_iff filterAddress userDefined).mpr (h b hb)]
    · rw [hload]
      refine List.flatMap_congr fun b hb => ?_
      rw [(loadLines_block filterAddress userDefined (hclosed b hb)).1,
        (b.lastCodes_eq_iff filterAddress userDefined).mpr (h b hb)]
    · rw [hload, List.flatMap_assoc]
      exact List.flatMap_congr fun b _ => ops_codes filterAddress userDefined b

end Blocks

/-- A name, an entry, and an encrypted line with a wrong parity. -/
def mixedLines : List Text := ["$a".toList, "00000000 00000000".toList, "0000-0000-00001".toList]

/-- The entry is also in the code of the encrypted line. -/
theorem not_sectionParses_mixed : ¬SectionParses 0 false mixedLines := by
  intro h
  have hops := congrArg List.length h.ops
  revert hops
  decide +kernel

end ActionReplay
