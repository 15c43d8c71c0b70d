import PrimedSteam.Lib.TextSearch
import Mathlib.Data.BitVec
import Mathlib.Data.List.Nodup
import Mathlib.Logic.Function.Basic

/-!
# The settings file

`SettingsWriter` and `SettingsReader` of `setting.txt`, a buffer of 256 bytes that is encoded with a
rolling key.

* `writeLine`: a line is written again with a line feed before it until it has no null byte.
* `getValue`: the search in the decoded text.
* `Holds w text`: the writer holds the encoded text; `Holds.writeLine` is what one line does to it.
* **`settings_round_trip`**: what was written is read.
-/

set_option autoImplicit false

namespace Common

open TextSearch

abbrev Byte := BitVec 8

abbrev Text := List Byte

def lf : Byte := 0x0A
def cr : Byte := 0x0D
def equalsSign : Byte := 0x3D

/-- `INITIAL_SEED` -/
def initialSeed : BitVec 32 := 0x73B5DBFA

/-- The size of a `SettingsBuffer`. -/
def bufferSize : ℕ := 0x100

def rotate (key : BitVec 32) : BitVec 32 := key >>> 31 ||| key <<< 1

/-! ## The writer -/

structure SettingsWriter where
  buffer : ℕ → Byte
  position : ℕ
  key : BitVec 32
  /-- A ghost: some byte had no place in the buffer. Every attempt at a line is longer than the one
  before, so that this is the case if and only if the last one does not fit. -/
  truncated : Bool

namespace SettingsWriter

def start : SettingsWriter := ⟨fun _ => 0, 0, initialSeed, false⟩

variable (w : SettingsWriter)

def writeByte (b : Byte) : SettingsWriter :=
  if bufferSize ≤ w.position then { w with truncated := true }
  else
    { w with
      buffer := Function.update w.buffer w.position ((b.setWidth 32 ^^^ w.key).setWidth 8)
      position := w.position + 1
      key := rotate w.key }

/-- All bytes of a text are written. -/
def writeBytes (str : Text) : SettingsWriter := str.foldl writeByte w

/-- There is a null byte from `old` on. -/
def hasNull (old : ℕ) : Bool :=
  (List.range' old (w.position - old)).any fun i => w.buffer i = 0

theorem position_writeByte (b : Byte) :
    (w.writeByte b).position = if bufferSize ≤ w.position then w.position else w.position + 1 := by
  rw [writeByte]
  split <;> rfl

theorem position_writeBytes_le (str : Text) :
    (w.writeBytes str).position ≤ max w.position bufferSize := by
  induction str generalizing w with
  | nil => exact le_max_left _ _
  | cons b str ih =>
    refine (ih (w.writeByte b)).trans (max_le ?_ (le_max_right _ _))
    rw [position_writeByte]
    split
    · exact le_max_left _ _
    · exact le_max_of_le_right (by omega)

theorem lt_of_hasNull {str : Text} (h : (w.writeBytes str).hasNull w.position = true) :
    w.position < bufferSize := by
  by_contra hfull
  rw [hasNull, List.any_eq_true] at h
  obtain ⟨i, hi, -⟩ := h
  have hle := w.position_writeBytes_le str
  rw [List.mem_range'_1] at hi
  omega

/-- `WriteLine` -/
def writeLine (w : SettingsWriter) (str : Text) : SettingsWriter :=
  let written := w.writeBytes str
  if _h : written.hasNull w.position = true then
    writeLine ({ written with key := w.key, position := w.position }.writeByte lf) str
  else written
termination_by bufferSize - w.position
decreasing_by
  have hlt := w.lt_of_hasNull _h
  simp only [position_writeByte, if_neg (not_le.mpr hlt)]
  omega

/-- `WriteLine` with a bound on the attempts. -/
def writeLineWithin : ℕ → SettingsWriter → Text → Option SettingsWriter
  | 0, _, _ => none
  | attempts + 1, w, str =>
    let written := w.writeBytes str
    if written.hasNull w.position = true then
      writeLineWithin attempts ({ written with key := w.key, position := w.position }.writeByte lf) str
    else some written

/-- **`WriteLine` ends**, after one attempt for each place that is left and one more. -/
theorem writeLineWithin_eq {attempts : ℕ} {w : SettingsWriter} {str : Text}
    (h : bufferSize - w.position < attempts) :
    writeLineWithin attempts w str = some (writeLine w str) := by
  induction attempts generalizing w with
  | zero => exact absurd h (Nat.not_lt_zero _)
  | succ attempts ih =>
    rw [writeLineWithin, writeLine]
    by_cases hnull : (w.writeBytes str).hasNull w.position = true
    · have hlt := w.lt_of_hasNull hnull
      rw [if_pos hnull, dif_pos hnull]
      refine ih ?_
      simp only [position_writeByte, if_neg (not_le.mpr hlt)]
      omega
    · rw [if_neg hnull, dif_neg hnull]

/-- `AddSetting` -/
def addSetting (key value : Text) : SettingsWriter :=
  w.writeLine (key ++ equalsSign :: value ++ [cr, lf])

end SettingsWriter

/-! ## The reader -/

/-- The decoded buffer, without its carriage returns. -/
def decode (buffer : ℕ → Byte) : Text :=
  (((List.range bufferSize).foldl (fun (state : Text × BitVec 32) position =>
    (state.1 ++ [((buffer position).setWidth 32 ^^^ state.2).setWidth 8], rotate state.2))
    ([], initialSeed)).1).filter (· ≠ cr)

/-- `std::string::find` -/
def findFrom (decoded pat : Text) (pos : ℕ) : Option ℕ := (find pat (decoded.drop pos)).map (· + pos)

/-- What stands from `start` to the end of the line. Without an end of the line the last byte is left
out. -/
def restOfLine (decoded : Text) (start : ℕ) : Text :=
  let delimFound := (findFrom decoded [lf] start).getD ((decoded.length + (2 ^ 64 - 1)) % 2 ^ 64)
  (decoded.drop start).take ((delimFound + (2 ^ 64 - start)) % 2 ^ 64)

/-- `GetValue` -/
def getValue (decoded key : Text) : Text :=
  let toFind := lf :: key ++ [equalsSign]
  match findFrom decoded toFind 0 with
  | some found => restOfLine decoded (found + toFind.length)
  | none =>
    let toFind := key ++ [equalsSign]
    if findFrom decoded toFind 0 = some 0 then restOfLine decoded toFind.length else []

/-! ## The rolling key -/

/-- The key at a position. -/
def keyAt (position : ℕ) : BitVec 32 := rotate^[position] initialSeed

/-- What a byte at a position is combined with. -/
def mask (position : ℕ) : Byte := (keyAt position).setWidth 8

theorem keyAt_eq (position : ℕ) : keyAt position = initialSeed.rotateLeft (position % 32) := by
  have hrotate : ∀ i < 32,
      rotate (initialSeed.rotateLeft i) = initialSeed.rotateLeft ((i + 1) % 32) := by
    decide +kernel
  induction position with
  | zero => rfl
  | succ position ih =>
    rw [keyAt, Function.iterate_succ_apply', ← keyAt, ih,
      hrotate _ (Nat.mod_lt _ (by decide)), Nat.mod_add_mod]

/-- **The key never turns a separator into a null byte**, nor a null byte into a separator. -/
theorem mask_ne (position : ℕ) :
    mask position ≠ lf ∧ mask position ≠ cr ∧ mask position ≠ equalsSign := by
  have hall : ∀ i < 32, (initialSeed.rotateLeft i).setWidth 8 ≠ lf ∧
      (initialSeed.rotateLeft i).setWidth 8 ≠ cr ∧
        (initialSeed.rotateLeft i).setWidth 8 ≠ equalsSign := by
    decide +kernel
  rw [mask, keyAt_eq]
  exact hall _ (Nat.mod_lt _ (by decide))

theorem encode_eq (b : Byte) (key : BitVec 32) :
    (b.setWidth 32 ^^^ key).setWidth 8 = b ^^^ key.setWidth 8 := by
  rw [BitVec.setWidth_xor]
  congr 1
  ext i hi
  simp

/-! ## The text of the writer -/

/-- The writer holds a text. From `dirty` bytes after the text on
nothing has been written. -/
structure Holds (w : SettingsWriter) (text : Text) (dirty : ℕ) : Prop where
  position : w.position = text.length
  le : text.length ≤ bufferSize
  key : w.key = keyAt text.length
  buffer : ∀ (i : ℕ) (h : i < text.length), w.buffer i = text[i] ^^^ mask i
  clean : ∀ i, text.length + dirty ≤ i → w.buffer i = 0
  fits : w.truncated = false

/-- No byte of the text is encoded as null. -/
def NoNull (text : Text) : Prop := ∀ (i : ℕ) (h : i < text.length), text[i] ≠ mask i

namespace SettingsWriter

variable {w : SettingsWriter}

theorem fits_of_writeByte {b : Byte} (h : (w.writeByte b).truncated = false) :
    w.truncated = false := by
  rw [writeByte] at h
  split at h
  · cases h
  · exact h

theorem fits_of_writeBytes {str : Text} (h : (w.writeBytes str).truncated = false) :
    w.truncated = false := by
  induction str generalizing w with
  | nil => exact h
  | cons b str ih => exact fits_of_writeByte (ih h)

theorem fits_of_writeLine {str : Text} (h : (writeLine w str).truncated = false) :
    w.truncated = false := by
  fun_induction writeLine w str with
  | case1 w written _ ih =>
    have hreset := fits_of_writeByte (ih h)
    exact fits_of_writeBytes hreset
  | case2 w written _ => exact fits_of_writeBytes h

theorem hasNull_eq_false {old : ℕ} (h : w.hasNull old = false) {i : ℕ} (hold : old ≤ i)
    (hi : i < w.position) : w.buffer i ≠ 0 := by
  rw [hasNull, List.any_eq_false] at h
  simpa using h i (List.mem_range'_1.mpr ⟨hold, by omega⟩)

end SettingsWriter

open SettingsWriter

section

variable {w : SettingsWriter} {text : Text} {dirty : ℕ}

theorem holds_start : Holds .start [] 0 where
  position := rfl
  le := Nat.zero_le _
  key := rfl
  buffer _ h := absurd h (Nat.not_lt_zero _)
  clean _ _ := rfl
  fits := rfl

theorem Holds.writeByte (h : Holds w text dirty) {b : Byte}
    (hfits : (w.writeByte b).truncated = false) :
    Holds (w.writeByte b) (text ++ [b]) (dirty - 1) := by
  have hplace : ¬bufferSize ≤ w.position := by
    intro hfull
    rw [SettingsWriter.writeByte, if_pos hfull] at hfits
    cases hfits
  have hposition := h.position
  rw [SettingsWriter.writeByte, if_neg hplace]
  refine ⟨?_, ?_, ?_, fun i hi => ?_, fun i hi => ?_, h.fits⟩
  · rw [List.length_append, ← hposition, List.length_singleton]
  · rw [List.length_append, ← hposition, List.length_singleton]
    omega
  · rw [List.length_append, List.length_singleton, keyAt, Function.iterate_succ_apply', ← keyAt,
      ← h.key]
  · simp only
    rw [List.length_append, List.length_singleton] at hi
    by_cases hlast : i = w.position
    · subst hlast
      rw [Function.update_self, encode_eq, h.key, ← hposition, mask]
      simp [hposition]
    · rw [Function.update_of_ne hlast, h.buffer i (by omega), List.getElem_append_left]
  · rw [List.length_append, List.length_singleton] at hi
    exact (Function.update_of_ne (by omega) ..).trans (h.clean i (by omega))

theorem Holds.writeBytes (h : Holds w text dirty) {str : Text}
    (hfits : (w.writeBytes str).truncated = false) :
    Holds (w.writeBytes str) (text ++ str) (dirty - str.length) := by
  induction str generalizing w text dirty with
  | nil => rwa [List.append_nil]
  | cons b str ih =>
    have hnext := ih (h.writeByte (fits_of_writeBytes hfits)) hfits
    rw [List.append_assoc, List.singleton_append] at hnext
    rw [List.length_cons, Nat.add_comm, ← Nat.sub_sub]
    exact hnext

/-- **A line is written** after some line feeds, if it fits. The induction is on the attempts: each of
them overwrites all that the attempt before has left. -/
theorem Holds.writeLine (h : Holds w text dirty) {str : Text} (hdirty : dirty ≤ str.length)
    (hnull : NoNull text) (hfits : (writeLine w str).truncated = false) :
    ∃ n, Holds (writeLine w str) (text ++ (List.replicate n lf ++ str)) 0 ∧
      NoNull (text ++ (List.replicate n lf ++ str)) := by
  fun_induction SettingsWriter.writeLine w str generalizing text dirty with
  | case1 w written =>
    rename_i hfound ih
    have hreset := fits_of_writeLine hfits
    have hfits' := fits_of_writeByte hreset
    have hwritten := h.writeBytes hfits'
    have hback : Holds { written with key := w.key, position := w.position } text str.length := by
      refine ⟨h.position, h.le, h.key, fun i hi => ?_, fun i hi => ?_, hwritten.fits⟩
      · have hi' : i < (text ++ str).length := by
          rw [List.length_append]
          omega
        exact (hwritten.buffer i hi').trans (by rw [List.getElem_append_left hi])
      · refine hwritten.clean i ?_
        rw [List.length_append]
        omega
    have hfeed := hback.writeByte hreset
    have hnull' : NoNull (text ++ [lf]) := by
      intro i hi
      rw [List.length_append, List.length_singleton] at hi
      by_cases hold : i < text.length
      · rw [List.getElem_append_left hold]
        exact hnull i hold
      · rw [List.getElem_append_right (not_lt.mp hold), List.getElem_singleton]
        exact (mask_ne i).1.symm
    obtain ⟨n, hholds, hresult⟩ := ih hfeed (Nat.sub_le _ _) hnull' hfits
    have happend : text ++ (List.replicate (n + 1) lf ++ str) =
        text ++ [lf] ++ (List.replicate n lf ++ str) := by
      rw [List.replicate_succ, List.append_assoc]
      rfl
    rw [← happend] at hholds hresult
    exact ⟨n + 1, hholds, hresult⟩
  | case2 w written =>
    rename_i hnone
    have hwritten := h.writeBytes hfits
    rw [Nat.sub_eq_zero_of_le hdirty] at hwritten
    refine ⟨0, hwritten, fun i hi => ?_⟩
    by_cases hold : i < text.length
    · exact (List.getElem_append_left hold).trans_ne (hnull i hold)
    · have hbuffer := hasNull_eq_false (Bool.eq_false_of_not_eq_true hnone)
        (h.position ▸ not_lt.mp hold) (hwritten.position ▸ hi)
      rw [hwritten.buffer i hi] at hbuffer
      exact mt BitVec.xor_eq_zero_iff.mpr hbuffer

/-- The text of a setting, after line feeds. -/
def blockText (block : ℕ × Text × Text) : Text :=
  List.replicate block.1 lf ++ (block.2.1 ++ equalsSign :: block.2.2 ++ [cr, lf])

/-- **Settings are written one after the other**, if they fit. -/
theorem Holds.addSettings (h : Holds w text 0) (hnull : NoNull text) {settings : List (Text × Text)}
    (hfits : (settings.foldl (fun w s => w.addSetting s.1 s.2) w).truncated = false) :
    ∃ blocks : List (ℕ × Text × Text), blocks.map Prod.snd = settings ∧
      Holds (settings.foldl (fun w s => w.addSetting s.1 s.2) w)
        (text ++ blocks.flatMap blockText) 0 ∧ NoNull (text ++ blocks.flatMap blockText) := by
  induction settings generalizing w text with
  | nil => exact ⟨[], rfl, by simpa using h, by simpa using hnull⟩
  | cons s settings ih =>
    have hmono : ∀ (settings : List (Text × Text)) (w : SettingsWriter),
        (settings.foldl (fun w s => w.addSetting s.1 s.2) w).truncated = false →
          w.truncated = false := by
      intro settings
      induction settings with
      | nil => exact fun _ h => h
      | cons s settings ih => exact fun w h => fits_of_writeLine (ih _ h)
    obtain ⟨n, hline, hnull'⟩ := h.writeLine (Nat.zero_le _) hnull (hmono settings _ hfits)
    obtain ⟨blocks, hblocks, hholds, hresult⟩ := ih hline hnull' hfits
    refine ⟨(n, s) :: blocks, by rw [List.map_cons, hblocks], ?_, ?_⟩
    · rw [List.flatMap_cons, ← List.append_assoc]
      exact hholds
    · rw [List.flatMap_cons, ← List.append_assoc]
      exact hresult

/-! ## The text of the reader -/

theorem decode_eq (buffer : ℕ → Byte) :
    decode buffer =
      ((List.range bufferSize).map fun i => buffer i ^^^ mask i).filter (· ≠ cr) := by
  have hfold : ∀ n, (List.range n).foldl (fun (state : Text × BitVec 32) position =>
      (state.1 ++ [((buffer position).setWidth 32 ^^^ state.2).setWidth 8], rotate state.2))
      ([], initialSeed) = ((List.range n).map fun i => buffer i ^^^ mask i, keyAt n) := by
    intro n
    induction n with
    | zero => rfl
    | succ n ih =>
      rw [List.range_succ, List.foldl_append, ih, List.foldl_cons, List.foldl_nil, List.map_append,
        encode_eq, keyAt, keyAt, Function.iterate_succ_apply']
      rfl
  rw [decode, hfold]

/-- What the rest of the buffer decodes to. -/
def garbage (position : ℕ) : Text := (List.range' position (bufferSize - position)).map mask

theorem mem_garbage {position : ℕ} {b : Byte} (h : b ∈ garbage position) :
    b ≠ lf ∧ b ≠ cr ∧ b ≠ equalsSign := by
  obtain ⟨i, -, rfl⟩ := List.mem_map.mp h
  exact mask_ne i

/-- **The reader decodes the text**, and garbage without separators after it. -/
theorem Holds.decode_buffer (h : Holds w text 0) :
    decode w.buffer = text.filter (· ≠ cr) ++ garbage text.length := by
  have hsplit : List.range bufferSize =
      List.range text.length ++ List.range' text.length (bufferSize - text.length) := by
    rw [List.range'_eq_map_range, ← List.range_add, Nat.add_sub_cancel' h.le]
  have htext : ((List.range text.length).map fun i => w.buffer i ^^^ mask i) = text := by
    refine List.ext_getElem (by simp) fun i hi hi' => ?_
    rw [List.getElem_map, List.getElem_range, h.buffer i hi', BitVec.xor_assoc, BitVec.xor_self,
      BitVec.xor_zero]
  have hrest : ((List.range' text.length (bufferSize - text.length)).map fun i =>
      w.buffer i ^^^ mask i) = garbage text.length := by
    refine List.map_congr_left fun i hi => ?_
    rw [h.clean i (List.mem_range'_1.mp hi).1]
    exact BitVec.zero_xor
  rw [decode_eq, hsplit, List.map_append, htext, hrest, List.filter_append]
  congr 1
  exact List.filter_eq_self.mpr fun b hb => by simpa using (mem_garbage hb).2.1

/-- The line of a setting. -/
def settingLine (s : Text × Text) : Text := s.1 ++ [equalsSign] ++ s.2

/-- The lines of a block: empty ones from the line feeds, and the line of the setting. -/
def blockLines (block : ℕ × Text × Text) : List Text :=
  List.replicate block.1 [] ++ [settingLine block.2]

/-- A setting that can be stored. -/
structure Clean (s : Text × Text) : Prop where
  key : lf ∉ s.1 ∧ cr ∉ s.1 ∧ equalsSign ∉ s.1
  value : lf ∉ s.2 ∧ cr ∉ s.2

theorem filter_blockText {block : ℕ × Text × Text} (h : Clean block.2) :
    (blockText block).filter (· ≠ cr) = (blockLines block).flatMap (· ++ [lf]) := by
  have hself : ∀ {l : Text}, cr ∉ l → l.filter (· ≠ cr) = l := fun {l} hl =>
    List.filter_eq_self.mpr fun b hb => by
      rw [decide_eq_true_eq]
      rintro rfl
      exact hl hb
  have hfeeds : cr ∉ List.replicate block.1 lf := fun hmem =>
    absurd (List.eq_of_mem_replicate hmem) (by decide)
  have hempty : (List.replicate block.1 ([] : Text)).flatMap (· ++ [lf]) =
      List.replicate block.1 lf := by
    induction block.1 with
    | zero => rfl
    | succ n ih => rw [List.replicate_succ, List.flatMap_cons, ih]; rfl
  rw [blockText, blockLines, List.flatMap_append, hempty, List.filter_append, hself hfeeds,
    List.filter_append, List.filter_append, hself h.key.2.1, List.filter_cons_of_pos (by decide),
    hself h.value.2, List.flatMap_singleton, settingLine]
  have hend : [cr, lf].filter (· ≠ cr) = [lf] := by decide
  rw [hend]
  simp

/-- The lines that the reader sees. -/
def lines (blocks : List (ℕ × Text × Text)) (position : ℕ) : List Text :=
  blocks.flatMap blockLines ++ [garbage position]

section

variable {blocks : List (ℕ × Text × Text)} {position : ℕ}

theorem mem_lines {line : Text} :
    line ∈ lines blocks position → line = [] ∨ line = garbage position ∨
      ∃ s ∈ blocks.map Prod.snd, line = settingLine s := by
  intro h
  rcases List.mem_append.mp h with h | h
  · obtain ⟨block, hblock, h⟩ := List.mem_flatMap.mp h
    rcases List.mem_append.mp h with h | h
    · exact .inl (List.eq_of_mem_replicate h)
    · exact .inr (.inr ⟨block.2, List.mem_map_of_mem hblock, List.mem_singleton.mp h⟩)
  · exact .inr (.inl (List.mem_singleton.mp h))

theorem lf_notMem_lines (hclean : ∀ s ∈ blocks.map Prod.snd, Clean s) {line : Text}
    (h : line ∈ lines blocks position) : lf ∉ line := by
  rcases mem_lines h with rfl | rfl | ⟨s, hs, rfl⟩
  · exact List.not_mem_nil
  · exact fun hmem => (mem_garbage hmem).1 rfl
  · rw [settingLine, List.mem_append, List.mem_append, List.mem_singleton, not_or, not_or]
    exact ⟨⟨(hclean s hs).key.1, by decide⟩, (hclean s hs).value.1⟩

theorem key_eq_of_prefix {key key' value : Text} (hkey : equalsSign ∉ key)
    (hkey' : equalsSign ∉ key') (h : key ++ [equalsSign] <+: key' ++ [equalsSign] ++ value) :
    key = key' := by
  induction key generalizing key' with
  | nil =>
    cases key' with
    | nil => rfl
    | cons c key' =>
      have hc : equalsSign = c := (List.cons_prefix_cons.mp h).1
      exact absurd (hc ▸ List.mem_cons_self) hkey'
  | cons c key ih =>
    rw [List.mem_cons, not_or] at hkey
    cases key' with
    | nil =>
      have hc : c = equalsSign := (List.cons_prefix_cons.mp h).1
      exact absurd hc.symm hkey.1
    | cons c' key' =>
      rw [List.mem_cons, not_or] at hkey'
      obtain ⟨rfl, htail⟩ := List.cons_prefix_cons.mp h
      rw [ih hkey.2 hkey'.2 htail]

/-- **Only the line of a setting starts with its key**, if the keys are distinct. -/
theorem eq_settingLine (hclean : ∀ s ∈ blocks.map Prod.snd, Clean s)
    (hkeys : ((blocks.map Prod.snd).map Prod.fst).Nodup) {s : Text × Text}
    (hs : s ∈ blocks.map Prod.snd) {line : Text} (hline : line ∈ lines blocks position)
    (hstarts : s.1 ++ [equalsSign] <+: line) : line = settingLine s := by
  rcases mem_lines hline with rfl | rfl | ⟨s', hs', rfl⟩
  · exact absurd (List.prefix_nil.mp hstarts) (by simp)
  · have hmem : equalsSign ∈ garbage position :=
      hstarts.subset (List.mem_append_right _ List.mem_cons_self)
    exact absurd rfl (mem_garbage hmem).2.2
  · have hkey := key_eq_of_prefix (hclean s hs).key.2.2 (hclean s' hs').key.2.2 hstarts
    rw [List.inj_on_of_nodup_map hkeys hs hs' hkey]

end

theorem restOfLine_eq {decoded value rest : Text} {start : ℕ}
    (hdrop : decoded.drop start = value ++ lf :: rest) (hvalue : lf ∉ value)
    (hlength : decoded.length < 2 ^ 64) : restOfLine decoded start = value := by
  have hfind : findFrom decoded [lf] start = some (value.length + start) := by
    rw [findFrom, hdrop, find_append hvalue, find_of_prefix (by simp)]
    simp
  have hlen := congrArg List.length hdrop
  rw [List.length_drop, List.length_append, List.length_cons] at hlen
  have hcount : (value.length + start + (2 ^ 64 - start)) % 2 ^ 64 = value.length := by omega
  rw [restOfLine, hfind, Option.getD_some, hcount, hdrop, List.take_left]

/-- **The value of a setting is found** in lines of which only its own starts with its key. -/
theorem getValue_eq {first : Text} {others : List Text} {key value : Text}
    (hlf : ∀ line ∈ first :: others, lf ∉ line) (hmem : key ++ [equalsSign] ++ value ∈ first :: others)
    (hunique : ∀ line ∈ first :: others, key ++ [equalsSign] <+: line →
      line = key ++ [equalsSign] ++ value)
    (hlast : (first :: others).getLast? ≠ some (key ++ [equalsSign] ++ value))
    (hlength : (first ++ others.flatMap (lf :: ·)).length < 2 ^ 64) :
    getValue (first ++ others.flatMap (lf :: ·)) key = value := by
  have hline := hlf _ hmem
  rw [List.mem_append, not_or] at hline
  have hothers : ∀ line ∈ others, lf ∉ line := fun line h => hlf line (List.mem_cons_of_mem _ h)
  -- a line after this one gives the end of the line
  have hnext : ∀ after : List Text, (∃ before, first :: others =
      before ++ (key ++ [equalsSign] ++ value) :: after) → ∃ rest, after.flatMap (lf :: ·) = lf :: rest := by
    rintro after ⟨before, heq⟩
    cases after with
    | nil => exact absurd (by rw [heq, List.getLast?_concat]) hlast
    | cons line after => exact ⟨_, rfl⟩
  by_cases hin : key ++ [equalsSign] ++ value ∈ others
  · obtain ⟨before, after, heq, hnot⟩ := List.eq_append_cons_of_mem hin
    have hbefore : ∀ line ∈ before, lf ∉ line ∧ ¬key ++ [equalsSign] <+: line := by
      intro line h
      have hmem' : line ∈ others := heq ▸ List.mem_append_left _ h
      refine ⟨hothers line hmem', fun hstarts => hnot ?_⟩
      rw [← hunique line (List.mem_cons_of_mem _ hmem') hstarts]
      exact h
    obtain ⟨p, hfind, hdrop⟩ := @find_lines _ _ lf _ _ before after hline.1
      (fun line h => (hbefore line h).1) hline.2 fun line h => (hbefore line h).2
    obtain ⟨rest, hrest⟩ := hnext after ⟨first :: before, by rw [heq]; rfl⟩
    rw [← heq] at hfind hdrop
    have hfound : findFrom (first ++ others.flatMap (lf :: ·)) (lf :: key ++ [equalsSign]) 0 =
        some (p + first.length) := by
      rw [findFrom, List.drop_zero, List.cons_append, find_append (hlf first List.mem_cons_self), hfind]
      rfl
    rw [getValue]
    simp only [hfound]
    refine @restOfLine_eq _ _ rest _ ?_ hline.2 hlength
    rw [← hrest, ← hdrop, Nat.add_comm p, Nat.add_assoc, ← List.drop_drop, List.drop_left]
    rfl
  · obtain rfl : key ++ [equalsSign] ++ value = first := by
      rcases List.mem_cons.mp hmem with h | h
      · exact h
      · exact absurd h hin
    obtain ⟨rest, hrest⟩ := hnext others ⟨[], rfl⟩
    have hnone : findFrom (key ++ [equalsSign] ++ value ++ others.flatMap (lf :: ·))
        (lf :: key ++ [equalsSign]) 0 = none := by
      rw [findFrom, List.drop_zero, List.cons_append, find_append (hlf _ List.mem_cons_self),
        find_lines_eq_none hline.1 hothers]
      · rfl
      · intro line h hstarts
        rw [hunique line (List.mem_cons_of_mem _ h) hstarts] at h
        exact hin h
    have hfirst : findFrom (key ++ [equalsSign] ++ value ++ others.flatMap (lf :: ·))
        (key ++ [equalsSign]) 0 = some 0 := by
      rw [findFrom, List.drop_zero, List.append_assoc, find_of_prefix (List.prefix_append _ _)]
      rfl
    rw [getValue]
    simp only [hnone, hfirst, if_true]
    refine @restOfLine_eq _ _ rest _ ?_ hline.2 hlength
    rw [List.append_assoc, List.drop_left, hrest]

end

/-- `AddSetting` for one setting after the other. -/
def addSettings (settings : List (Text × Text)) : SettingsWriter :=
  settings.foldl (fun w s => w.addSetting s.1 s.2) .start

/-- **Settings are read as they were written.** `WriteLine` ends for every text. If the settings fit,
no byte that was written is null, and the reader has the value of each key. -/
theorem settings_round_trip :
    (∀ (w : SettingsWriter) (str : Text),
      writeLineWithin (bufferSize + 1) w str = some (writeLine w str)) ∧
    ∀ settings : List (Text × Text), (∀ s ∈ settings, Clean s) → (settings.map Prod.fst).Nodup →
      (addSettings settings).truncated = false →
      (∀ i < (addSettings settings).position, (addSettings settings).buffer i ≠ 0) ∧
        ∀ s ∈ settings, getValue (decode (addSettings settings).buffer) s.1 = s.2 := by
  refine ⟨fun w str => writeLineWithin_eq (by omega), fun settings hclean hkeys hfits => ?_⟩
  obtain ⟨blocks, rfl, hholds, hnull⟩ := holds_start.addSettings (fun _ h => by cases h) hfits
  rw [List.nil_append] at hholds hnull
  rw [← addSettings] at hholds
  refine ⟨fun i hi => ?_, fun s hs => ?_⟩
  · have hi' : i < (blocks.flatMap blockText).length := hholds.position ▸ hi
    exact (hholds.buffer i hi').trans_ne (mt BitVec.xor_eq_zero_iff.mp (hnull i hi'))
  · have htext : (blocks.flatMap blockText).filter (· ≠ cr) =
        (blocks.flatMap blockLines).flatMap (· ++ [lf]) := by
      rw [List.filter_flatMap, List.flatMap_assoc]
      exact List.flatMap_congr fun block hblock =>
        filter_blockText (hclean _ (List.mem_map_of_mem hblock))
    have hdecode := hholds.decode_buffer
    rw [htext] at hdecode
    obtain ⟨first, others, heq⟩ : ∃ first others,
        lines blocks (blocks.flatMap blockText).length = first :: others :=
      List.exists_cons_of_ne_nil (by simp [lines])
    rw [flatMap_line_ends heq] at hdecode
    have hmem : settingLine s ∈ lines blocks (blocks.flatMap blockText).length := by
      obtain ⟨block, hblock, rfl⟩ := List.mem_map.mp hs
      exact List.mem_append_left _ (List.mem_flatMap.mpr
        ⟨block, hblock, List.mem_append_right _ List.mem_cons_self⟩)
    have hlength : (first ++ others.flatMap (lf :: ·)).length < 2 ^ 64 := by
      rw [← hdecode, decode_eq]
      refine (List.length_filter_le _ _).trans_lt ?_
      rw [List.length_map, List.length_range]
      decide
    rw [hdecode]
    refine getValue_eq (heq ▸ fun line h => lf_notMem_lines hclean h) (heq ▸ hmem)
      (heq ▸ fun line h => eq_settingLine hclean hkeys hs h) ?_ hlength
    rw [← heq, lines, List.getLast?_concat]
    intro hlast
    have hsign : equalsSign ∈ garbage (blocks.flatMap blockText).length := by
      rw [Option.some_inj.mp hlast]
      exact List.mem_append_left _ (List.mem_append_right _ List.mem_cons_self)
    exact (mem_garbage hsign).2.2 rfl

/-- `AREA=N` and `GAME=RM`, where the letter `N` would be encoded as null. -/
def nullInArea : List (Text × Text) := [([0x41, 0x52, 0x45, 0x41], [0x4E]), ([0x47, 0x41, 0x4D, 0x45], [0x52, 0x4D])]

/-- A line feed is put before the first line, and both values are read. -/
theorem settings_round_trip_nullInArea :
    (addSettings nullInArea).position = 18 ∧ (∀ i < 18, (addSettings nullInArea).buffer i ≠ 0) ∧
      getValue (decode (addSettings nullInArea).buffer) [0x41, 0x52, 0x45, 0x41] = [0x4E] ∧
      getValue (decode (addSettings nullInArea).buffer) [0x47, 0x41, 0x4D, 0x45] = [0x52, 0x4D] := by
  obtain ⟨hends, hround⟩ := settings_round_trip
  have hline : ∀ (w : SettingsWriter) (str : Text),
      writeLine w str = (writeLineWithin (bufferSize + 1) w str).getD w := by
    intro w str
    rw [hends, Option.getD_some]
  have hwritten : (addSettings nullInArea).position = 18 ∧ (addSettings nullInArea).truncated = false := by
    simp only [addSettings, nullInArea, List.foldl_cons, List.foldl_nil, SettingsWriter.addSetting, hline]
    decide +kernel
  have hclean : ∀ s ∈ nullInArea, Clean s := by
    rw [nullInArea, List.forall_mem_cons, List.forall_mem_singleton]
    exact ⟨⟨by decide, by decide⟩, ⟨by decide, by decide⟩⟩
  obtain ⟨hnull, hvalues⟩ := hround nullInArea hclean (by decide) hwritten.2
  rw [hwritten.1] at hnull
  exact ⟨hwritten.1, hnull, hvalues ([0x41, 0x52, 0x45, 0x41], [0x4E]) List.mem_cons_self,
    hvalues ([0x47, 0x41, 0x4D, 0x45], [0x52, 0x4D]) (List.mem_cons_of_mem _ List.mem_cons_self)⟩

end Common
