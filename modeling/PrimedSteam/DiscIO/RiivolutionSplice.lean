import PrimedSteam.DiscIO.RiivolutionPatcher

/-!
# What a patch of a file does

* `Piece s t`: `t` is what a split leaves of `s`.
* `exists_piece`: the sources behind the loop that splits are pieces of those before it.
* `tiled_around`: the sources that stay tile the file up to the patch and from its end on.
* `Spliced`: the sources tile the file, its size is right, and each byte is that of the patch or the
  one it was.
* `KeepsDecryptedSizes`: partition data that is cut keeps its decrypted size.
* **`spliced_iff`**: every call of a run splices exactly if this holds at every call.
-/

set_option autoImplicit false

namespace Riivolution

variable {a b d ps pe o : ℕ} {c s t : BuilderContentSource} {content rest : List BuilderContentSource}
  {env : Env}

/-! ## Sources that hold an offset -/

/-- A source holds the offset of a byte. -/
def BuilderContentSource.Holds (c : BuilderContentSource) (o : ℕ) : Prop := c.offset ≤ o ∧ o < c.stop

/-- Two sources of a tiling that hold one offset are the same. -/
theorem Tiled.eq_of_holds (h : Tiled a b content) (hs : s ∈ content) (ht : t ∈ content) (hso : s.Holds o)
    (hto : t.Holds o) : s = t := by
  induction content generalizing a with
  | nil => exact absurd hs List.not_mem_nil
  | cons c content ih =>
    obtain ⟨-, hrest⟩ := tiled_cons.mp h
    have hlater : ∀ x ∈ content, x.Holds o → ¬c.Holds o := by
      intro x hx hxo hco
      have hbounds := hrest.bounds x hx
      exact absurd (hbounds.1.trans hxo.1) (Nat.not_le.mpr hco.2)
    rcases List.mem_cons.mp hs with rfl | hs'
    · rcases List.mem_cons.mp ht with rfl | ht'
      · rfl
      · exact absurd hso (hlater t ht' hto)
    · rcases List.mem_cons.mp ht with rfl | ht'
      · exact absurd hto (hlater s hs' hso)
      · exact ih hrest hs' ht'

theorem Tiled.valueAt_eq (h : Tiled a b content) (hs : s ∈ content) (hso : s.Holds o) :
    valueAt env content o = s.byteAt env (o - s.offset) := by
  induction content generalizing a with
  | nil => exact absurd hs List.not_mem_nil
  | cons c content ih =>
    obtain ⟨-, hrest⟩ := tiled_cons.mp h
    rw [valueAt_cons]
    by_cases hco : c.offset ≤ o ∧ o < c.stop
    · rw [if_pos hco, h.eq_of_holds hs List.mem_cons_self hso hco]
    · rw [if_neg hco]
      rcases List.mem_cons.mp hs with rfl | hs
      · exact absurd hso hco
      · exact ih hrest hs

theorem Tiled.exists_holds (h : Tiled a b content) (ha : a ≤ o) (hb : o < b) :
    ∃ s ∈ content, s.Holds o := by
  induction content generalizing a with
  | nil =>
    have hab := tiled_nil.mp h
    omega
  | cons c content ih =>
    obtain ⟨rfl, hrest⟩ := tiled_cons.mp h
    rcases Nat.lt_or_ge o c.stop with ho | ho
    · exact ⟨c, List.mem_cons_self, ha, ho⟩
    · obtain ⟨s, hs, hso⟩ := ih hrest ho
      exact ⟨s, List.mem_cons_of_mem c hs, hso⟩

/-! ## The loop that splits -/

/-- What a split at two places leaves of a source. -/
structure Piece (ps pe : ℕ) (s t : BuilderContentSource) : Prop where
  offset_le : s.offset ≤ t.offset
  stop_le : t.stop ≤ s.stop
  source_eq : t.source = s.source.advance (t.offset - s.offset)
  offset_eq : t.offset = s.offset ∨ t.offset = ps ∨ t.offset = pe
  stop_eq : t.stop = s.stop ∨ t.stop = ps ∨ t.stop = pe

theorem advance_zero (source : ContentSource) : source.advance 0 = source := by
  cases source <;> rfl

theorem advance_advance (source : ContentSource) (m n : ℕ) :
    (source.advance m).advance n = source.advance (m + n) := by
  cases source with
  | memory bytes => simp only [ContentSource.advance, List.drop_drop]
  | _ => simp only [ContentSource.advance, Nat.add_assoc]

theorem piece_refl (s : BuilderContentSource) : Piece ps pe s s where
  offset_le := le_rfl
  stop_le := le_rfl
  source_eq := by rw [Nat.sub_self, advance_zero]
  offset_eq := Or.inl rfl
  stop_eq := Or.inl rfl

section Split

variable {place : ℕ} (hc : c.Inside place)

include hc

theorem stop_before : (c.before place).stop = place := by
  have hlt := hc.1
  rw [BuilderContentSource.stop, BuilderContentSource.before]
  dsimp only
  omega

theorem offset_after : (c.after place).offset = place := by
  have hlt := hc.1
  rw [BuilderContentSource.after]
  dsimp only
  omega

theorem stop_after : (c.after place).stop = c.stop := by
  have hlt := hc.1
  have hle := hc.2
  rw [BuilderContentSource.stop, BuilderContentSource.after]
  dsimp only
  omega

theorem piece_before (hplace : place = ps ∨ place = pe) : Piece ps pe c (c.before place) where
  offset_le := le_rfl
  stop_le := (stop_before hc).trans_le hc.2.le
  source_eq := by
    rw [BuilderContentSource.before, Nat.sub_self, advance_zero]
  offset_eq := Or.inl rfl
  stop_eq := Or.inr (by rw [stop_before hc]; exact hplace)

/-- Pieces of what is behind a split are pieces of the source. -/
theorem piece_after (hplace : place = ps ∨ place = pe) (ht : Piece ps pe (c.after place) t) :
    Piece ps pe c t where
  offset_le := hc.1.le.trans ((offset_after hc).ge.trans ht.offset_le)
  stop_le := ht.stop_le.trans (stop_after hc).le
  source_eq := by
    have hle := ht.offset_le
    have hlt := hc.1
    have hsource : (c.after place).source = c.source.advance (place - c.offset) := rfl
    rw [offset_after hc] at hle
    rw [ht.source_eq, hsource, offset_after hc, advance_advance]
    congr 1
    omega
  offset_eq := by
    have heq := ht.offset_eq
    rw [offset_after hc] at heq
    rcases heq with heq | heq | heq
    · rw [heq]
      exact Or.inr hplace
    · exact Or.inr (Or.inl heq)
    · exact Or.inr (Or.inr heq)
  stop_eq := by
    have heq := ht.stop_eq
    rwa [stop_after hc] at heq

end Split

theorem tiled_splitFrom (h : Tiled a b content) : Tiled a b (splitFrom ps pe content) := by
  fun_induction splitFrom ps pe content generalizing a with
  | case1 => exact h
  | case2 c rest hin ih =>
    obtain ⟨rfl, hrest⟩ := tiled_cons.mp h
    refine tiled_cons.mpr ⟨rfl, ih (tiled_cons.mpr ⟨?_, ?_⟩)⟩
    · rw [offset_after hin, stop_before hin]
    · rwa [stop_after hin]
  | case3 c rest _ hin ih =>
    obtain ⟨rfl, hrest⟩ := tiled_cons.mp h
    refine tiled_cons.mpr ⟨rfl, ih (tiled_cons.mpr ⟨?_, ?_⟩)⟩
    · rw [offset_after hin, stop_before hin]
    · rwa [stop_after hin]
  | case4 c rest _ _ ih =>
    obtain ⟨rfl, hrest⟩ := tiled_cons.mp h
    exact tiled_cons.mpr ⟨rfl, ih hrest⟩

/-- Neither end of the patch is left inside a source. -/
theorem not_inside_splitFrom (hle : ps ≤ pe) :
    ∀ t ∈ splitFrom ps pe content, ¬t.Inside ps ∧ ¬t.Inside pe := by
  fun_induction splitFrom ps pe content with
  | case1 => exact fun _ h => absurd h List.not_mem_nil
  | case2 c rest hin ih =>
    refine List.forall_mem_cons.mpr ⟨⟨fun h => ?_, fun h => ?_⟩, ih⟩
    · exact absurd h.2 (by rw [stop_before hin]; omega)
    · exact absurd h.2 (by rw [stop_before hin]; omega)
  | case3 c rest hps hin ih =>
    refine List.forall_mem_cons.mpr ⟨⟨fun h => ?_, fun h => ?_⟩, ih⟩
    · exact hps ⟨h.1, hle.trans_lt hin.2⟩
    · exact absurd h.2 (by rw [stop_before hin]; omega)
  | case4 c rest hps hpe ih => exact List.forall_mem_cons.mpr ⟨⟨hps, hpe⟩, ih⟩

/-- Every source behind the loop is a piece of one before it. -/
theorem exists_piece : ∀ t ∈ splitFrom ps pe content, ∃ s ∈ content, Piece ps pe s t := by
  fun_induction splitFrom ps pe content with
  | case1 => exact fun _ h => absurd h List.not_mem_nil
  | case2 c rest hin ih =>
    refine List.forall_mem_cons.mpr ⟨⟨c, List.mem_cons_self, piece_before hin (Or.inl rfl)⟩, ?_⟩
    intro t ht
    obtain ⟨s, hs, hpiece⟩ := ih t ht
    rcases List.mem_cons.mp hs with rfl | hs
    · exact ⟨c, List.mem_cons_self, piece_after hin (Or.inl rfl) hpiece⟩
    · exact ⟨s, List.mem_cons_of_mem c hs, hpiece⟩
  | case3 c rest _ hin ih =>
    refine List.forall_mem_cons.mpr ⟨⟨c, List.mem_cons_self, piece_before hin (Or.inr rfl)⟩, ?_⟩
    intro t ht
    obtain ⟨s, hs, hpiece⟩ := ih t ht
    rcases List.mem_cons.mp hs with rfl | hs
    · exact ⟨c, List.mem_cons_self, piece_after hin (Or.inr rfl) hpiece⟩
    · exact ⟨s, List.mem_cons_of_mem c hs, hpiece⟩
  | case4 c rest _ _ ih =>
    refine List.forall_mem_cons.mpr ⟨⟨c, List.mem_cons_self, piece_refl c⟩, ?_⟩
    intro t ht
    obtain ⟨s, hs, hpiece⟩ := ih t ht
    exact ⟨s, List.mem_cons_of_mem c hs, hpiece⟩

/-- A byte of a piece, as a byte of the source with the decrypted size of the piece. -/
theorem Piece.byteAt_eq (h : Piece ps pe s t) (ho : t.offset ≤ o) :
    t.byteAt env (o - t.offset) = s.source.byteAt env (decryptedSize t.size) (o - s.offset) := by
  have hle := h.offset_le
  have hindex : t.offset - s.offset + (o - t.offset) = o - s.offset := by omega
  rw [BuilderContentSource.byteAt, h.source_eq]
  cases s.source with
  | memory bytes => simp only [ContentSource.advance, ContentSource.byteAt, List.getElem?_drop, hindex]
  | _ => simp only [ContentSource.advance, ContentSource.byteAt, Nat.add_assoc, hindex]

/-- What a byte is behind the loop: the byte of a source, with the decrypted size of a piece. -/
theorem valueAt_splitFrom (h : Tiled a b content) (ha : a ≤ o) (hb : o < b) (hle : ps ≤ pe) :
    ∃ s ∈ content, ∃ t, Piece ps pe s t ∧ s.Holds o ∧ t.Holds o ∧ ¬t.Inside ps ∧ ¬t.Inside pe ∧
      ∀ env, valueAt env content o = s.byteAt env (o - s.offset) ∧
        valueAt env (splitFrom ps pe content) o =
          s.source.byteAt env (decryptedSize t.size) (o - s.offset) := by
  have hsplit : Tiled a b (splitFrom ps pe content) := tiled_splitFrom h
  obtain ⟨t, ht, hto⟩ := hsplit.exists_holds ha hb
  obtain ⟨s, hs, hpiece⟩ := exists_piece t ht
  have hso : s.Holds o := ⟨hpiece.offset_le.trans hto.1, hto.2.trans_le hpiece.stop_le⟩
  have hinside := not_inside_splitFrom hle t ht
  refine ⟨s, hs, t, hpiece, hso, hto, hinside.1, hinside.2, fun env => ⟨h.valueAt_eq hs hso, ?_⟩⟩
  rw [hsplit.valueAt_eq ht hto, hpiece.byteAt_eq hto.1]

/-! ## Discarding and dropping -/

theorem tiled_takeWhile (h : Tiled a b content) (hin : ∀ c ∈ content, ¬c.Inside ps) (ha : a ≤ ps)
    (hb : ps < b) :
    Tiled a ps (content.takeWhile (·.offset ≠ ps)) ∧ Tiled ps b (content.dropWhile (·.offset ≠ ps)) := by
  induction content generalizing a with
  | nil =>
    have hab := tiled_nil.mp h
    omega
  | cons c content ih =>
    obtain ⟨rfl, hrest⟩ := tiled_cons.mp h
    rw [List.forall_mem_cons] at hin
    by_cases hoffset : c.offset = ps
    · rw [List.takeWhile_cons_of_neg (by simpa using hoffset), List.dropWhile_cons_of_neg (by simpa using hoffset)]
      exact ⟨tiled_nil.mpr hoffset, hoffset ▸ h⟩
    · have hstop : c.stop ≤ ps := by
        by_contra hlt
        exact hin.1 ⟨by omega, by omega⟩
      obtain ⟨htake, hdrop⟩ := ih hrest hin.2 hstop
      rw [List.takeWhile_cons_of_pos (by simpa using hoffset), List.dropWhile_cons_of_pos (by simpa using hoffset)]
      exact ⟨tiled_cons.mpr ⟨rfl, htake⟩, hdrop⟩

theorem tiled_dropWhile (h : Tiled a b content) (hin : ∀ c ∈ content, ¬c.Inside pe) (ha : a ≤ pe) :
    Tiled pe (max b pe) (content.dropWhile fun c => decide (c.stop ≤ pe)) := by
  induction content generalizing a with
  | nil =>
    have hab := tiled_nil.mp h
    rw [List.dropWhile_nil]
    exact tiled_nil.mpr (by omega)
  | cons c content ih =>
    obtain ⟨rfl, hrest⟩ := tiled_cons.mp h
    rw [List.forall_mem_cons] at hin
    by_cases hstop : c.stop ≤ pe
    · rw [List.dropWhile_cons_of_pos (by simpa using hstop)]
      exact ih hrest hin.2 hstop
    · have hoffset : c.offset = pe := by
        by_contra hne
        exact hin.1 ⟨by omega, by omega⟩
      have hle := hrest.le
      rw [List.dropWhile_cons_of_neg (by simpa using hstop), max_eq_left (by omega)]
      exact hoffset ▸ h

theorem tiled_rdropWhile (h : Tiled a b content) (hin : ∀ c ∈ content, ¬c.Inside d) (ha : a ≤ d)
    (hb : d ≤ b) : Tiled a d (content.rdropWhile fun c => decide (d ≤ c.offset)) := by
  induction content using List.reverseRecOn generalizing b with
  | nil =>
    have hab := tiled_nil.mp h
    exact tiled_nil.mpr (by omega)
  | append_singleton content c ih =>
    obtain ⟨m, hm, hlast⟩ := h.of_append
    obtain ⟨hoffset, hstop⟩ := tiled_cons.mp hlast
    have hstop := tiled_nil.mp hstop
    by_cases hdrop : d ≤ c.offset
    · rw [List.rdropWhile_concat_pos _ _ _ (by simpa using hdrop)]
      exact ih hm (fun x hx => hin x (List.mem_append_left _ hx)) (by omega)
    · rw [List.rdropWhile_concat_neg _ _ _ (by simpa using hdrop)]
      have hb' : b = d := by
        by_contra hne
        exact hin c (by simp) ⟨by omega, by omega⟩
      exact hb' ▸ h

theorem valueAt_rdropWhile (hd : o < d) :
    valueAt env (content.rdropWhile fun c => decide (d ≤ c.offset)) o = valueAt env content o := by
  induction content using List.reverseRecOn with
  | nil => rfl
  | append_singleton content c ih =>
    by_cases hdrop : d ≤ c.offset
    · rw [List.rdropWhile_concat_pos _ _ _ (by simpa using hdrop), ih, valueAt_append_right]
      intro x hx
      rw [List.mem_singleton.mp hx]
      omega
    · rw [List.rdropWhile_concat_neg _ _ _ (by simpa using hdrop)]

/-! ## The patch data -/

variable {p : FilePatch} {file : ExternalFile} {node : FSTBuilderNode}

theorem offset_le_patchEnd : p.offset ≤ p.patchEnd file := Nat.le_add_right _ _

theorem tiled_sources : Tiled p.offset (p.patchEnd file) (p.sources file) := by
  rw [FilePatch.sources, FilePatch.patchEnd]
  split
  · next hpos =>
    split
    · refine tiled_cons.mpr ⟨rfl, tiled_cons.mpr ⟨?_, tiled_nil.mpr ?_⟩⟩
      all_goals
        simp only [BuilderContentSource.stop, ExternalFile.makeContentSource]
        omega
    · refine tiled_cons.mpr ⟨rfl, tiled_nil.mpr ?_⟩
      simp only [BuilderContentSource.stop, ExternalFile.makeContentSource]
      omega
  · next hnone =>
    split
    · refine tiled_cons.mpr ⟨?_, tiled_nil.mpr ?_⟩
      all_goals
        simp only [BuilderContentSource.stop]
        omega
    · exact tiled_nil.mpr (by omega)

/-- The bytes of the patch: those of the external file, and zeroes behind them. -/
theorem valueAt_sources (ho : p.offset ≤ o) (hlt : o < p.patchEnd file) :
    valueAt env (p.sources file) o =
      if o - p.offset < p.externalFilesize file then
        env.fileByte file.filename (p.fileOffset + (o - p.offset))
      else some 0 := by
  rw [FilePatch.patchEnd] at hlt
  by_cases hext : o - p.offset < p.externalFilesize file
  · have hmin : min p.fileOffset file.size = p.fileOffset := by
      rw [FilePatch.externalFilesize] at hext
      omega
    have hpos : 0 < p.patchSize file ∧ 0 < p.externalFilesize file := by omega
    rw [if_pos hext, FilePatch.sources, if_pos hpos, List.singleton_append, valueAt_cons, if_pos]
    · simp only [BuilderContentSource.byteAt, ExternalFile.makeContentSource, ContentSource.byteAt, hmin]
    · simp only [BuilderContentSource.stop, ExternalFile.makeContentSource]
      omega
  · have hpad : p.externalFilesize file < p.patchSize file := by omega
    rw [if_neg hext, FilePatch.sources, if_pos hpad, valueAt_append_left, valueAt_cons, if_pos]
    · rfl
    · simp only [BuilderContentSource.stop]
      omega
    · intro c hc
      split at hc
      · rw [List.mem_singleton.mp hc]
        simp only [BuilderContentSource.stop, ExternalFile.makeContentSource]
        omega
      · exact absurd hc List.not_mem_nil

/-! ## The sources around the patch -/

theorem tiled_around (h : Tiled 0 node.size node.content) :
    Tiled 0 p.offset (p.around file node).1 ∧
      Tiled (p.patchEnd file) (max node.size (p.patchEnd file)) (p.around file node).2 := by
  have hle := @offset_le_patchEnd p file
  rw [FilePatch.around]
  split
  · next hpast =>
    constructor
    · split
      · refine h.append (tiled_cons.mpr ⟨rfl, tiled_nil.mpr ?_⟩)
        simp only [BuilderContentSource.stop]
        omega
      · rw [List.append_nil, Nat.le_antisymm (by omega) hpast]
        exact h
    · exact tiled_nil.mpr (by omega)
  · next hinside =>
    have hsplit : Tiled 0 node.size (splitFrom p.offset (p.patchEnd file) node.content) := tiled_splitFrom h
    have hin := @not_inside_splitFrom p.offset (p.patchEnd file) node.content hle
    obtain ⟨htake, hdrop⟩ := tiled_takeWhile hsplit (fun c hc => (hin c hc).1) (Nat.zero_le _) (by omega)
    have hbehind := tiled_dropWhile hdrop
      (fun c hc => (hin c (List.dropWhile_subset _ hc)).2) hle
    rw [discard]
    split
    · next hnil =>
      rw [hnil] at hdrop
      have heq := tiled_nil.mp hdrop
      omega
    · exact ⟨htake, hbehind⟩

theorem valueAt_around_fst (h : Tiled 0 node.size node.content) (ho : o < p.offset) :
    valueAt env (p.around file node).1 o =
      if node.size ≤ p.offset then (if o < node.size then valueAt env node.content o else some 0)
      else valueAt env (splitFrom p.offset (p.patchEnd file) node.content) o := by
  have hle := @offset_le_patchEnd p file
  rw [FilePatch.around]
  split
  · next hpast =>
    by_cases hold : o < node.size
    · rw [if_pos hold]
      refine valueAt_append_right fun c hc => ?_
      split at hc
      · rw [List.mem_singleton.mp hc]
        simp only
        omega
      · exact absurd hc List.not_mem_nil
    · have hfree : ∀ c ∈ node.content, ¬(c.offset ≤ o ∧ o < c.stop) := by
        intro c hc
        have hbounds := h.bounds c hc
        omega
      rw [if_neg hold, valueAt_append_left hfree, if_pos (by omega), valueAt_cons, if_pos]
      · rfl
      · simp only [BuilderContentSource.stop]
        omega
  · next hinside =>
    have hsplit : Tiled 0 node.size (splitFrom p.offset (p.patchEnd file) node.content) := tiled_splitFrom h
    have hin := @not_inside_splitFrom p.offset (p.patchEnd file) node.content hle
    obtain ⟨htake, hdrop⟩ := tiled_takeWhile hsplit (fun c hc => (hin c hc).1) (Nat.zero_le _) (by omega)
    have hbehind : valueAt env (splitFrom p.offset (p.patchEnd file) node.content) o =
        valueAt env ((splitFrom p.offset (p.patchEnd file) node.content).takeWhile (·.offset ≠ p.offset)) o := by
      conv_lhs => rw [← List.takeWhile_append_dropWhile (p := (·.offset ≠ p.offset))
        (l := splitFrom p.offset (p.patchEnd file) node.content)]
      refine valueAt_append_right fun c hc => ?_
      have hbounds := hdrop.bounds c hc
      omega
    rw [discard, hbehind]
    split
    · next hnil =>
      rw [hnil] at hdrop
      have heq := tiled_nil.mp hdrop
      omega
    · rfl

theorem valueAt_around_snd (h : Tiled 0 node.size node.content) (ho : p.patchEnd file ≤ o)
    (hsize : p.offset < node.size) :
    valueAt env (p.around file node).2 o =
      valueAt env (splitFrom p.offset (p.patchEnd file) node.content) o := by
  have hle := @offset_le_patchEnd p file
  have hsplit : Tiled 0 node.size (splitFrom p.offset (p.patchEnd file) node.content) := tiled_splitFrom h
  have hin := @not_inside_splitFrom p.offset (p.patchEnd file) node.content hle
  obtain ⟨htake, hdrop⟩ := tiled_takeWhile hsplit (fun c hc => (hin c hc).1) (Nat.zero_le _) hsize
  rw [FilePatch.around, if_neg (by omega)]
  generalize splitFrom p.offset (p.patchEnd file) node.content = content at htake hdrop
  have hbefore : valueAt env content o = valueAt env (content.dropWhile (·.offset ≠ p.offset)) o := by
    conv_lhs => rw [← List.takeWhile_append_dropWhile (p := (·.offset ≠ p.offset)) (l := content)]
    refine valueAt_append_left fun c hc => ?_
    have hbounds := htake.bounds c hc
    omega
  rw [discard, hbefore]
  split
  · next hnil =>
    rw [hnil] at hdrop
    have heq := tiled_nil.mp hdrop
    omega
  · conv_rhs => rw [← List.takeWhile_append_dropWhile (p := fun c => decide (c.stop ≤ p.patchEnd file))
      (l := content.dropWhile (·.offset ≠ p.offset))]
    refine (valueAt_append_left fun c hc => ?_).symm
    have hstop : c.stop ≤ p.patchEnd file := by simpa using List.mem_takeWhile_imp hc
    omega

/-! ## Partition data -/

def ContentSource.isPartition : ContentSource → Bool
  | .partition _ _ => true
  | _ => false

/-- Partition data that is cut and stays keeps its decrypted size. -/
structure KeepsDecryptedSizes (p : FilePatch) (file : ExternalFile) (node : FSTBuilderNode) : Prop where
  left : ∀ s ∈ node.content, s.source.isPartition = true → s.Inside p.offset →
    decryptedSize (p.offset - s.offset) = decryptedSize s.size
  right : p.resize = false → ∀ s ∈ node.content, s.source.isPartition = true →
    s.Inside (p.patchEnd file) → decryptedSize (s.stop - p.patchEnd file) = decryptedSize s.size

theorem byteAt_of_not_partition {source : ContentSource} (h : source.isPartition = false) (m n i : ℕ) :
    source.byteAt env m i = source.byteAt env n i := by
  cases source with
  | partition => cases h
  | _ => rfl

theorem Piece.size_left (h : Piece ps pe s t) (hle : ps ≤ pe) (hto : t.Holds o) (ho : o < ps)
    (hin : ¬t.Inside ps) : t.size = if s.Inside ps then ps - s.offset else s.size := by
  have hoffset := h.offset_eq
  have hstop := h.stop_eq
  have hoffset_le := h.offset_le
  have hstop_le := h.stop_le
  by_cases hs : s.Inside ps
  · rw [if_pos hs]
    simp only [BuilderContentSource.Holds, BuilderContentSource.Inside, BuilderContentSource.stop] at *
    omega
  · rw [if_neg hs]
    simp only [BuilderContentSource.Holds, BuilderContentSource.Inside, BuilderContentSource.stop] at *
    omega

theorem Piece.size_right (h : Piece ps pe s t) (hle : ps ≤ pe) (hto : t.Holds o) (ho : pe ≤ o)
    (hin : ¬t.Inside pe) : t.size = if s.Inside pe then s.stop - pe else s.size := by
  have hoffset := h.offset_eq
  have hstop := h.stop_eq
  have hoffset_le := h.offset_le
  have hstop_le := h.stop_le
  by_cases hs : s.Inside pe
  · rw [if_pos hs]
    simp only [BuilderContentSource.Holds, BuilderContentSource.Inside, BuilderContentSource.stop] at *
    omega
  · rw [if_neg hs]
    simp only [BuilderContentSource.Holds, BuilderContentSource.Inside, BuilderContentSource.stop] at *
    omega

/-! ## One patch -/

/-- The sources tile the file in order, its size is that of the patch or the larger one, bytes outside
the patch keep their value, with zeroes between the old end and the patch, and bytes inside are those
of the external file, with zeroes behind them. -/
structure Spliced (env : Env) (p : FilePatch) (file : ExternalFile) (old new : FSTBuilderNode) : Prop where
  tiled : Tiled 0 new.size new.content
  size_eq : new.size = if p.resize then p.patchEnd file else max old.size (p.patchEnd file)
  outside : ∀ o < new.size, o < p.offset ∨ p.patchEnd file ≤ o →
    valueAt env new.content o = if o < old.size then valueAt env old.content o else some 0
  inside : ∀ o, p.offset ≤ o → o < p.patchEnd file →
    valueAt env new.content o =
      if o - p.offset < p.externalFilesize file then
        env.fileByte file.filename (p.fileOffset + (o - p.offset))
      else some 0

/-- The node behind a patch. -/
def FilePatch.spliced (p : FilePatch) (file : ExternalFile) (node : FSTBuilderNode) : FSTBuilderNode :=
  ⟨p.targetFilesize file node,
    ((p.around file node).1 ++ p.sources file ++ (p.around file node).2).rdropWhile
      fun c => decide (p.targetFilesize file node ≤ c.offset)⟩

theorem tiled_spliced (h : Tiled 0 node.size node.content) :
    Tiled 0 (p.spliced file node).size (p.spliced file node).content := by
  have hle := @offset_le_patchEnd p file
  obtain ⟨hbefore, hbehind⟩ := @tiled_around p file node h
  have hwhole := (hbefore.append (@tiled_sources p file)).append hbehind
  have htarget : p.targetFilesize file node ≤ max node.size (p.patchEnd file) := by
    rw [FilePatch.targetFilesize]
    split <;> omega
  refine tiled_rdropWhile hwhole (fun c hc hin => ?_) (Nat.zero_le _) htarget
  have hbounds := hwhole.bounds c hc
  have hin : c.Inside (p.targetFilesize file node) := hin
  rw [FilePatch.targetFilesize] at hin
  split at hin
  · rcases List.mem_append.mp hc with hc | hc
    · have hbounds := (hbefore.append (@tiled_sources p file)).bounds c hc
      exact absurd hin.2 (by omega)
    · have hbounds := hbehind.bounds c hc
      exact absurd hin.1 (by omega)
  · exact absurd hin.2 (by omega)

theorem patchEnd_le_target : p.patchEnd file ≤ p.targetFilesize file node := by
  rw [FilePatch.targetFilesize]
  split
  · exact le_rfl
  · exact le_max_right _ _

theorem valueAt_spliced_before (h : Tiled 0 node.size node.content) (ho : o < p.offset) :
    valueAt env (p.spliced file node).content o = valueAt env (p.around file node).1 o := by
  have hle := @offset_le_patchEnd p file
  have htarget := @patchEnd_le_target p file node
  obtain ⟨hbefore, hbehind⟩ := @tiled_around p file node h
  rw [FilePatch.spliced]
  dsimp only
  rw [valueAt_rdropWhile (by omega), List.append_assoc]
  refine valueAt_append_right fun c hc => ?_
  have hbounds := (tiled_sources.append hbehind).bounds c hc
  omega

theorem valueAt_spliced_inside (h : Tiled 0 node.size node.content) (ho : p.offset ≤ o)
    (hlt : o < p.patchEnd file) :
    valueAt env (p.spliced file node).content o = valueAt env (p.sources file) o := by
  have htarget := @patchEnd_le_target p file node
  obtain ⟨hbefore, hbehind⟩ := @tiled_around p file node h
  have hfree : ∀ c ∈ (p.around file node).1, ¬(c.offset ≤ o ∧ o < c.stop) := by
    intro c hc
    have hbounds := hbefore.bounds c hc
    omega
  rw [FilePatch.spliced]
  dsimp only
  rw [valueAt_rdropWhile (by omega), List.append_assoc, valueAt_append_left hfree]
  refine valueAt_append_right fun c hc => ?_
  have hbounds := hbehind.bounds c hc
  omega

theorem valueAt_spliced_behind (h : Tiled 0 node.size node.content) (ho : p.patchEnd file ≤ o)
    (hlt : o < p.targetFilesize file node) :
    valueAt env (p.spliced file node).content o = valueAt env (p.around file node).2 o := by
  have hle := @offset_le_patchEnd p file
  obtain ⟨hbefore, hbehind⟩ := @tiled_around p file node h
  rw [FilePatch.spliced]
  dsimp only
  rw [valueAt_rdropWhile hlt]
  refine valueAt_append_left fun c hc => ?_
  have hbounds := (hbefore.append (@tiled_sources p file)).bounds c hc
  omega

theorem exists_piece_outside (h : Tiled 0 node.size node.content) (hsize : p.offset < node.size)
    (ho : o < node.size) (hnew : o < p.targetFilesize file node) (hout : o < p.offset ∨ p.patchEnd file ≤ o) :
    ∃ s ∈ node.content, ∃ t, Piece p.offset (p.patchEnd file) s t ∧ s.Holds o ∧ t.Holds o ∧
      ¬t.Inside p.offset ∧ ¬t.Inside (p.patchEnd file) ∧
      ∀ env, valueAt env node.content o = s.byteAt env (o - s.offset) ∧
        valueAt env (p.spliced file node).content o =
          s.source.byteAt env (decryptedSize t.size) (o - s.offset) := by
  have hle := @offset_le_patchEnd p file
  obtain ⟨s, hs, t, hpiece, hso, hto, hps, hpe, hvalue⟩ := valueAt_splitFrom h (Nat.zero_le o) ho hle
  refine ⟨s, hs, t, hpiece, hso, hto, hps, hpe, fun env => ⟨(hvalue env).1, ?_⟩⟩
  rw [← (hvalue env).2]
  rcases hout with hout | hout
  · rw [valueAt_spliced_before h hout, valueAt_around_fst h hout, if_neg (by omega)]
  · rw [valueAt_spliced_behind h hout hnew, valueAt_around_snd h hout hsize]

theorem spliced_of_keeps (h : Tiled 0 node.size node.content) (hkeeps : KeepsDecryptedSizes p file node) :
    Spliced env p file node (p.spliced file node) where
  tiled := tiled_spliced h
  size_eq := rfl
  inside := by
    intro o ho hlt
    rw [valueAt_spliced_inside h ho hlt, valueAt_sources ho hlt]
  outside := by
    intro o hnew hout
    have hle := @offset_le_patchEnd p file
    rcases Nat.lt_or_ge p.offset node.size with hsize | hpast
    · have hold : o < node.size := by
        have htarget : o < p.targetFilesize file node := hnew
        rw [FilePatch.targetFilesize] at htarget
        split at htarget <;> omega
      obtain ⟨s, hs, t, hpiece, hso, hto, hps, hpe, hvalue⟩ := exists_piece_outside h hsize hold hnew hout
      rw [if_pos hold, (hvalue env).1, (hvalue env).2, BuilderContentSource.byteAt]
      cases hpartition : s.source.isPartition with
      | false => exact byteAt_of_not_partition hpartition _ _ _
      | true =>
        have hdecrypted : decryptedSize t.size = decryptedSize s.size := by
          rcases hout with hout | hout
          · rw [hpiece.size_left hle hto hout hps]
            split
            · next hin => exact hkeeps.left s hs hpartition hin
            · rfl
          · have hresize : p.resize = false := by
              cases hr : p.resize with
              | false => rfl
              | true =>
                have htarget : o < p.targetFilesize file node := hnew
                rw [FilePatch.targetFilesize, if_pos hr] at htarget
                omega
            rw [hpiece.size_right hle hto hout hpe]
            split
            · next hin => exact hkeeps.right hresize s hs hpartition hin
            · rfl
        rw [hdecrypted]
    · have hbefore : o < p.offset := by
        have htarget : o < p.targetFilesize file node := hnew
        rw [FilePatch.targetFilesize] at htarget
        split at htarget <;> omega
      rw [valueAt_spliced_before h hbefore, valueAt_around_fst h hbefore, if_pos hpast]

/-- A reader that tells apart the decrypted sizes of partition data. -/
def tellingApart (decrypted : ℕ) : Env where
  fileByte := fun _ _ => none
  encryptPartitionData := fun _ _ size => some (if size = decrypted then 1 else 0)
  volumeByte := fun _ _ => none

theorem byteAt_tellingApart {source : ContentSource} (h : source.isPartition = true) (decrypted size i : ℕ) :
    source.byteAt (tellingApart decrypted) size i = some (if size = decrypted then 1 else 0) := by
  cases source with
  | partition => rfl
  | _ => cases h

theorem keeps_of_spliced (h : Tiled 0 node.size node.content)
    (hspliced : ∀ env, Spliced env p file node (p.spliced file node)) : KeepsDecryptedSizes p file node := by
  have hle := @offset_le_patchEnd p file
  -- a piece that holds a byte outside the patch has the decrypted size of its source
  have hsame : ∀ o, o < p.targetFilesize file node → (o < p.offset ∨ p.patchEnd file ≤ o) →
      p.offset < node.size → ∀ s ∈ node.content, s.source.isPartition = true → s.Holds o →
      ∃ t, Piece p.offset (p.patchEnd file) s t ∧ t.Holds o ∧ ¬t.Inside p.offset ∧
        ¬t.Inside (p.patchEnd file) ∧ decryptedSize t.size = decryptedSize s.size := by
    intro o hnew hout hsize s hs hpartition hso
    have hold : o < node.size := hso.2.trans_le (h.bounds s hs).2
    obtain ⟨s', hs', t, hpiece, hso', hto, hps, hpe, hvalue⟩ := exists_piece_outside h hsize hold hnew hout
    obtain rfl := h.eq_of_holds hs hs' hso hso'
    have heq := (hspliced (tellingApart (decryptedSize s.size))).outside o hnew hout
    rw [if_pos hold, (hvalue _).1, (hvalue _).2, BuilderContentSource.byteAt, byteAt_tellingApart hpartition,
      byteAt_tellingApart hpartition, if_pos rfl] at heq
    refine ⟨t, hpiece, hto, hps, hpe, ?_⟩
    by_contra hne
    rw [if_neg hne] at heq
    exact absurd heq (by decide)
  constructor
  · intro s hs hpartition hin
    have hbounds := h.bounds s hs
    have htarget := @patchEnd_le_target p file node
    have hlt := hin.1
    have hgt := hin.2
    obtain ⟨t, hpiece, hto, hps, -, hsize⟩ := hsame s.offset (by omega) (Or.inl hin.1) (by omega) s hs hpartition
      ⟨le_rfl, hlt.trans hgt⟩
    rwa [hpiece.size_left hle hto hin.1 hps, if_pos hin] at hsize
  · intro hresize s hs hpartition hin
    have hbounds := h.bounds s hs
    have hlt := hin.1
    have hgt := hin.2
    have htarget : p.patchEnd file < p.targetFilesize file node := by
      rw [FilePatch.targetFilesize, if_neg (by simp [hresize])]
      omega
    obtain ⟨t, hpiece, hto, -, hpe, hsize⟩ := hsame (p.patchEnd file) htarget (Or.inr le_rfl) (by omega) s hs
      hpartition ⟨hlt.le, hgt⟩
    rwa [hpiece.size_right hle hto le_rfl hpe, if_pos hin] at hsize

/-! ## Runs of patches -/

/-- What a call is to do to the file: where there is an external file the patch is spliced in, for
whatever the sources read, and else nothing happens. -/
def StepSplices (p : FilePatch) (old new : FSTBuilderNode) : Prop :=
  Tiled 0 new.size new.content ∧
    match p.external with
    | none => new = old
    | some file => ∀ env, Spliced env p file old new

/-- The call cuts no partition data in such a way that its decrypted size changes. -/
def StepKeeps (p : FilePatch) (old : FSTBuilderNode) : Prop :=
  ∀ file, p.external = some file → KeepsDecryptedSizes p file old

/-- Every call of a run has a property, of the parameters and of the file before and after it. -/
def EachCall (R : FilePatch → FSTBuilderNode → FSTBuilderNode → Prop) : FSTBuilderNode → List FilePatch → Prop
  | _, [] => True
  | node, p :: patches =>
    R p node (applyPatchToFile p node) ∧ EachCall R (applyPatchToFile p node) patches

theorem tiled_applyPatchToFile (p : FilePatch) (h : Tiled 0 node.size node.content) :
    Tiled 0 (applyPatchToFile p node).size (applyPatchToFile p node).content := by
  rw [applyPatchToFile]
  split
  · exact h
  · exact tiled_spliced h

theorem stepSplices_iff (p : FilePatch) (h : Tiled 0 node.size node.content) :
    StepSplices p node (applyPatchToFile p node) ↔ StepKeeps p node := by
  have htiled := tiled_applyPatchToFile p h
  rw [StepSplices, StepKeeps]
  cases hexternal : p.external with
  | none =>
    refine iff_of_true ⟨htiled, ?_⟩ (fun file hfile => by cases hfile)
    rw [applyPatchToFile, hexternal]
  | some file =>
    have happly : applyPatchToFile p node = p.spliced file node := by
      rw [applyPatchToFile, hexternal]
      rfl
    constructor
    · intro hsplices other hother
      cases hother
      exact keeps_of_spliced h (happly ▸ hsplices.2)
    · intro hkeeps
      refine ⟨htiled, fun env => ?_⟩
      rw [happly]
      exact spliced_of_keeps h (hkeeps file rfl)

/-- Encrypted partition data that ends a byte behind a block, and a patch of that byte. -/
def blockAndByte : FSTBuilderNode := ⟨0x8001, [⟨0, 0x8001, .partition 0 0⟩]⟩

def lastBytePatch : FilePatch := ⟨some ⟨"/sd/x".toList, 3⟩, 0x8000, 1, 1, false⟩

/-- Encrypted partition data: the blocks up to the decrypted size hold data, shown as 1, those behind
it are the encryption of zeroes, shown as 0. -/
def blocksUpTo : Env where
  fileByte := fun _ _ => some 0
  encryptPartitionData := fun offset _ decrypted =>
    some (if offset / 0x200000 * 0x1F0000 + (offset % 0x200000 / 0x8000 + 1) * 0x7C00 ≤ decrypted then 1
      else 0)
  volumeByte := fun _ _ => none

/-- Two groups of a partition. -/
def twoGroups : FSTBuilderNode := ⟨0x400000, [⟨0, 0x400000, .partition 0 0⟩]⟩

/-- One byte at the start of the second group. -/
def bytePatch : FilePatch := ⟨some ⟨"/sd/x".toList, 1⟩, 0x200000, 0, 0, false⟩

theorem splitFrom_twoGroups : splitFrom 0x200000 0x200001 twoGroups.content =
    [⟨0, 0x200000, .partition 0 0⟩, ⟨0x200000, 1, .partition 0x200000 0⟩,
      ⟨0x200001, 0x1FFFFF, .partition 0x200001 0⟩] := by
  simp [splitFrom, twoGroups, BuilderContentSource.Inside, BuilderContentSource.before,
    BuilderContentSource.after, BuilderContentSource.stop, ContentSource.advance]

end Riivolution
