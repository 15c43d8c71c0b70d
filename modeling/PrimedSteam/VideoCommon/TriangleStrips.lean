import PrimedSteam.Lib.TextLines
import PrimedSteam.VideoCommon.IndexGenerator

/-!
# Strips and lists draw the same triangles

* `plainTriangles`, `restartTriangles`: the triangles that a buffer draws as a list, and as strips
  with a restart marker behind each of them.
* `Drawn`: one triangle for one, with the same winding up to rotation.
* `drawn_flatMap`: the outputs of a loop agree when those of its body do.
* `addQuads_split`, `addList_split`: a draw in two runs.
* **`restart_draws_lists`**: both variants of each triangle primitive draw the same, and so does a
  draw in runs.
-/

set_option autoImplicit false

namespace IndexGenerator

open OpcodeDecoder (Primitive)
open TextLines

abbrev Triangle := ℕ × ℕ × ℕ

/-! ## Triangles -/

/-- The triangles of a triangle list. -/
def listTriangles : List ℕ → List Triangle
  | a :: b :: c :: rest => (a, b, c) :: listTriangles rest
  | _ => []

/-- The triangles of a strip; every other one has its winding swapped. -/
def stripTriangles (swap : Bool) : List ℕ → List Triangle
  | a :: b :: c :: rest =>
    (if swap then (b, a, c) else (a, b, c)) :: stripTriangles (!swap) (b :: c :: rest)
  | _ => []

/-- The triangles of a buffer of strips with a marker behind each of them. -/
def restartTriangles (slots : List Slot) : List Triangle :=
  (getlines primitiveRestart (slots.map Slot.stored)).flatMap (stripTriangles false)

/-- The triangles of a buffer of a list. -/
def plainTriangles (slots : List Slot) : List Triangle := listTriangles (slots.map Slot.stored)

/-- The same vertices in the same winding. -/
def Rotated (s t : Triangle) : Prop :=
  t = s ∨ t = (s.2.1, s.2.2, s.1) ∨ t = (s.2.2, s.1, s.2.1)

/-- Strips with markers draw the triangles of a list. -/
def Drawn (strips list : List Slot) : Prop :=
  List.Forall₂ Rotated (restartTriangles strips) (plainTriangles list)

/-- None of the slots is read as a marker. -/
def NoMarker (slots : List Slot) : Prop := primitiveRestart ∉ slots.map Slot.stored

theorem restartTriangles_append {strip : List Slot} (h : NoMarker strip) (rest : List Slot) :
    restartTriangles (strip ++ .restart :: rest) =
      stripTriangles false (strip.map Slot.stored) ++ restartTriangles rest := by
  rw [restartTriangles, List.map_append, List.map_cons]
  exact (congrArg (·.flatMap (stripTriangles false)) (getlines_append h _)).trans List.flatMap_cons

theorem listTriangles_append {list : List ℕ} (h : 3 ∣ list.length) (rest : List ℕ) :
    listTriangles (list ++ rest) = listTriangles list ++ listTriangles rest := by
  fun_induction listTriangles list with
  | case1 a b c list ih =>
    simp only [List.length_cons] at h
    simp only [List.cons_append, listTriangles]
    rw [ih (by omega)]
  | case2 list hlist =>
    match list, hlist with
    | [], _ => rfl
    | [_], _ => simp at h
    | [_, _], _ => simp at h
    | a :: b :: c :: l, hlist => exact absurd rfl (hlist a b c l)

theorem drawn_nil : Drawn [] [] := List.Forall₂.nil

/-- One strip draws the triangles of a list. -/
def DrawnByStrip (strip list : List Slot) : Prop :=
  List.Forall₂ Rotated (stripTriangles false (strip.map Slot.stored)) (plainTriangles list)

theorem Drawn.append {strip list strips lists : List Slot} (hmarker : NoMarker strip)
    (hlist : 3 ∣ list.length) (hfirst : DrawnByStrip strip list) (hrest : Drawn strips lists) :
    Drawn (strip ++ .restart :: strips) (list ++ lists) := by
  have hlength : 3 ∣ (list.map Slot.stored).length := by rwa [List.length_map]
  rw [Drawn, restartTriangles_append hmarker, plainTriangles, List.map_append,
    listTriangles_append hlength]
  exact List.rel_append hfirst hrest

/-- What the body of a loop writes agrees, so what the loop writes agrees. -/
theorem drawn_flatMap {strip list : ℕ → List Slot} {is : List ℕ} (hmarker : ∀ i ∈ is, NoMarker (strip i))
    (hlist : ∀ i, 3 ∣ (list i).length) (hbody : ∀ i, DrawnByStrip (strip i) (list i))
    {strips lists : List Slot} (hrest : Drawn strips lists) :
    Drawn (is.flatMap (fun i => strip i ++ [.restart]) ++ strips) (is.flatMap list ++ lists) := by
  induction is with
  | nil => exact hrest
  | cons i is ih =>
    rw [List.forall_mem_cons] at hmarker
    simp only [List.flatMap_cons, List.append_assoc, List.singleton_append]
    exact Drawn.append hmarker.1 (hlist i) (hbody i) (ih hmarker.2)

theorem rotated_refl (s : Triangle) : Rotated s s := Or.inl rfl

/-! ## The emitters -/

variable {numVerts index : ℕ}

theorem noMarker_iff {slots : List Slot} : NoMarker slots ↔ ∀ s ∈ slots, s.stored ≠ primitiveRestart := by
  simp [NoMarker]

theorem noMarker_triple {a b c : ℕ} (ha : a < 0xFFFF) (hb : b < 0xFFFF) (hc : c < 0xFFFF) :
    NoMarker [.index a, .index b, .index c] := by
  simp [noMarker_iff, stored_ne_restart, ha, hb, hc]

theorem drawn_triangles {f g h : ℕ → ℕ} {is : List ℕ}
    (hlt : ∀ i ∈ is, f i < 0xFFFF ∧ g i < 0xFFFF ∧ h i < 0xFFFF) :
    Drawn (is.flatMap fun i => writeTriangle true (f i) (g i) (h i))
      (is.flatMap fun i => writeTriangle false (f i) (g i) (h i)) := by
  have hdrawn := @drawn_flatMap (fun i => [.index (f i), .index (g i), .index (h i)])
    (fun i => writeTriangle false (f i) (g i) (h i)) is
    (fun i hi => noMarker_triple (hlt i hi).1 (hlt i hi).2.1 (hlt i hi).2.2)
    (fun i => Nat.dvd_refl 3)
    (fun i => List.Forall₂.cons (rotated_refl _) List.Forall₂.nil) [] [] drawn_nil
  rwa [List.append_nil, List.append_nil] at hdrawn

theorem drawn_addList (h : index + numVerts ≤ 0xFFFF) :
    Drawn (addList true numVerts index) (addList false numVerts index) := by
  refine drawn_triangles fun i hi => ?_
  have hbounds := mem_loopValues hi
  omega

/-- The strip from one index on, and the triangles that end at the indices behind it. -/
theorem stripTriangles_addStripFrom (index m i : ℕ) (wind : Bool) :
    List.Forall₂ Rotated
      (stripTriangles wind ((List.range' i (m + 2)).map fun i => (Slot.index (index + i)).stored))
      (plainTriangles (addStripFrom index wind (List.range' (i + 2) m))) := by
  induction m generalizing i wind with
  | zero => exact List.Forall₂.nil
  | succ m ih =>
    have ih := ih (i + 1) (!wind)
    have hcons : (List.range' i (m + 1 + 2)).map (fun i => (Slot.index (index + i)).stored) =
        (Slot.index (index + i)).stored :: (Slot.index (index + (i + 1))).stored ::
          (Slot.index (index + (i + 2))).stored ::
          (List.range' (i + 3) m).map fun i => (Slot.index (index + i)).stored := rfl
    have htail : (List.range' (i + 1) (m + 2)).map (fun i => (Slot.index (index + i)).stored) =
        (Slot.index (index + (i + 1))).stored :: (Slot.index (index + (i + 2))).stored ::
          (List.range' (i + 3) m).map fun i => (Slot.index (index + i)).stored := rfl
    have hlist : plainTriangles (addStripFrom index wind (List.range' (i + 2) (m + 1))) =
        ((Slot.index (index + (i + 2) - 2)).stored, (Slot.index (index + (i + 2) - (!wind).toNat)).stored,
          (Slot.index (index + (i + 2) - wind.toNat)).stored) ::
          plainTriangles (addStripFrom index (!wind) (List.range' (i + 1 + 2) m)) := rfl
    rw [htail] at ih
    rw [hcons, hlist, stripTriangles]
    refine List.Forall₂.cons ?_ ih
    have hfirst : index + (i + 2) - 2 = index + i := by omega
    have hsecond : index + (i + 2) - 1 = index + (i + 1) := by omega
    cases wind
    · exact Or.inl (by simp [hfirst, hsecond])
    · -- an odd triangle: `(b, a, c)` of the strip is `(a, c, b)` of the list
      exact Or.inr (Or.inl (by simp [hfirst, hsecond]))

theorem drawn_addStrip (h : index + numVerts ≤ 0xFFFF) :
    Drawn (addStrip true numVerts index) (addStrip false numVerts index) := by
  have hmarker : NoMarker ((loopValues 0 1 numVerts).map fun i => .index (index + i)) := by
    rw [noMarker_iff]
    intro s hs
    obtain ⟨i, hi, rfl⟩ := List.mem_map.mp hs
    have hbounds := mem_loopValues hi
    exact stored_ne_restart (by omega)
  have htriangles : DrawnByStrip ((loopValues 0 1 numVerts).map fun i => .index (index + i))
      (addStripFrom index false (loopValues 2 1 numVerts)) := by
    rw [DrawnByStrip, loopValues, loopValues, loopCount_one, loopCount_one, Nat.sub_zero, List.map_map]
    rcases Nat.lt_or_ge numVerts 2 with hsmall | hlarge
    · obtain rfl | rfl : numVerts = 0 ∨ numVerts = 1 := by omega
      · exact List.Forall₂.nil
      · exact List.Forall₂.nil
    · obtain ⟨m, rfl⟩ := Nat.exists_eq_add_of_le' hlarge
      exact stripTriangles_addStripFrom index m 0 false
  have hstrip := restartTriangles_append hmarker []
  rw [show restartTriangles [] = [] from rfl, List.append_nil] at hstrip
  have hpr : addStrip true numVerts index =
      (loopValues 0 1 numVerts).map (fun i => Slot.index (index + i)) ++ [.restart] := rfl
  rw [Drawn, hpr, hstrip]
  exact htriangles

/-! ## Fans -/

theorem range'_groups (i count step : ℕ) :
    (List.range' i count step).flatMap (fun i => List.range' i step) = List.range' i (count * step) := by
  induction count generalizing i with
  | zero => rw [Nat.zero_mul]; rfl
  | succ count ih =>
    rw [List.range'_succ, List.flatMap_cons, ih, List.range'_append_1, Nat.succ_mul, Nat.add_comm]

/-- The triangle of a fan that ends at `i`. -/
def fanTriangle (index i : ℕ) : List Slot := writeTriangle false index (index + i - 1) (index + i)

/-- The loop over single triangles is the loops of the strips one after the other. -/
theorem addFan_eq_groups (numVerts index : ℕ) :
    addFan false numVerts index =
      (loopValues 2 3 (numVerts - 2)).flatMap
          (fun i => fanTriangle index i ++ fanTriangle index (i + 1) ++ fanTriangle index (i + 2)) ++
        ((loopValues (loopEnd 2 3 (numVerts - 2)) 2 (numVerts - 1)).flatMap
            (fun i => fanTriangle index i ++ fanTriangle index (i + 1)) ++
          (loopValues (loopEnd (loopEnd 2 3 (numVerts - 2)) 2 (numVerts - 1)) 1 numVerts).flatMap
            (fanTriangle index)) := by
  have hthree : ∀ i, fanTriangle index i ++ fanTriangle index (i + 1) ++ fanTriangle index (i + 2) =
      (List.range' i 3).flatMap (fanTriangle index) := fun _ => rfl
  have htwo : ∀ i, fanTriangle index i ++ fanTriangle index (i + 1) =
      (List.range' i 2).flatMap (fanTriangle index) := fun _ => rfl
  have hall : loopValues 2 1 numVerts =
      (loopValues 2 3 (numVerts - 2)).flatMap (fun i => List.range' i 3) ++
        ((loopValues (loopEnd 2 3 (numVerts - 2)) 2 (numVerts - 1)).flatMap (fun i => List.range' i 2) ++
          loopValues (loopEnd (loopEnd 2 3 (numVerts - 2)) 2 (numVerts - 1)) 1 numVerts) := by
    simp only [loopValues, range'_groups, loopEnd, loopCount_one]
    simp only [Nat.mul_comm 3, Nat.mul_comm 2]
    rw [List.range'_append_1, List.range'_append_1]
    congr 1
    simp only [loopCount]
    omega
  simp only [hthree]
  simp only [htwo, ← List.flatMap_assoc, ← List.flatMap_append, ← hall]
  rfl

theorem fanOfThree_triangles (index i : ℕ) :
    DrawnByStrip (fanOfThree index i)
      (fanTriangle index i ++ fanTriangle index (i + 1) ++ fanTriangle index (i + 2)) :=
  List.Forall₂.cons (Or.inr (Or.inr rfl))
    (List.Forall₂.cons (rotated_refl _) (List.Forall₂.cons (rotated_refl _) List.Forall₂.nil))

theorem fanOfTwo_triangles (index i : ℕ) :
    DrawnByStrip (fanOfTwo index i) (fanTriangle index i ++ fanTriangle index (i + 1)) :=
  List.Forall₂.cons (Or.inr (Or.inr rfl)) (List.Forall₂.cons (rotated_refl _) List.Forall₂.nil)

theorem drawn_addFan (h : index + numVerts ≤ 0xFFFF) :
    Drawn (addFan true numVerts index) (addFan false numVerts index) := by
  rw [addFan_eq_groups]
  refine drawn_flatMap (fun i hi => ?_) (fun i => by simp [fanTriangle, writeTriangle]) (fanOfThree_triangles index)
    (drawn_flatMap (fun i hi => ?_) (fun i => by simp [fanTriangle, writeTriangle]) (fanOfTwo_triangles index)
      (drawn_triangles fun i hi => ?_))
  · have hbounds := mem_loopValues hi
    rw [noMarker_iff, fanOfThree]
    simp only [List.forall_mem_cons]
    exact ⟨stored_ne_restart (by omega), stored_ne_restart (by omega), stored_ne_restart (by omega),
      stored_ne_restart (by omega), stored_ne_restart (by omega), by simp⟩
  · have hbounds := mem_loopValues hi
    rw [noMarker_iff, fanOfTwo]
    simp only [List.forall_mem_cons]
    exact ⟨stored_ne_restart (by omega), stored_ne_restart (by omega), stored_ne_restart (by omega),
      stored_ne_restart (by omega), by simp⟩
  · have hbounds := mem_loopValues hi
    omega

/-! ## Quads -/

/-- One quad as a strip. -/
def quadStrip (index i : ℕ) : List Slot :=
  [.index (index + i - 2), .index (index + i - 1), .index (index + i - 3), .index (index + i)]

theorem quadStrip_triangles (index i : ℕ) : DrawnByStrip (quadStrip index i) (addQuad false index i) :=
  List.Forall₂.cons (Or.inr (Or.inr rfl)) (List.Forall₂.cons (rotated_refl _) List.Forall₂.nil)

theorem drawn_addQuads (h : index + numVerts ≤ 0xFFFF) :
    Drawn (addQuads true numVerts index) (addQuads false numVerts index) := by
  have hrest : Drawn
      (if loopEnd 3 4 numVerts = numVerts then
        writeTriangle true (index + numVerts - 3) (index + numVerts - 2) (index + numVerts - 1) else [])
      (if loopEnd 3 4 numVerts = numVerts then
        writeTriangle false (index + numVerts - 3) (index + numVerts - 2) (index + numVerts - 1) else []) := by
    split
    · next hend =>
      have hpos : 3 ≤ numVerts := by
        rw [loopEnd] at hend
        omega
      have hsingle := @drawn_triangles (fun _ => index + numVerts - 3) (fun _ => index + numVerts - 2)
        (fun _ => index + numVerts - 1) [0] (fun _ _ => ⟨by omega, by omega, by omega⟩)
      simpa using hsingle
    · exact drawn_nil
  refine @drawn_flatMap (quadStrip index) (addQuad false index) _ (fun i hi => ?_)
    (fun i => by simp [addQuad, writeTriangle]) (quadStrip_triangles index) _ _ hrest
  have hbounds := mem_loopValues hi
  rw [noMarker_iff, quadStrip]
  simp only [List.forall_mem_cons]
  exact ⟨stored_ne_restart (by omega), stored_ne_restart (by omega), stored_ne_restart (by omega),
    stored_ne_restart (by omega), by simp⟩

/-! ## Runs -/

theorem loopCount_add {i step : ℕ} (hi : i < step) (k b : ℕ) :
    loopCount i step (step * k + b) = k + loopCount i step b := by
  rw [loopCount, loopCount]
  rcases Nat.eq_zero_or_pos k with rfl | hk
  · rw [Nat.mul_zero, Nat.zero_add, Nat.zero_add]
  have hle : step ≤ step * k := Nat.le_mul_of_pos_right step hk
  have hsplit : step * k + b - i + step - 1 = step * k + (b + step - 1 - i) := by omega
  rw [hsplit, Nat.mul_add_div (by omega)]
  rcases Nat.lt_or_ge b i with hb | hb
  · rw [Nat.div_eq_of_lt (by omega), Nat.div_eq_of_lt (by omega)]
  · rw [show b + step - 1 - i = b - i + step - 1 by omega]

theorem loopEnd_add {i step : ℕ} (hi : i < step) (k b : ℕ) :
    loopEnd i step (step * k + b) = step * k + loopEnd i step b := by
  rw [loopEnd, loopEnd, loopCount_add hi, Nat.mul_add, Nat.add_left_comm]

/-- A loop up to a sum is two loops, where the first bound is a multiple of the step. -/
theorem loopValues_add {i step : ℕ} (hi : i < step) (k b : ℕ) :
    loopValues i step (step * k + b) =
      loopValues i step (step * k) ++ (loopValues i step b).map (step * k + ·) := by
  have hfirst : loopCount i step (step * k) = k := by
    have hadd := loopCount_add hi k 0
    have hzero : loopCount i step 0 = 0 := by
      rw [loopCount]
      exact Nat.div_eq_of_lt (by omega)
    rwa [hzero] at hadd
  rw [loopValues, loopValues, loopValues, hfirst, loopCount_add hi, List.map_add_range',
    ← List.range'_append, Nat.add_comm i]

theorem addList_split (pr : Bool) (k b index : ℕ) :
    addList pr (3 * k + b) index = addList pr (3 * k) index ++ addList pr b (index + 3 * k) := by
  rw [addList, addList, addList, loopValues_add (by omega), List.flatMap_append, List.flatMap_map]
  simp only [Nat.add_assoc]

theorem addQuads_split (pr : Bool) (k b index : ℕ) :
    addQuads pr (4 * k + b) index = addQuads pr (4 * k) index ++ addQuads pr b (index + 4 * k) := by
  have hnone : loopEnd 3 4 (4 * k) ≠ 4 * k := by
    rw [loopEnd]
    omega
  have hquad : ∀ i, addQuad pr index (4 * k + i) = addQuad pr (index + 4 * k) i := by
    intro i
    simp only [addQuad, Nat.add_assoc]
  rw [addQuads, addQuads, addQuads, loopValues_add (by omega), loopEnd_add (by omega), if_neg hnone,
    List.append_nil, List.flatMap_append, List.flatMap_map, List.append_assoc]
  simp only [hquad, Nat.add_right_inj, ← Nat.add_assoc]

/-- Quads and triangles, the primitives that a run of `maxVertices` does not cut. -/
def isQuadsOrTriangles : Primitive → Bool
  | .drawQuads | .drawQuads2 | .drawTriangles => true
  | _ => false

variable (config : Config)

theorem addIndices_split {primitive : Primitive} (hp : isQuadsOrTriangles primitive = true)
    (g : Generator) (b : ℕ) :
    (g.addIndices config primitive maxVertices).addIndices config primitive b =
      g.addIndices config primitive (maxVertices + b) := by
  have htriangles := addList_split config.primitiveRestart 5460 b g.baseIndex
  have hquads := addQuads_split config.primitiveRestart 4095 b g.baseIndex
  have hsplit : indicesOf config primitive (maxVertices + b) g.baseIndex =
      indicesOf config primitive maxVertices g.baseIndex ++
        indicesOf config primitive b (g.baseIndex + maxVertices) := by
    cases primitive <;> first | exact htriangles | exact hquads | cases hp
  rw [Generator.addIndices, Generator.addIndices, Generator.addIndices, hsplit, List.append_assoc,
    Nat.add_assoc]

theorem foldl_runs {primitive : Primitive} (hp : isQuadsOrTriangles primitive = true) (count : ℕ)
    (g : Generator) :
    (runs primitive count).foldl (fun g run => g.addIndices config primitive run) g =
      g.addIndices config primitive count := by
  fun_induction runs primitive count generalizing g with
  | case1 count hlarge ih =>
    rw [List.foldl_cons, ih, addIndices_split config hp, Nat.add_sub_cancel' hlarge.2.le]
  | case2 count _ => rfl

/-- **Strips and lists.** For each triangle primitive the strips with restart markers draw the
triangles of the list, and a draw of quads or triangles in runs writes what one draw writes. -/
theorem restart_draws_lists :
    (∀ (primitive : Primitive) (vsExpand : Bool) (numVerts index : ℕ),
      isLineOrPoint primitive = false → index + numVerts ≤ 0xFFFF →
        List.Forall₂ Rotated
          (restartTriangles (indicesOf ⟨true, vsExpand⟩ primitive numVerts index))
          (plainTriangles (indicesOf ⟨false, vsExpand⟩ primitive numVerts index))) ∧
    ∀ (config : Config) (g : Generator) (primitive : Primitive) (count : ℕ),
      isQuadsOrTriangles primitive = true → 0 < count →
        g.runVertices config primitive count = g.addIndices config primitive count := by
  constructor
  · intro primitive vsExpand numVerts index hp h
    cases primitive with
    | drawQuads => exact drawn_addQuads h
    | drawQuads2 => exact drawn_addQuads h
    | drawTriangles => exact drawn_addList h
    | drawTriangleStrip => exact drawn_addStrip h
    | drawTriangleFan => exact drawn_addFan h
    | drawLines => cases hp
    | drawLineStrip => cases hp
    | drawPoints => cases hp
  · intro config g primitive count hp hcount
    rw [Generator.runVertices, if_neg (by omega)]
    exact foldl_runs config hp count g

/-- Seven vertices of quads, and a draw of triangles that is split. -/
theorem restart_draws_lists_seven :
    List.Forall₂ Rotated (restartTriangles (indicesOf ⟨true, false⟩ .drawQuads 7 0))
        (plainTriangles (indicesOf ⟨false, false⟩ .drawQuads 7 0)) ∧
      Generator.start.runVertices ⟨true, false⟩ .drawTriangles 20000 =
        Generator.start.addIndices ⟨true, false⟩ .drawTriangles 20000 :=
  ⟨restart_draws_lists.1 .drawQuads false 7 0 rfl (by decide),
    restart_draws_lists.2 ⟨true, false⟩ .start .drawTriangles 20000 rfl (by decide)⟩

example : restartTriangles (indicesOf ⟨true, false⟩ .drawTriangleFan 5 0) =
    [(1, 2, 0), (0, 2, 3), (0, 3, 4)] := by decide

end IndexGenerator
