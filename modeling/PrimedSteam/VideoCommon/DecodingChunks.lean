import PrimedSteam.VideoCommon.OpcodeDecoding

/-!
# The decoder does not depend on the chunks

* `decode_total`: no byte behind the end is read, and a command is not longer than the buffer.
* `decode_append`: a command that is complete does not depend on what follows.
* `Merges`: calls that are the same up to the splitting of `OnNop`.
* `run_append`: a run over a buffer can be interrupted.
-/

set_option autoImplicit false

namespace OpcodeDecoder

/-! ## Reads -/

section Reads

variable {data : List Byte} {i : ℕ}

theorem getElem?_total (h : i < data.length) : ∃ a, data[i]? = some a :=
  ⟨data[i], List.getElem?_eq_getElem h⟩

theorem getElem?_append {a : Byte} (e : List Byte) (h : data[i]? = some a) :
    (data ++ e)[i]? = some a := by
  obtain ⟨hi, -⟩ := List.getElem?_eq_some_iff.mp h
  rw [List.getElem?_append_left hi]
  exact h

theorem swap16_total (h : i + 2 ≤ data.length) : ∃ v, swap16 data i = some v := by
  obtain ⟨a, ha⟩ := getElem?_total (show i < data.length by omega)
  obtain ⟨b, hb⟩ := getElem?_total (show i + 1 < data.length by omega)
  exact ⟨a ++ b, by simp [swap16, ha, hb]⟩

theorem swap16_append {v : BitVec 16} (e : List Byte) (h : swap16 data i = some v) :
    swap16 (data ++ e) i = some v := by
  simp only [swap16, Option.bind_eq_bind, Option.bind_eq_some_iff] at h
  obtain ⟨a, ha, b, hb, h⟩ := h
  simpa [swap16, getElem?_append e ha, getElem?_append e hb] using h

theorem swap24_total (h : i + 3 ≤ data.length) : ∃ v, swap24 data i = some v := by
  obtain ⟨a, ha⟩ := getElem?_total (show i < data.length by omega)
  obtain ⟨b, hb⟩ := getElem?_total (show i + 1 < data.length by omega)
  obtain ⟨c, hc⟩ := getElem?_total (show i + 2 < data.length by omega)
  exact ⟨(a ++ b ++ c).setWidth 32, by simp [swap24, ha, hb, hc]⟩

theorem swap24_append {v : Word} (e : List Byte) (h : swap24 data i = some v) :
    swap24 (data ++ e) i = some v := by
  simp only [swap24, Option.bind_eq_bind, Option.bind_eq_some_iff] at h
  obtain ⟨a, ha, b, hb, c, hc, h⟩ := h
  simpa [swap24, getElem?_append e ha, getElem?_append e hb, getElem?_append e hc] using h

theorem swap32_total (h : i + 4 ≤ data.length) : ∃ v, swap32 data i = some v := by
  obtain ⟨a, ha⟩ := getElem?_total (show i < data.length by omega)
  obtain ⟨b, hb⟩ := getElem?_total (show i + 1 < data.length by omega)
  obtain ⟨c, hc⟩ := getElem?_total (show i + 2 < data.length by omega)
  obtain ⟨d, hd⟩ := getElem?_total (show i + 3 < data.length by omega)
  exact ⟨a ++ b ++ c ++ d, by simp [swap32, ha, hb, hc, hd]⟩

theorem swap32_append {v : Word} (e : List Byte) (h : swap32 data i = some v) :
    swap32 (data ++ e) i = some v := by
  simp only [swap32, Option.bind_eq_bind, Option.bind_eq_some_iff] at h
  obtain ⟨a, ha, b, hb, c, hc, d, hd, h⟩ := h
  simpa [swap32, getElem?_append e ha, getElem?_append e hb, getElem?_append e hc,
    getElem?_append e hd] using h

theorem bytes_total {n : ℕ} (h : i + n ≤ data.length) : ∃ v, bytes data i n = some v :=
  ⟨_, if_pos h⟩

theorem bytes_append {n : ℕ} {v : List Byte} (e : List Byte) (h : bytes data i n = some v) :
    bytes (data ++ e) i n = some v := by
  simp only [bytes, Option.ite_none_right_eq_some] at h ⊢
  obtain ⟨hle, h⟩ := h
  rw [← h]
  refine ⟨?_, ?_⟩
  · rw [List.length_append]
    omega
  · rw [List.drop_append_of_le_length (by omega), List.take_append_of_le_length]
    rw [List.length_drop]
    omega

end Reads

/-! ## Commands -/

section Commands

variable {cp : CPState} {cmd : Byte} {data : List Byte} {call : Call} {size : ℕ}

/-- Nothing behind the end was read, and a command that is complete is not longer than the buffer. -/
def WithinBounds (data : List Byte) (r : Option Decoded) : Prop :=
  ∃ d, r = some d ∧ ∀ call size, d = some (call, size) → 0 < size ∧ size ≤ data.length

theorem WithinBounds.incomplete : WithinBounds data (some none) :=
  ⟨none, rfl, fun _ _ h => by simp at h⟩

theorem WithinBounds.complete (hpos : 0 < size) (hle : size ≤ data.length) :
    WithinBounds data (some (some (call, size))) := by
  refine ⟨_, rfl, fun call' size' h => ?_⟩
  cases h
  exact ⟨hpos, hle⟩

theorem decodeNop_total (cmd : Byte) (rest : List Byte) :
    WithinBounds (cmd :: rest) (decodeNop rest) := by
  refine .complete (by omega) ?_
  have hle := (List.takeWhile_prefix (l := rest) (· == (0 : Byte))).length_le
  rw [List.length_cons]
  omega

theorem decodeCP_total (data : List Byte) : WithinBounds data (decodeCP data) := by
  unfold decodeCP
  split
  · exact .incomplete
  · rename_i hlen
    obtain ⟨cmd2, hcmd2⟩ := getElem?_total (show 1 < data.length by omega)
    obtain ⟨value, hvalue⟩ := swap32_total (show 2 + 4 ≤ data.length by omega)
    simp only [hcmd2, hvalue]
    exact .complete (by omega) (by omega)

theorem decodeXF_total (data : List Byte) : WithinBounds data (decodeXF data) := by
  unfold decodeXF
  split
  · exact .incomplete
  · rename_i hlen
    obtain ⟨cmd2, hcmd2⟩ := swap32_total (show 1 + 4 ≤ data.length by omega)
    simp only [hcmd2, Option.bind_eq_bind, Option.bind_some]
    split
    · exact .incomplete
    · rename_i hstream
      obtain ⟨stream, hbytes⟩ := bytes_total (Nat.not_lt.mp hstream)
      simp only [hbytes]
      exact .complete (by omega) (by omega)

theorem decodeIndexedLoad_total (cmd : Byte) (data : List Byte) :
    WithinBounds data (decodeIndexedLoad cmd data) := by
  unfold decodeIndexedLoad
  split
  · exact .incomplete
  · rename_i hlen
    obtain ⟨value, hvalue⟩ := swap32_total (show 1 + 4 ≤ data.length by omega)
    simp only [hvalue]
    exact .complete (by omega) (by omega)

theorem decodeDisplayList_total (data : List Byte) :
    WithinBounds data (decodeDisplayList data) := by
  unfold decodeDisplayList
  split
  · exact .incomplete
  · rename_i hlen
    obtain ⟨address, haddress⟩ := swap32_total (show 1 + 4 ≤ data.length by omega)
    obtain ⟨size, hsize⟩ := swap32_total (show 5 + 4 ≤ data.length by omega)
    simp only [haddress, hsize]
    exact .complete (by omega) (by omega)

theorem decodeBP_total (data : List Byte) : WithinBounds data (decodeBP data) := by
  unfold decodeBP
  split
  · exact .incomplete
  · rename_i hlen
    obtain ⟨cmd2, hcmd2⟩ := getElem?_total (show 1 < data.length by omega)
    obtain ⟨value, hvalue⟩ := swap24_total (show 2 + 3 ≤ data.length by omega)
    simp only [hcmd2, hvalue]
    exact .complete (by omega) (by omega)

theorem primitiveSize_eq (cp : CPState) (vat : BitVec 3) (numVertices : BitVec 16) :
    (3 + numVertices.toNat * cp.vertexSize vat) % 2 ^ 32 =
      3 + numVertices.toNat * cp.vertexSize vat := by
  have hvertices := Nat.mul_le_mul numVertices.isLt.le (cp.vertexSize_le vat)
  exact Nat.mod_eq_of_lt (by omega)

theorem decodePrimitive_total (cp : CPState) (cmd : Byte) (data : List Byte) :
    WithinBounds data (decodePrimitive cp cmd data) := by
  unfold decodePrimitive
  split
  · exact .incomplete
  · rename_i hlen
    obtain ⟨numVertices, hvertices⟩ := swap16_total (show 1 + 2 ≤ data.length by omega)
    simp only [hvertices, Option.bind_eq_bind, Option.bind_some, primitiveSize_eq]
    split
    · exact .incomplete
    · rename_i hsize
      obtain ⟨vertexData, hbytes⟩ := bytes_total (Nat.not_lt.mp hsize)
      simp only [hbytes]
      exact .complete (by omega) (by omega)

/-- **No byte behind the end is read**, and a command is not longer than the buffer. -/
theorem decode_total (cp : CPState) (data : List Byte) : WithinBounds data (decode cp data) := by
  cases data with
  | nil => exact .incomplete
  | cons cmd rest =>
    simp only [decode]
    split_ifs
    · exact decodeNop_total cmd rest
    · exact decodeCP_total _
    · exact decodeXF_total _
    · exact decodeIndexedLoad_total _ _
    · exact decodeDisplayList_total _
    · exact decodeBP_total _
    · exact decodePrimitive_total _ _ _
    · exact .complete (by omega) (by simp)

theorem decodeCP_append {d : Call × ℕ} (e : List Byte) (h : decodeCP data = some (some d)) :
    decodeCP (data ++ e) = some (some d) := by
  simp only [decodeCP] at h ⊢
  split at h
  · cases h
  · rename_i hlen
    simp only [Option.bind_eq_bind, Option.bind_eq_some_iff] at h
    obtain ⟨cmd2, hcmd2, value, hvalue, h⟩ := h
    rw [if_neg (by rw [List.length_append]; omega)]
    simpa [getElem?_append e hcmd2, swap32_append e hvalue] using h

theorem decodeXF_append {d : Call × ℕ} (e : List Byte) (h : decodeXF data = some (some d)) :
    decodeXF (data ++ e) = some (some d) := by
  simp only [decodeXF] at h ⊢
  split at h
  · cases h
  · rename_i hlen
    simp only [Option.bind_eq_bind, Option.bind_eq_some_iff] at h
    obtain ⟨cmd2, hcmd2, h⟩ := h
    split at h
    · cases h
    · rename_i hstream
      obtain ⟨stream, hbytes, h⟩ := Option.bind_eq_some_iff.mp h
      rw [if_neg (by rw [List.length_append]; omega)]
      simp only [swap32_append e hcmd2, Option.bind_eq_bind, Option.bind_some]
      rw [if_neg (by rw [List.length_append]; omega), bytes_append e hbytes]
      exact h

theorem decodeIndexedLoad_append {d : Call × ℕ} (e : List Byte)
    (h : decodeIndexedLoad cmd data = some (some d)) :
    decodeIndexedLoad cmd (data ++ e) = some (some d) := by
  simp only [decodeIndexedLoad] at h ⊢
  split at h
  · cases h
  · rename_i hlen
    simp only [Option.bind_eq_bind, Option.bind_eq_some_iff] at h
    obtain ⟨value, hvalue, h⟩ := h
    rw [if_neg (by rw [List.length_append]; omega)]
    simpa [swap32_append e hvalue] using h

theorem decodeDisplayList_append {d : Call × ℕ} (e : List Byte)
    (h : decodeDisplayList data = some (some d)) :
    decodeDisplayList (data ++ e) = some (some d) := by
  simp only [decodeDisplayList] at h ⊢
  split at h
  · cases h
  · rename_i hlen
    simp only [Option.bind_eq_bind, Option.bind_eq_some_iff] at h
    obtain ⟨address, haddress, size, hsize, h⟩ := h
    rw [if_neg (by rw [List.length_append]; omega)]
    simpa [swap32_append e haddress, swap32_append e hsize] using h

theorem decodeBP_append {d : Call × ℕ} (e : List Byte) (h : decodeBP data = some (some d)) :
    decodeBP (data ++ e) = some (some d) := by
  simp only [decodeBP] at h ⊢
  split at h
  · cases h
  · rename_i hlen
    simp only [Option.bind_eq_bind, Option.bind_eq_some_iff] at h
    obtain ⟨cmd2, hcmd2, value, hvalue, h⟩ := h
    rw [if_neg (by rw [List.length_append]; omega)]
    simpa [getElem?_append e hcmd2, swap24_append e hvalue] using h

theorem decodePrimitive_append {d : Call × ℕ} (e : List Byte)
    (h : decodePrimitive cp cmd data = some (some d)) :
    decodePrimitive cp cmd (data ++ e) = some (some d) := by
  simp only [decodePrimitive] at h ⊢
  split at h
  · cases h
  · rename_i hlen
    simp only [Option.bind_eq_bind, Option.bind_eq_some_iff] at h
    obtain ⟨numVertices, hvertices, h⟩ := h
    split at h
    · cases h
    · rename_i hsize
      obtain ⟨vertexData, hbytes, h⟩ := Option.bind_eq_some_iff.mp h
      rw [if_neg (by rw [List.length_append]; omega)]
      simp only [swap16_append e hvertices, Option.bind_eq_bind, Option.bind_some]
      rw [if_neg (by rw [List.length_append]; omega)]
      simpa [bytes_append e hbytes] using h

/-- **A command that is complete does not depend on what follows**, unless it is `GX_NOP`. -/
theorem decode_append {d : Call × ℕ} {rest : List Byte} (e : List Byte) (hcmd : cmd ≠ 0)
    (h : decode cp (cmd :: rest) = some (some d)) :
    decode cp (cmd :: rest ++ e) = some (some d) := by
  simp only [List.cons_append, decode, if_neg hcmd] at h ⊢
  simp only [← List.cons_append]
  split_ifs at h ⊢
  · exact decodeCP_append e h
  · exact decodeXF_append e h
  · exact decodeIndexedLoad_append e h
  · exact decodeDisplayList_append e h
  · exact decodeBP_append e h
  · exact decodePrimitive_append e h
  · exact h

theorem decode_nop (cp : CPState) (rest : List Byte) :
    decode cp (0 :: rest) = some (some (.onNop (1 + (rest.takeWhile (· == 0)).length),
      1 + (rest.takeWhile (· == 0)).length)) := by
  simp [decode, decodeNop]

/-- A count of `GX_NOP` that fills the buffer goes on behind it. -/
theorem decode_nops (cp : CPState) {rest : List Byte} (e : List Byte)
    (hall : (rest.takeWhile (· == 0)).length = rest.length) :
    decode cp (0 :: rest ++ 0 :: e) = some (some
      (.onNop (rest.length + 1 + (1 + (e.takeWhile (· == 0)).length)),
        rest.length + 1 + (1 + (e.takeWhile (· == 0)).length))) := by
  have hcount : 1 + ((rest ++ 0 :: e).takeWhile (· == 0)).length =
      rest.length + 1 + (1 + (e.takeWhile (· == 0)).length) := by
    rw [List.takeWhile_append, if_pos hall, List.length_append, List.takeWhile_cons]
    simp only [beq_self_eq_true, if_true, List.length_cons]
    omega
  rw [List.cons_append, decode_nop, hcount]

theorem decode_append_ne {d : Call × ℕ} {e : List Byte} (h : decode cp data = some (some d))
    (hne : decode cp (data ++ e) ≠ some (some d)) :
    ∃ rest e', data = 0 :: rest ∧ e = 0 :: e' ∧
      (rest.takeWhile (· == 0)).length = rest.length := by
  cases data with
  | nil => cases h
  | cons cmd rest =>
    by_cases hcmd : cmd = 0
    · subst hcmd
      have hcount : ((rest ++ e).takeWhile (· == 0)).length ≠ (rest.takeWhile (· == 0)).length := by
        intro hcount
        rw [List.cons_append, decode_nop, hcount, ← decode_nop] at hne
        exact hne h
      rw [List.takeWhile_append] at hcount
      split at hcount
      · rename_i hall
        cases e with
        | nil =>
          rw [List.takeWhile_nil, List.append_nil, hall] at hcount
          exact absurd rfl hcount
        | cons b e' =>
          by_cases hb : b = 0
          · exact ⟨rest, e', rfl, by rw [hb], hall⟩
          · rw [List.takeWhile_cons, if_neg (by simpa using hb), List.append_nil, hall] at hcount
            exact absurd rfl hcount
      · exact absurd rfl hcount
    · exact absurd (decode_append e hcmd h) hne

end Commands

/-! ## Calls that are split -/

/-- The calls are the same, wherever they are made, once adjacent counts of `onNop` are merged. -/
def Merges (xs ys : List Call) : Prop :=
  ∀ before after, mergeNops (before ++ xs ++ after) = mergeNops (before ++ ys ++ after)

namespace Merges

variable {xs ys zs : List Call}

theorem refl (xs : List Call) : Merges xs xs := fun _ _ => rfl

theorem trans (h : Merges xs ys) (h' : Merges ys zs) : Merges xs zs :=
  fun before after => (h before after).trans (h' before after)

theorem append_left (h : Merges xs ys) (l : List Call) : Merges (l ++ xs) (l ++ ys) :=
  fun before after => by simpa using h (before ++ l) after

theorem append_right (h : Merges xs ys) (l : List Call) : Merges (xs ++ l) (ys ++ l) :=
  fun before after => by simpa using h before (l ++ after)

theorem mergeNops_eq (h : Merges xs ys) : mergeNops xs = mergeNops ys := by simpa using h [] []

end Merges

theorem mergeNops_cons_nop (call : Call) (n : ℕ) (calls : List Call) :
    mergeNops (call :: .onNop n :: calls) = call :: mergeNops (.onNop n :: calls) := by
  cases call <;> simp [mergeNops]

/-- What is merged before a count of `onNop` is the same for the same rest. -/
theorem mergeNops_append {n n' : ℕ} {xs ys : List Call}
    (h : mergeNops (.onNop n :: xs) = mergeNops (.onNop n' :: ys)) : ∀ before : List Call,
    mergeNops (before ++ .onNop n :: xs) = mergeNops (before ++ .onNop n' :: ys)
  | [] => h
  | [call] => by
    rw [List.singleton_append, List.singleton_append, mergeNops_cons_nop, mergeNops_cons_nop, h]
  | call :: call' :: before => by
    have hrest := mergeNops_append h before
    have hcons := mergeNops_append h (call' :: before)
    simp only [List.cons_append] at hcons ⊢
    by_cases hpair : ∃ k data, call = .onNop k ∧ call' = .onCommand data
    · obtain ⟨k, data, rfl, rfl⟩ := hpair
      simp only [mergeNops, hrest]
    · have hskip : ∀ calls, mergeNops (call :: call' :: calls) =
          call :: mergeNops (call' :: calls) := by
        intro calls
        rw [mergeNops]
        rintro k data calls' rfl hcalls
        cases hcalls
        exact hpair ⟨k, data, rfl, rfl⟩
      rw [hskip, hskip, hcons]

theorem mergeNop_mergeNop (n n' : ℕ) (data data' : List Byte) (calls : List Call) :
    mergeNop n data (mergeNop n' data' calls) = mergeNop (n + n') (data ++ data') calls := by
  by_cases hnop : ∃ k data calls', calls = .onNop k :: .onCommand data :: calls'
  · obtain ⟨k, data'', calls', rfl⟩ := hnop
    simp only [mergeNop, Nat.add_assoc, List.append_assoc]
  · have hskip : ∀ n data, mergeNop n data calls = .onNop n :: .onCommand data :: calls := by
      intro n data
      rw [mergeNop]
      intro k data calls' hcalls
      exact hnop ⟨k, data, calls', hcalls⟩
    rw [hskip, hskip, mergeNop]

/-- **Two counts of `onNop` merge into one.** -/
theorem Merges.nop (n n' : ℕ) (data data' : List Byte) :
    Merges [.onNop n, .onCommand data, .onNop n', .onCommand data']
      [.onNop (n + n'), .onCommand (data ++ data')] := by
  intro before after
  simp only [List.append_assoc, List.cons_append, List.nil_append]
  refine mergeNops_append ?_ before
  simp only [mergeNops, mergeNop_mergeNop]

/-! ## Runs -/

section Runs

variable {isWii : Bool} {displayLists : DisplayLists}

/-- Display lists are run without a read behind their end. -/
def Total (displayLists : DisplayLists) : Prop :=
  ∀ cp address size, ∃ r, displayLists cp address size = some r

variable (isWii) in
theorem perform_total (htotal : Total displayLists) (cp : CPState) (call : Call) :
    ∃ r, perform isWii displayLists cp call = some r := by
  unfold perform
  split
  · exact ⟨_, rfl⟩
  · exact htotal _ _ _
  · exact ⟨_, rfl⟩

theorem run_nil (cp : CPState) : run isWii displayLists cp [] = some ⟨0, [], cp⟩ := by
  rw [run]
  rfl

theorem run_incomplete {cp : CPState} {data : List Byte} (h : decode cp data = some none) :
    run isWii displayLists cp data = some ⟨0, [], cp⟩ := by
  rw [run]
  split
  · rfl
  · simp [runCommand, h]

/-- A command that is complete is performed, and the run goes on behind it. -/
theorem run_complete {cp cp' : CPState} {data : List Byte} {call : Call} {size : ℕ}
    {nested : List Call} (h : decode cp data = some (some (call, size)))
    (hperform : perform isWii displayLists cp call = some (nested, cp')) :
    run isWii displayLists cp data =
      (run isWii displayLists cp' (data.drop size)).map fun r =>
        ⟨size + r.size, call :: nested ++ [.onCommand (data.take size)] ++ r.calls, r.cpState⟩ := by
  obtain ⟨d, hd, hbounds⟩ := decode_total cp data
  obtain ⟨hpos, hle⟩ := hbounds call size (Option.some_injective _ (hd.symm.trans h))
  have hne : data ≠ [] := by
    rintro rfl
    exact absurd hle (Nat.not_le.mpr hpos)
  have hcommand : runCommand isWii displayLists cp data =
      some ⟨size, call :: nested ++ [.onCommand (data.take size)], cp'⟩ := by
    simp [runCommand, h, hperform]
  rw [run, dif_neg hne, hcommand, Option.bind_some, dif_neg (Nat.pos_iff_ne_zero.mp hpos)]

variable (isWii) in
/-- **A run never reads behind the end of the buffer**, and what it leaves is not complete. -/
theorem run_total (htotal : Total displayLists) (cp : CPState) (data : List Byte) :
    ∃ r, run isWii displayLists cp data = some r ∧ r.size ≤ data.length ∧
      run isWii displayLists r.cpState (data.drop r.size) = some ⟨0, [], r.cpState⟩ := by
  obtain ⟨d, hd, hbounds⟩ := decode_total cp data
  cases d with
  | none =>
    have hrun : run isWii displayLists cp data = some ⟨0, [], cp⟩ := run_incomplete hd
    exact ⟨_, hrun, Nat.zero_le _, hrun⟩
  | some d =>
    obtain ⟨call, size⟩ := d
    obtain ⟨hpos, hle⟩ := hbounds call size rfl
    obtain ⟨⟨nested, cp'⟩, hperform⟩ := perform_total isWii htotal cp call
    have hlen : (data.drop size).length < data.length := by
      rw [List.length_drop]
      omega
    obtain ⟨r, hr, hrle, hrest⟩ := run_total htotal cp' (data.drop size)
    refine ⟨_, by rw [run_complete hd hperform, hr]; rfl, ?_, ?_⟩
    · rw [List.length_drop] at hrle
      simp only
      omega
    · rw [List.drop_drop] at hrest
      exact hrest
  termination_by data.length

variable (isWii) in
/-- A count of `GX_NOP` that is split makes two counts of one. -/
theorem run_nops (htotal : Total displayLists) (cp : CPState) (rest e : List Byte)
    (hall : (rest.takeWhile (· == 0)).length = rest.length) :
    ∃ r r₂ r', run isWii displayLists cp (0 :: rest) = some r ∧
      run isWii displayLists r.cpState ((0 :: rest).drop r.size ++ 0 :: e) = some r₂ ∧
      run isWii displayLists cp (0 :: rest ++ 0 :: e) = some r' ∧ r'.cpState = r₂.cpState ∧
      r'.size = r.size + r₂.size ∧ Merges (r.calls ++ r₂.calls) r'.calls := by
  have hperform : ∀ n, perform isWii displayLists cp (.onNop n) = some ([], cp) := fun _ => rfl
  have hlength : 1 + rest.length = (0 :: rest : List Byte).length := by
    rw [List.length_cons, Nat.add_comm]
  obtain ⟨n, hn⟩ : ∃ n, n = 1 + (e.takeWhile (· == 0)).length := ⟨_, rfl⟩
  obtain ⟨r, hr, -⟩ := run_total isWii htotal cp ((0 :: e).drop n)
  have hfirst := run_complete (decode_nop cp rest) (hperform _)
  have hsecond := run_complete (decode_nop cp e) (hperform _)
  have hwhole := run_complete (decode_nops cp e hall) (hperform _)
  rw [hall, hlength, List.drop_length, List.take_length, run_nil] at hfirst
  rw [← hn, hr] at hsecond
  rw [← hn, ← List.length_cons (a := (0 : Byte)), List.drop_length_add_append,
    List.take_length_add_append, hr] at hwhole
  refine ⟨_, ⟨n + r.size, .onNop n :: .onCommand ((0 :: e).take n) :: r.calls, r.cpState⟩, _,
    hfirst, ?_, hwhole, rfl, ?_, ?_⟩
  · simp only [Nat.add_zero, List.drop_length, List.nil_append]
    exact hsecond
  · simp only [Nat.add_zero, Nat.add_assoc]
  · have hmerge := (Merges.nop (0 :: rest : List Byte).length n (0 :: rest)
      ((0 :: e).take n)).append_right r.calls
    simpa using hmerge

variable (isWii) in
/-- **A run can be interrupted**: it goes on with what was left over. -/
theorem run_append (htotal : Total displayLists) (cp : CPState) (data e : List Byte) :
    ∃ r r₂ r', run isWii displayLists cp data = some r ∧
      run isWii displayLists r.cpState (data.drop r.size ++ e) = some r₂ ∧
      run isWii displayLists cp (data ++ e) = some r' ∧ r'.cpState = r₂.cpState ∧
      r'.size = r.size + r₂.size ∧ Merges (r.calls ++ r₂.calls) r'.calls := by
  obtain ⟨d, hd, hbounds⟩ := decode_total cp data
  cases d with
  | none =>
    obtain ⟨r', hr', -⟩ := run_total isWii htotal cp (data ++ e)
    exact ⟨_, r', r', run_incomplete hd, hr', hr', rfl, (Nat.zero_add _).symm, .refl _⟩
  | some d =>
    obtain ⟨call, size⟩ := d
    obtain ⟨hpos, hle⟩ := hbounds call size rfl
    obtain ⟨⟨nested, cp'⟩, hperform⟩ := perform_total isWii htotal cp call
    have hlen : (data.drop size).length < data.length := by
      rw [List.length_drop]
      omega
    by_cases hsame : decode cp (data ++ e) = some (some (call, size))
    · -- the first command does not depend on what follows
      obtain ⟨r, r₂, r', hr, hr₂, hr', hcp, hsize, hcalls⟩ :=
        run_append htotal cp' (data.drop size) e
      have hwhole := run_complete hsame hperform
      rw [List.drop_append_of_le_length hle, hr', List.take_append_of_le_length hle] at hwhole
      refine ⟨_, r₂, _, by rw [run_complete hd hperform, hr]; rfl, ?_, hwhole, hcp, ?_, ?_⟩
      · rw [List.drop_drop] at hr₂
        exact hr₂
      · simp only [hsize]
        omega
      · have hleft := hcalls.append_left (call :: nested ++ [.onCommand (data.take size)])
        rw [← List.append_assoc] at hleft
        exact hleft
    · -- the buffer is a count of `GX_NOP` that goes on
      obtain ⟨rest, e', rfl, rfl, hall⟩ := decode_append_ne hd hsame
      exact run_nops isWii htotal cp rest e' hall
  termination_by data.length

/-- The calls for successive chunks are those for all of them at once. -/
theorem feed_append (htotal : Total displayLists) (chunks : List (List Byte)) (fifo : Fifo)
    (hstuck : run isWii displayLists fifo.cpState fifo.pending = some ⟨0, [], fifo.cpState⟩) :
    ∃ fifo' r, chunks.foldlM (Fifo.feed isWii displayLists) fifo = some fifo' ∧
      run isWii displayLists fifo.cpState (fifo.pending ++ chunks.flatten) = some r ∧
      fifo'.cpState = r.cpState ∧
      fifo'.pending = (fifo.pending ++ chunks.flatten).drop r.size ∧
      Merges fifo'.calls (fifo.calls ++ r.calls) := by
  induction chunks generalizing fifo with
  | nil =>
    refine ⟨fifo, ⟨0, [], fifo.cpState⟩, rfl, ?_, rfl, ?_, ?_⟩
    · rw [List.flatten_nil, List.append_nil]
      exact hstuck
    · rw [List.flatten_nil, List.append_nil, List.drop_zero]
    · rw [List.append_nil]
      exact .refl _
  | cons chunk chunks ih =>
    obtain ⟨r, hr, hle, hrest⟩ := run_total isWii htotal fifo.cpState (fifo.pending ++ chunk)
    obtain ⟨r₁, r₂, r', hr₁, hr₂, hr', hcp, hsize, hcalls⟩ := run_append isWii htotal
      fifo.cpState (fifo.pending ++ chunk) chunks.flatten
    cases hr.symm.trans hr₁
    have hfeed : fifo.feed isWii displayLists chunk = some
        ⟨(fifo.pending ++ chunk).drop r.size, fifo.calls ++ r.calls, r.cpState⟩ := by
      rw [Fifo.feed, hr]
      rfl
    obtain ⟨fifo', r₃, hfold, hr₃, hcp', hpending, hmerges⟩ := ih
      ⟨(fifo.pending ++ chunk).drop r.size, fifo.calls ++ r.calls, r.cpState⟩ hrest
    cases hr₂.symm.trans hr₃
    rw [List.append_assoc, ← List.flatten_cons] at hr'
    refine ⟨fifo', r', ?_, hr', hcp'.trans hcp.symm, ?_, ?_⟩
    · rw [List.foldlM_cons, hfeed]
      exact hfold
    · rw [hpending, hsize, ← List.drop_append_of_le_length hle, List.drop_drop, List.flatten_cons,
        List.append_assoc]
    · refine hmerges.trans ?_
      rw [List.append_assoc]
      exact hcalls.append_left fifo.calls

end Runs

/-! ## The whole stream -/

theorem ignoreDisplayLists_total : Total ignoreDisplayLists := fun _ _ _ => ⟨_, rfl⟩

theorem callDisplayLists_total (isWii : Bool)
    (getPointerForRange : Word → Word → Option (List Byte)) :
    Total (callDisplayLists isWii getPointerForRange) := by
  intro cp address size
  unfold callDisplayLists
  split
  · exact ⟨_, rfl⟩
  · rename_i data _
    obtain ⟨r, hr, -⟩ := run_total isWii ignoreDisplayLists_total cp data
    exact ⟨_, by rw [hr]; rfl⟩

theorem runCommand_total {displayLists : DisplayLists} (isWii : Bool)
    (htotal : Total displayLists) (cp : CPState) (data : List Byte) :
    ∃ r, runCommand isWii displayLists cp data = some r ∧ r.size ≤ data.length := by
  obtain ⟨d, hd, hbounds⟩ := decode_total cp data
  cases d with
  | none => exact ⟨⟨0, [], cp⟩, by simp [runCommand, hd], Nat.zero_le _⟩
  | some d =>
    obtain ⟨call, size⟩ := d
    obtain ⟨⟨nested, cp'⟩, hperform⟩ := perform_total isWii htotal cp call
    exact ⟨⟨size, call :: nested ++ [.onCommand (data.take size)], cp'⟩,
      by simp [runCommand, hd, hperform], (hbounds call size rfl).2⟩

/-- **The decoder does not depend on how the stream is chunked**, and reads no byte behind the end of
a chunk, neither in the stream nor in a display list. -/
theorem feedAll_eq_run (isWii : Bool) (getPointerForRange : Word → Word → Option (List Byte))
    (cp : CPState) :
    (∀ chunks : List (List Byte), ∃ fifo r,
      feedAll isWii (callDisplayLists isWii getPointerForRange) cp chunks = some fifo ∧
      run isWii (callDisplayLists isWii getPointerForRange) cp chunks.flatten = some r ∧
      mergeNops fifo.calls = mergeNops r.calls ∧ fifo.cpState = r.cpState ∧
      fifo.pending = chunks.flatten.drop r.size) ∧
    (∀ data : List Byte,
      (∃ r, runCommand isWii (callDisplayLists isWii getPointerForRange) cp data = some r ∧
        r.size ≤ data.length) ∧
      ∃ r, runCommand isWii ignoreDisplayLists cp data = some r ∧ r.size ≤ data.length) := by
  have htotal := callDisplayLists_total isWii getPointerForRange
  refine ⟨fun chunks => ?_, fun data => ⟨runCommand_total isWii htotal cp data,
    runCommand_total isWii ignoreDisplayLists_total cp data⟩⟩
  obtain ⟨fifo, r, hfold, hr, hcp, hpending, hmerges⟩ :=
    feed_append htotal chunks ⟨[], [], cp⟩ (run_nil cp)
  exact ⟨fifo, r, hfold, hr, hmerges.mergeNops_eq, hcp, hpending⟩

end OpcodeDecoder
