import Mathlib.Tactic.NormNum
import PrimedSteam.PowerPC.GDBStub

/-!
# When a packet stays in its buffers

`handled_iff` says of one turn exactly when no access leaves a buffer and a handler runs only for a packet that
was received with its checksum: the packet ends before the buffer is full, both digits are there, and the
separators and the length of the command fit.

* `receive_complete`, `receive_overflow`: what `receive` leaves in the buffer.
* `readMemory_completes_iff`, `writeMemory_completes_iff`, `handleBreakpoint_completes_iff`: the handlers.
* `handlesPackets_iff`: the whole session.
-/

set_option autoImplicit false

namespace GDBStub

open CheckedArray

/-! ## What is asked of a packet -/

def checksum (payload : List Byte) : Byte := payload.foldl (fun c x => c + x) 0

/-- The two digits behind `#`, where the end of the stream reads as `+`. -/
def sentChecksum (after : List Byte) : Byte :=
  hex2char (after.getD 0 (byte '+')) <<< 4 ||| hex2char (after.getD 1 (byte '+'))

/-- A whole packet was taken from the stream, and its checksum matched. -/
def Received (before after : List Byte) : Prop :=
  ∃ payload c₁ c₂, before = byte '$' :: payload ++ byte '#' :: c₁ :: c₂ :: after ∧ byte '#' ∉ payload ∧
    checksum payload = hex2char c₁ <<< 4 ||| hex2char c₂

/-- The turn stays in the buffers, and a handler runs only for a packet that was received. -/
def Handled (host : Host) (s : Stub) : Prop :=
  ∃ c s', step host s = .ok (c, s') ∧ (c ≠ none → Received s.stream s'.stream)

def ReadFits (host : Host) (payload : List Byte) : Prop :=
  ∃ addr len, payload.drop 1 = addr ++ byte ',' :: len ∧ byte ',' ∉ addr ∧
    (host.isRam (hexValue addr) = true → (hexValue len).toNat ≤ 4997)

def WriteFits (host : Host) (payload : List Byte) : Prop :=
  ∃ addr len bytes, payload.drop 1 = addr ++ byte ',' :: (len ++ byte ':' :: bytes) ∧ byte ',' ∉ addr ∧
    byte ':' ∉ len ∧
    (host.isRam (hexValue addr) = true → addr.length + len.length + 3 + 2 * (hexValue len).toNat ≤ 10000)

def BreakpointFits (payload : List Byte) : Prop :=
  hex2char (payload.getD 1 0) ≤ 4 → byte ',' ∈ payload.drop 3

/-- The packet of a command has the separators that its handler looks for and a length that fits. -/
structure Fits (host : Host) (payload : List Byte) : Prop where
  readMemory : payload.head? = some (byte 'm') → ReadFits host payload
  writeMemory : payload.head? = some (byte 'M') → WriteFits host payload
  removeBreakpoint : payload.head? = some (byte 'z') → BreakpointFits payload
  addBreakpoint : payload.head? = some (byte 'Z') → BreakpointFits payload

/-- A packet whose first byte is a command ends before the buffer is full. If its checksum matches, both digits
were there and its fields fit. -/
def PacketOk (host : Host) (s : Stub) : Prop :=
  s.active = true → host.powerDown = false → ∀ c rest, s.stream = byte '$' :: c :: rest → c ∈ commands →
    ∃ payload after, c :: rest = payload ++ byte '#' :: after ∧ byte '#' ∉ payload ∧ payload.length < 10000 ∧
      (checksum payload = sentChecksum after → 2 ≤ after.length ∧ Fits host payload)

/-! ## Replies -/

/-- No access leaves a buffer. -/
def Completes (x : Except Fault Stub) : Prop := ∃ s', x = .ok s'

@[simp] theorem not_completes_error (f : Fault) : ¬Completes (.error f) := by
  rintro ⟨s', h⟩
  cases h

theorem completes_ok (s : Stub) : Completes (.ok s) := ⟨s, rfl⟩

theorem Completes.bind {x : Except Fault Stub} {f : Stub → Except Fault Stub} (hx : Completes x)
    (hf : ∀ s, Completes (f s)) : Completes (x >>= f) := by
  obtain ⟨s, rfl⟩ := hx
  exact hf s

/-- Nothing is taken from the stream. -/
def Frames (x : Except Fault Stub) (stream : List Byte) : Prop := ∀ s', x = .ok s' → s'.stream = stream

theorem frames_ok (s : Stub) : Frames (.ok s) s.stream := by
  rintro _ ⟨⟩
  rfl

theorem Frames.bind {α : Type} {x : Except Fault α} {f : α → Except Fault Stub} {stream : List Byte}
    (hf : ∀ a, Frames (f a) stream) : Frames (x >>= f) stream := by
  intro s' h
  cases x with
  | ok a => exact hf a s' h
  | error e => cases h

theorem Frames.seq {x : Except Fault Stub} {f : Stub → Except Fault Stub} {stream : List Byte}
    (hx : Frames x stream) (hf : ∀ s, s.stream = stream → Frames (f s) stream) : Frames (x >>= f) stream := by
  intro s' h
  cases x with
  | ok s => exact hf s (hx s rfl) s' h
  | error e => cases h

theorem cString_isOk {n : ℕ} (fault : ℕ → Fault) {b : Fin n → Byte} {j : Fin n} (hj : b j = 0) :
    ∃ k text, cString fault b = .ok (k, text) ∧ text.length ≤ j := by
  obtain ⟨k, text, htext, hk⟩ : ∃ k text, cString fault b = .ok (k, text) ∧ k ≤ j :=
    foldUntil_isOk _ hj (Nat.zero_le j) []
  have hlen := foldUntil_length htext
  simp only [List.length_nil] at hlen
  exact ⟨k, text, htext, by omega⟩

/-- **A reply that leaves room** for the frame and a zero. -/
theorem sendReply_spec (host : Host) {reply : List Byte} (h : reply.length ≤ 9995) (s : Stub) :
    ∃ s', sendReply host reply s = .ok s' ∧ (s' = s ∨ s'.cmdBfr 0 = byte '$') := by
  unfold sendReply
  by_cases hactive : s.active = true
  · rw [if_pos hactive]
    obtain ⟨b, hb, hframe⟩ : ∃ b : CmdBfr, storeAll Fault.cmdBfr (fun _ => 0) 1 reply = .ok b ∧
        ∀ k : Fin 10000, 1 + reply.length ≤ k → b k = 0 := storeAll_frame (by omega)
    obtain ⟨chk, hchk⟩ : ∃ chk, calculateChecksum b (reply.length + 1) = .ok chk :=
      foldTo_isOk _ (by omega) 0 0
    rw [hb, ok_bind, hchk, ok_bind, store_of_lt (by omega), ok_bind,
      store_of_lt (by omega), ok_bind, store_of_lt (by omega), ok_bind, store_of_lt (by omega), ok_bind]
    -- the byte behind the frame is still zero
    have hzero : b ⟨reply.length + 4, by omega⟩ = 0 := hframe _ (by simp only; omega)
    obtain ⟨k, text, htext, -⟩ := cString_isOk Fault.cmdBfr
      (b := Function.update (Function.update (Function.update (Function.update b ⟨0, by omega⟩ (byte '$'))
        ⟨reply.length + 1, by omega⟩ (byte '#')) ⟨reply.length + 2, by omega⟩ (nibble2hex (chk >>> 4)))
        ⟨reply.length + 3, by omega⟩ (nibble2hex chk)) (j := ⟨reply.length + 4, by omega⟩)
      (by simp [hzero])
    rw [htext, ok_bind]
    split
    · exact ⟨_, rfl, .inr (by simp [Fin.ext_iff])⟩
    · exact ⟨_, rfl, .inr (by simp [Stub.deinit, Fin.ext_iff])⟩
  · exact ⟨s, if_neg hactive, .inl rfl⟩

theorem sendReply_completes (host : Host) {reply : List Byte} (h : reply.length ≤ 9995) (s : Stub) :
    Completes (sendReply host reply s) := by
  obtain ⟨s', hs', -⟩ := sendReply_spec host h s
  exact ⟨s', hs'⟩

theorem sendReply_text_completes (host : Host) (c : Byte) (b : CmdBfr) (s : Stub) :
    Completes (sendReply host (host.text c b) s) :=
  sendReply_completes host ((host.length_text_le c b).trans (by norm_num)) s

/-! ## The stream -/

theorem sendReply_frames (host : Host) (reply : List Byte) (s : Stub) :
    Frames (sendReply host reply s) s.stream := by
  unfold sendReply
  split
  · iterate 7 refine Frames.bind fun _ => ?_
    split
    · exact frames_ok _
    · exact frames_ok _
  · exact frames_ok s

theorem reportLength_frames (host : Host) (len : Word) (s : Stub) :
    Frames (reportLength host len s) s.stream := by
  unfold reportLength
  split
  · exact sendReply_frames host _ s
  · exact frames_ok s

theorem readMemory_frames (host : Host) (s : Stub) : Frames (readMemory host s) s.stream := by
  refine Frames.bind fun (i, addr) => Frames.bind fun len => ?_
  refine Frames.seq (reportLength_frames host len s) fun s₁ hs₁ => ?_
  · rw [← hs₁]
    split
    · exact Frames.bind fun _ => Frames.bind fun reply => Frames.bind fun (_, text) =>
        sendReply_frames host text { s₁ with reply := reply }
    · exact sendReply_frames host _ s₁

theorem writeMemory_frames (host : Host) (s : Stub) : Frames (writeMemory host s) s.stream := by
  refine Frames.bind fun (i, addr) => Frames.bind fun (j, len) => ?_
  simp only
  split
  · exact Frames.bind fun bytes => sendReply_frames host _ { s with calls := _ }
  · exact sendReply_frames host _ s

theorem handleBreakpoint_frames (call : BreakpointType → Word → Word → Call) (host : Host) (s : Stub) :
    Frames (handleBreakpoint call host s) s.stream := by
  refine Frames.bind fun c => ?_
  split
  · exact sendReply_frames host _ s
  · exact Frames.bind fun (i, addr) => Frames.bind fun len => sendReply_frames host _ { s with calls := _ }

/-- **No handler takes a byte from the stream.** -/
theorem handle_frames (host : Host) (s : Stub) : Frames (handle host s) s.stream := by
  unfold handle
  simp only
  split_ifs
  · exact sendReply_frames host _ s
  · exact frames_ok s.deinit
  · exact readMemory_frames host s
  · exact writeMemory_frames host s
  · exact frames_ok s
  · exact handleBreakpoint_frames _ host s
  · exact handleBreakpoint_frames _ host s
  · exact sendReply_frames host [] s

/-! ## Memory -/

theorem mem2hex_spec (src : ℕ → Byte) (len i : ℕ) (dst : ReplyBfr) :
    (2 * (i + len) ≤ 9996 → ∃ dst', mem2hex src len i dst = .ok dst') ∧
    (9996 < 2 * (i + len) → 0 < len → ∃ f, mem2hex src len i dst = .error f) := by
  induction len generalizing i dst with
  | zero => exact ⟨fun _ => ⟨dst, rfl⟩, fun _ h => absurd h (lt_irrefl 0)⟩
  | succ len ih =>
    unfold mem2hex
    by_cases hi : 2 * i + 1 < 9996
    · rw [store_of_lt (by omega), ok_bind, store_of_lt hi, ok_bind]
      refine ⟨fun h => (ih _ _).1 (by omega), fun h _ => (ih _ _).2 (by omega) (by omega)⟩
    · refine ⟨fun h => absurd h (by omega), fun _ _ => ⟨.reply (2 * i), ?_⟩⟩
      rw [store_of_le (by omega), error_bind]

theorem hex2mem_spec (src : CmdBfr) (len i : ℕ) :
    (i + 2 * len ≤ 10000 → ∃ bytes, hex2mem src len i = .ok bytes) ∧
    (10000 < i + 2 * len → 0 < len → ∃ f, hex2mem src len i = .error f) := by
  induction len generalizing i with
  | zero => exact ⟨fun _ => ⟨[], rfl⟩, fun _ h => absurd h (lt_irrefl 0)⟩
  | succ len ih =>
    unfold hex2mem
    by_cases hi : i + 1 < 10000
    · rw [load_of_lt (by omega), ok_bind, load_of_lt hi, ok_bind]
      constructor
      · intro h
        obtain ⟨bytes, hbytes⟩ := (ih (i + 2)).1 (by omega)
        rw [hbytes]
        exact ⟨_, rfl⟩
      · intro h _
        obtain ⟨f, hf⟩ := (ih (i + 2)).2 (by omega) (by omega)
        rw [hf]
        exact ⟨f, rfl⟩
    · refine ⟨fun h => absurd h (by omega), fun _ _ => ?_⟩
      by_cases hlast : i < 10000
      · rw [load_of_lt hlast, ok_bind, load_of_le (by omega)]
        exact ⟨_, rfl⟩
      · rw [load_of_le (by omega)]
        exact ⟨_, rfl⟩

theorem reportLength_completes (host : Host) (len : Word) (s : Stub) :
    Completes (reportLength host len s) := by
  unfold reportLength
  split
  · exact sendReply_completes host (by simp) s
  · exact completes_ok s

section Handlers

variable {payload : List Byte} {s : Stub}

/-- The buffer holds the payload and zeros behind it. -/
structure Holds (payload : List Byte) (s : Stub) : Prop where
  length_lt : payload.length < 10000
  cmdBfr : s.cmdBfr = ofList 0 payload
  cmdLen : s.cmdLen = payload.length

theorem foldUntil_payload (h : Holds payload s) (sep : Byte) (hsep : sep ≠ 0) (i : ℕ) :
    (∃ a r, payload.drop i = a ++ sep :: r ∧ sep ∉ a ∧
      foldUntil Fault.cmdBfr shiftDigit sep s.cmdBfr i 0 = .ok (i + a.length, hexValue a)) ∨
    (sep ∉ payload.drop i ∧ ∃ k, foldUntil Fault.cmdBfr shiftDigit sep s.cmdBfr i 0 = .error (.cmdBfr k)) := by
  rw [h.cmdBfr]
  by_cases hmem : sep ∈ payload.drop i
  · obtain ⟨a, r, hr, hnot⟩ := List.eq_append_cons_of_mem hmem
    exact .inl ⟨a, r, hr, hnot, foldUntil_ofList shiftDigit h.length_lt.le hr hnot 0⟩
  · exact .inr ⟨hmem, foldUntil_fault shiftDigit hsep.symm hmem 0⟩

theorem foldTo_payload (h : Holds payload s) (i : ℕ) :
    foldTo Fault.cmdBfr shiftDigit s.cmdBfr s.cmdLen i 0 = .ok (hexValue (payload.drop i)) := by
  rw [h.cmdBfr, h.cmdLen]
  exact foldTo_ofList shiftDigit 0 h.length_lt.le i 0

theorem drop_of_drop_eq {i : ℕ} {a r : List Byte} {sep : Byte} (h : payload.drop i = a ++ sep :: r) :
    payload.drop (i + a.length + 1) = r := by
  rw [add_assoc, ← List.drop_drop, h]
  simp

theorem readFits_iff {host : Host} {a r : List Byte} (hr : payload.drop 1 = a ++ byte ',' :: r)
    (hnot : byte ',' ∉ a) :
    ReadFits host payload ↔ (host.isRam (hexValue a) = true → (hexValue r).toNat ≤ 4997) := by
  constructor
  · rintro ⟨a', r', hr', hnot', hlen⟩
    obtain ⟨rfl, rfl⟩ := append_separator_inj hnot hnot' (hr.symm.trans hr')
    exact hlen
  · exact fun hlen => ⟨a, r, hr, hnot, hlen⟩

theorem writeFits_iff {host : Host} {a l d : List Byte}
    (hr : payload.drop 1 = a ++ byte ',' :: (l ++ byte ':' :: d)) (hnot : byte ',' ∉ a) (hnot' : byte ':' ∉ l) :
    WriteFits host payload ↔
      (host.isRam (hexValue a) = true → a.length + l.length + 3 + 2 * (hexValue l).toNat ≤ 10000) := by
  constructor
  · rintro ⟨a', l', d', hr', hnota, hnotl, hlen⟩
    obtain ⟨rfl, hrest⟩ := append_separator_inj hnot hnota (hr.symm.trans hr')
    obtain ⟨rfl, rfl⟩ := append_separator_inj hnot' hnotl hrest
    exact hlen
  · exact fun hlen => ⟨a, l, d, hr, hnot, hnot', hlen⟩

/-- **Reading memory**: the reply has room for the digits and their zero. -/
theorem readMemory_completes_iff (host : Host) (h : Holds payload s) :
    Completes (readMemory host s) ↔ ReadFits host payload := by
  unfold readMemory
  rcases foldUntil_payload h (byte ',') (by decide) 1 with ⟨a, r, hr, hnot, hok⟩ | ⟨hnot, k, herr⟩
  · rw [readFits_iff hr hnot, hok, ok_bind]
    simp only
    rw [foldTo_payload h, ok_bind, drop_of_drop_eq hr]
    generalize hexValue a = addr
    generalize hexValue r = len
    have hfirst : Completes (reportLength host len s) := reportLength_completes host len s
    by_cases hram : host.isRam addr = true
    · simp only [hram, if_true, true_imp_iff]
      constructor
      · intro hcompletes
        by_contra hlen
        obtain ⟨s₁, hs₁⟩ := hfirst
        rw [hs₁, ok_bind] at hcompletes
        by_cases hfull : 4998 < len.toNat
        · obtain ⟨f, hf⟩ := (mem2hex_spec (host.memory addr) len.toNat 0 s₁.reply).2
            (by omega) (by omega)
          rw [hf, error_bind] at hcompletes
          exact not_completes_error f hcompletes
        · -- the digits fill the reply, and the zero is behind it
          have hdouble : (len * 2).toNat = 9996 := by bv_omega
          obtain ⟨reply, hreply⟩ :=
            (mem2hex_spec (host.memory addr) len.toNat 0 s₁.reply).1 (by omega)
          rw [hreply, ok_bind, store_of_le (by omega), error_bind] at hcompletes
          exact not_completes_error _ hcompletes
      · intro hlen
        have hdouble : (len * 2).toNat = 2 * len.toNat := by bv_omega
        refine hfirst.bind fun s₁ => ?_
        obtain ⟨reply, hreply⟩ :=
          (mem2hex_spec (host.memory addr) len.toNat 0 s₁.reply).1 (by omega)
        rw [hreply, ok_bind, hdouble, store_of_lt (by omega), ok_bind]
        obtain ⟨k, text, htext, hle⟩ := cString_isOk Fault.reply
          (b := Function.update reply ⟨2 * len.toNat, by omega⟩ (0 : Byte)) (j := ⟨2 * len.toNat, by omega⟩)
          (by simp)
        rw [htext, ok_bind]
        exact sendReply_completes host (hle.trans (by simp only; omega)) { s₁ with reply := _ }
    · simp only [hram, if_false, Bool.false_eq_true, false_imp_iff, iff_true]
      refine hfirst.bind fun s₁ => ?_
      exact sendReply_completes host (by simp) s₁
  · rw [herr, error_bind]
    refine iff_of_false (not_completes_error _) ?_
    rintro ⟨a, r, hr, -, -⟩
    exact hnot (by simp [hr])

/-- **Writing memory**: the digits of the stated length are in the buffer. -/
theorem writeMemory_completes_iff (host : Host) (h : Holds payload s) :
    Completes (writeMemory host s) ↔ WriteFits host payload := by
  unfold writeMemory
  rcases foldUntil_payload h (byte ',') (by decide) 1 with ⟨a, r, hr, hnot, hok⟩ | ⟨hnot, k, herr⟩
  · rw [hok, ok_bind]
    simp only
    have hdrop := drop_of_drop_eq hr
    rcases foldUntil_payload h (byte ':') (by decide) (1 + a.length + 1) with
      ⟨l, d, hd, hnot', hok'⟩ | ⟨hnot', k, herr⟩
    · rw [hdrop] at hd
      subst hd
      have hend : 1 + a.length + 1 + l.length + 1 ≤ 10000 := by
        have hlength := congrArg List.length hr
        have hlt := h.length_lt
        simp only [List.length_drop, List.length_append, List.length_cons] at hlength
        omega
      rw [writeFits_iff hr hnot hnot', hok', ok_bind]
      simp only
      generalize hexValue a = addr
      generalize hexValue l = len
      by_cases hram : host.isRam addr = true
      · simp only [hram, if_true, true_imp_iff]
        constructor
        · intro hcompletes
          by_contra hlen
          obtain ⟨f, hf⟩ := (hex2mem_spec s.cmdBfr len.toNat (1 + a.length + 1 + l.length + 1)).2
            (by omega) (by omega)
          rw [hf, error_bind] at hcompletes
          exact not_completes_error f hcompletes
        · intro hlen
          obtain ⟨bytes, hbytes⟩ :=
            (hex2mem_spec s.cmdBfr len.toNat (1 + a.length + 1 + l.length + 1)).1 (by omega)
          rw [hbytes, ok_bind]
          exact sendReply_completes host (by simp) { s with calls := _ }
      · simp only [hram, if_false, Bool.false_eq_true, false_imp_iff, iff_true]
        exact sendReply_completes host (by simp) s
    · rw [herr, error_bind]
      refine iff_of_false (not_completes_error _) ?_
      rintro ⟨a', l', d', hr', hnota, -, -⟩
      obtain ⟨-, rfl⟩ := append_separator_inj hnot hnota (hr.symm.trans hr')
      exact hnot' (by simp [hdrop])
  · rw [herr, error_bind]
    refine iff_of_false (not_completes_error _) ?_
    rintro ⟨a, l, d, hr, -, -, -⟩
    exact hnot (by simp [hr])

/-- **Breakpoints**: a known type needs the separator. -/
theorem handleBreakpoint_completes_iff (call : BreakpointType → Word → Word → Call) (host : Host)
    (h : Holds payload s) : Completes (handleBreakpoint call host s) ↔ BreakpointFits payload := by
  unfold handleBreakpoint BreakpointFits
  have hone : s.cmdBfr ⟨1, by norm_num⟩ = payload.getD 1 0 := by
    rw [h.cmdBfr]
    rfl
  rw [load_of_lt (by norm_num), ok_bind, hone]
  generalize payload.getD 1 0 = c
  by_cases htype : 4 < hex2char c
  · rw [if_pos htype]
    refine iff_of_true (sendReply_completes host (by simp) s) fun hle => ?_
    exact absurd hle (BitVec.not_le.mpr htype)
  · rw [if_neg htype]
    rcases foldUntil_payload h (byte ',') (by decide) 3 with ⟨a, r, hr, -, hok⟩ | ⟨hnot, k, herr⟩
    · rw [hok, ok_bind]
      simp only
      rw [foldTo_payload h, ok_bind]
      exact iff_of_true (sendReply_completes host (by simp) { s with calls := _ }) fun _ => by simp [hr]
    · rw [herr, error_bind]
      refine iff_of_false (not_completes_error _) fun hmem => hnot (hmem ?_)
      exact BitVec.not_lt.mp htype

end Handlers

/-! ## Receiving -/

theorem readByte_nil {s : Stub} (h : s.stream = []) : s.readByte = (byte '+', s.deinit) := by
  simp [Stub.readByte, h]

theorem readByte_cons {s : Stub} {c : Byte} {rest : List Byte} (h : s.stream = c :: rest) :
    s.readByte = (c, { s with stream := rest }) := by
  simp [Stub.readByte, h]

/-- The stub with the bytes in its buffer. -/
def Stub.filled (s : Stub) (payload : List Byte) : Stub :=
  { s with cmdBfr := ofList 0 payload, cmdLen := payload.length }

theorem receive_filled {s : Stub} {q : List Byte} (hq : q.length < 10000) (hc : s.readByte.1 ≠ byte '#') :
    receive (s.filled q) =
      if q.length + 1 = 10000 then .ok (false, s.readByte.2.filled (q ++ [s.readByte.1]))
      else receive (s.readByte.2.filled (q ++ [s.readByte.1])) := by
  have hread : (s.filled q).readByte = (s.readByte.1, s.readByte.2.filled q) := by
    cases hs : s.stream with
    | nil =>
      rw [readByte_nil hs, readByte_nil (s := s.filled q) hs]
      rfl
    | cons c rest =>
      rw [readByte_cons hs, readByte_cons (s := s.filled q) hs]
      rfl
  rw [receive, hread]
  simp only [Stub.filled, if_neg hc, hq, dif_pos, update_ofList, List.length_append, List.length_singleton]

/-- **A payload that ends before the buffer is full.** -/
theorem receive_complete {p after : List Byte} (hp : byte '#' ∉ p) {s : Stub} {q : List Byte}
    (hs : s.stream = p ++ byte '#' :: after) (hlen : q.length + p.length < 10000) :
    receive (s.filled q) = .ok (true, { s with stream := after }.filled (q ++ p)) := by
  induction p generalizing s q with
  | nil =>
    have hread : (s.filled q).readByte = (byte '#', { s with stream := after }.filled q) := by
      rw [readByte_cons (s := s.filled q) hs]
      rfl
    rw [receive, hread, if_pos rfl, List.append_nil]
  | cons c p ih =>
    rw [List.mem_cons, not_or] at hp
    rw [List.length_cons] at hlen
    have hread : s.readByte = (c, { s with stream := p ++ byte '#' :: after }) := readByte_cons hs
    rw [receive_filled (by omega) (by rw [hread]; exact Ne.symm hp.1), if_neg (by omega), hread,
      ih hp.2 rfl (by simp; omega)]
    simp

/-- **Without an end the buffer fills up**, with what is left of the stream behind it. -/
theorem receive_overflow {s : Stub} {q : List Byte} (hq : q.length < 10000)
    (h : ∀ p after, s.stream = p ++ byte '#' :: after → byte '#' ∉ p → 10000 ≤ q.length + p.length) :
    ∃ r pre, receive (s.filled q) = .ok (false, r) ∧ r.cmdLen = 10000 ∧
      r.cmdBfr 0 = (q ++ s.stream).headD (byte '+') ∧ s.stream = pre ++ r.stream ∧ byte '#' ∉ pre := by
  induction hd : 10000 - q.length generalizing s q with
  | zero => omega
  | succ d ih =>
    cases hs : s.stream with
    | nil =>
      have hread := readByte_nil hs
      rw [receive_filled hq (by rw [hread]; exact (by decide : byte '+' ≠ byte '#')), hread]
      by_cases hfull : q.length + 1 = 10000
      · rw [if_pos hfull]
        refine ⟨_, [], rfl, by simp [Stub.filled, hfull], ?_, by simp [Stub.filled, Stub.deinit, hs], by simp⟩
        cases q <;> simp [Stub.filled, ofList]
      · rw [if_neg hfull]
        obtain ⟨r, pre, hr, hlen, hhead, hstream, hpre⟩ :=
          ih (s := s.deinit) (q := q ++ [byte '+']) (by simp; omega)
            (fun p after hp _ => by simp [Stub.deinit, hs] at hp) (by simp; omega)
        refine ⟨r, pre, hr, hlen, ?_, by rw [← hs]; exact hstream, hpre⟩
        rw [hhead]
        cases q <;> simp [Stub.deinit, hs]
    | cons c rest =>
      have hread := readByte_cons hs
      have hc : c ≠ byte '#' := by
        rintro rfl
        have hle := h [] rest hs (by simp)
        simp only [List.length_nil] at hle
        omega
      rw [receive_filled hq (by rw [hread]; exact hc), hread]
      by_cases hfull : q.length + 1 = 10000
      · rw [if_pos hfull]
        refine ⟨_, [c], rfl, by simp [Stub.filled, hfull], ?_, by simp [Stub.filled], by simpa using Ne.symm hc⟩
        cases q <;> simp [Stub.filled, ofList]
      · rw [if_neg hfull]
        obtain ⟨r, pre, hr, hlen, hhead, hstream, hpre⟩ :=
          ih (s := { s with stream := rest }) (q := q ++ [c]) (by simp; omega)
            (fun p after hp hnot => by
              have hle := h (c :: p) after (by rw [hs, List.cons_append]; exact congrArg _ hp)
                (by simp [Ne.symm hc, hnot])
              simp only [List.length_cons, List.length_append, List.length_nil] at hle ⊢
              omega)
            (by simp; omega)
        refine ⟨r, c :: pre, hr, hlen, ?_, by simpa using hstream, by simp [Ne.symm hc, hpre]⟩
        rw [hhead]
        simp

theorem readChecksum_eq (s : Stub) :
    readChecksum s = (sentChecksum s.stream,
      { s with stream := s.stream.drop 2, active := s.active && decide (2 ≤ s.stream.length) }) := by
  unfold readChecksum sentChecksum
  match hs : s.stream with
  | [] => simp [Stub.readByte, Stub.deinit, hs]
  | [c] => simp [Stub.readByte, Stub.deinit, hs]
  | c :: d :: rest => simp [Stub.readByte, hs]

/-! ## Commands -/

/-- The stub that runs the handler of a payload. -/
def Stub.accepted (s : Stub) (payload after : List Byte) : Stub :=
  ({ s with
    stream := after.drop 2, active := s.active && decide (2 ≤ after.length) }.filled payload).ack

theorem holds_accepted (s : Stub) {payload : List Byte} (after : List Byte) (h : payload.length < 10000) :
    Holds payload (s.accepted payload after) := ⟨h, rfl, rfl⟩

theorem checkCommand_filled (s : Stub) {payload : List Byte} (h : payload.length < 10000) :
    checkCommand (s.filled payload) =
      if checksum payload ≠ sentChecksum s.stream then
        .ok { s.accepted payload s.stream with cmdLen := 0, sent := s.sent ++ [byte '-'] }
      else .ok (s.accepted payload s.stream) := by
  unfold checkCommand
  rw [readChecksum_eq]
  have hsum : calculateChecksum (ofList 0 payload) payload.length = .ok (checksum payload) :=
    foldTo_ofList _ 0 h.le 0 0
  obtain ⟨k, text, htext, -⟩ := cString_isOk Fault.cmdBfr (b := (ofList 0 payload : CmdBfr))
    (j := ⟨payload.length, h⟩) (by simp [ofList])
  simp only [Stub.filled]
  rw [hsum, ok_bind, htext, ok_bind]
  rfl

theorem readCommand_start (host : Host) {s : Stub} {rest : List Byte} (h : s.stream = byte '$' :: rest) :
    readCommand host s = receive ({ s with stream := rest }.filled []) >>= fun r =>
      if r.1 then checkCommand r.2 else .ok r.2.nack := by
  have hread : ({ s with cmdLen := 0, cmdBfr := fun _ => 0 } : Stub).readByte =
      (byte '$', { s with stream := rest }.filled []) := by
    rw [readByte_cons (s := { s with cmdLen := 0, cmdBfr := fun _ => 0 }) h]
    simp [Stub.filled]
  unfold readCommand
  simp only [hread]
  rw [if_neg (by decide), if_neg (by decide), if_neg (by decide)]

theorem readCommand_other (host : Host) {s : Stub} (h : ∀ rest, s.stream ≠ byte '$' :: rest) :
    ∃ r, readCommand host s = .ok r ∧ (r.cmdLen = 0 ∨ r.cmdBfr 0 = byte '$') := by
  unfold readCommand
  generalize hs₀ : ({ s with cmdLen := 0, cmdBfr := fun _ => 0 } : Stub) = s₀
  have hlen : s₀.readByte.2.cmdLen = 0 := by
    subst hs₀
    unfold Stub.readByte
    split <;> rfl
  have hc : s₀.readByte.1 ≠ byte '$' := by
    subst hs₀
    unfold Stub.readByte
    split
    · exact (by decide : byte '+' ≠ byte '$')
    · next c rest hcons =>
      rintro rfl
      exact h rest hcons
  simp only
  split
  · exact ⟨_, rfl, .inl hlen⟩
  · split
    · obtain ⟨r, hr, hframe⟩ := sendReply_spec host
        ((host.length_text_le s₀.readByte.1 s₀.readByte.2.cmdBfr).trans (by norm_num)) s₀.readByte.2
      refine ⟨r, hr, hframe.imp_left fun heq => ?_⟩
      rw [heq, hlen]
    · exact ⟨_, rfl, .inl hlen⟩

theorem handle_completes (host : Host) {s : Stub} (hm : s.cmdBfr 0 ≠ byte 'm') (hM : s.cmdBfr 0 ≠ byte 'M')
    (hz : s.cmdBfr 0 ≠ byte 'z') (hZ : s.cmdBfr 0 ≠ byte 'Z') : Completes (handle host s) := by
  unfold handle
  simp only [if_neg hm, if_neg hM, if_neg hz, if_neg hZ]
  split
  · exact sendReply_text_completes host _ _ s
  · split
    · exact completes_ok _
    · split
      · exact completes_ok s
      · exact sendReply_completes host (by simp) s

theorem fits_iff_of_head {host : Host} {c : Byte} {p : List Byte} :
    Fits host (c :: p) ↔ (c = byte 'm' → ReadFits host (c :: p)) ∧ (c = byte 'M' → WriteFits host (c :: p)) ∧
      (c = byte 'z' → BreakpointFits (c :: p)) ∧ (c = byte 'Z' → BreakpointFits (c :: p)) := by
  constructor
  · rintro ⟨hm, hM, hz, hZ⟩
    exact ⟨fun h => hm (by simp [h]), fun h => hM (by simp [h]), fun h => hz (by simp [h]),
      fun h => hZ (by simp [h])⟩
  · rintro ⟨hm, hM, hz, hZ⟩
    exact ⟨fun h => hm (by simpa using h), fun h => hM (by simpa using h), fun h => hz (by simpa using h),
      fun h => hZ (by simpa using h)⟩

/-- **The handler of a payload** stays in the buffers if and only if the payload fits. -/
theorem handle_completes_iff (host : Host) {c : Byte} {p : List Byte} {s : Stub} (h : Holds (c :: p) s) :
    Completes (handle host s) ↔ Fits host (c :: p) := by
  have hc : s.cmdBfr 0 = c := by
    rw [h.cmdBfr]
    rfl
  rw [fits_iff_of_head]
  by_cases hm : c = byte 'm'
  · subst hm
    have hhandle : handle host s = readMemory host s := by
      simp only [handle, hc]
      rw [if_neg (by decide), if_neg (by decide), if_pos trivial]
    rw [hhandle, readMemory_completes_iff host h]
    simp [byte]
  by_cases hM : c = byte 'M'
  · subst hM
    have hhandle : handle host s = writeMemory host s := by
      simp only [handle, hc]
      rw [if_neg (by decide), if_neg (by decide), if_neg (by decide), if_pos trivial]
    rw [hhandle, writeMemory_completes_iff host h]
    simp [byte]
  by_cases hz : c = byte 'z'
  · subst hz
    have hhandle : handle host s = handleRemoveBreakpoint host s := by
      simp only [handle, hc]
      rw [if_neg (by decide), if_neg (by decide), if_neg (by decide), if_neg (by decide), if_neg (by decide),
        if_pos trivial]
    rw [hhandle, handleRemoveBreakpoint, handleBreakpoint_completes_iff _ host h]
    simp [byte]
  by_cases hZ : c = byte 'Z'
  · subst hZ
    have hhandle : handle host s = handleAddBreakpoint host s := by
      simp only [handle, hc]
      rw [if_neg (by decide), if_neg (by decide), if_neg (by decide), if_neg (by decide), if_neg (by decide),
        if_neg (by decide), if_pos trivial]
    rw [hhandle, handleAddBreakpoint, handleBreakpoint_completes_iff _ host h]
    simp [byte]
  · subst hc
    exact iff_of_true (handle_completes host hm hM hz hZ)
      ⟨fun h => absurd h hm, fun h => absurd h hM, fun h => absurd h hz, fun h => absurd h hZ⟩

/-! ## One turn -/

theorem received_iff {p after : List Byte} (hp : byte '#' ∉ p) (hsum : checksum p = sentChecksum after) :
    Received (byte '$' :: (p ++ byte '#' :: after)) (after.drop 2) ↔ 2 ≤ after.length := by
  constructor
  · rintro ⟨p', c₁, c₂, heq, hp', -⟩
    rw [List.cons_append, List.cons_inj_right] at heq
    obtain ⟨-, hafter⟩ := append_separator_inj hp hp' heq
    rw [hafter]
    simp
  · intro h
    obtain ⟨c₁, c₂, rest, rfl⟩ : ∃ c₁ c₂ rest, after = c₁ :: c₂ :: rest := by
      match after, h with
      | c₁ :: c₂ :: rest, _ => exact ⟨c₁, c₂, rest, rfl⟩
    exact ⟨p, c₁, c₂, rfl, hp, hsum⟩

theorem not_received {pre rest : List Byte} (hpre : byte '#' ∉ pre) :
    ¬Received (byte '$' :: (pre ++ rest)) rest := by
  rintro ⟨p, c₁, c₂, heq, -, -⟩
  rw [List.cons_append, List.cons_inj_right] at heq
  have hsplit : pre ++ rest = (p ++ [byte '#', c₁, c₂]) ++ rest := by simpa using heq
  rw [List.append_cancel_right hsplit] at hpre
  exact hpre (by simp)

theorem step_eq {host : Host} {s : Stub} (hactive : s.active = true) (hpower : host.powerDown = false) :
    step host s = readCommand host s >>= fun r =>
      if r.cmdLen = 0 then .ok (none, r)
      else handle host r >>= fun s' => .ok (if r.cmdBfr 0 ∈ commands then some (r.cmdBfr 0) else none, s') := by
  unfold step
  simp [hactive, hpower]

theorem handled_of_notMem {host : Host} {s r : Stub} (hactive : s.active = true)
    (hpower : host.powerDown = false) (hr : readCommand host s = .ok r)
    (h : r.cmdLen = 0 ∨ r.cmdBfr 0 ∉ commands) : Handled host s := by
  unfold Handled
  rw [step_eq hactive hpower, hr, ok_bind]
  by_cases hlen : r.cmdLen = 0
  · exact ⟨none, r, if_pos hlen, fun hne => absurd rfl hne⟩
  · have hc := h.resolve_left hlen
    obtain ⟨s', hs'⟩ := handle_completes host
      (fun he => hc (by rw [he]; decide)) (fun he => hc (by rw [he]; decide))
      (fun he => hc (by rw [he]; decide)) (fun he => hc (by rw [he]; decide))
    refine ⟨none, s', ?_, fun hne => absurd rfl hne⟩
    rw [if_neg hlen, hs', ok_bind, if_neg hc]

theorem handled_iff_of_mem {host : Host} {s r : Stub} (hactive : s.active = true)
    (hpower : host.powerDown = false) (hr : readCommand host s = .ok r) (hlen : r.cmdLen ≠ 0)
    (h : r.cmdBfr 0 ∈ commands) :
    Handled host s ↔ ∃ s', handle host r = .ok s' ∧ Received s.stream s'.stream := by
  unfold Handled
  rw [step_eq hactive hpower, hr, ok_bind, if_neg hlen]
  simp only [if_pos h]
  constructor
  · rintro ⟨c, s', hstep, hreceived⟩
    cases hh : handle host r with
    | error f =>
      rw [hh, error_bind] at hstep
      cases hstep
    | ok s₁ =>
      rw [hh, ok_bind] at hstep
      cases hstep
      exact ⟨_, rfl, hreceived (by simp)⟩
  · rintro ⟨s', hs', hreceived⟩
    rw [hs', ok_bind]
    exact ⟨_, s', rfl, fun _ => hreceived⟩

theorem packetOk_iff_of_complete {host : Host} {s : Stub} {p after : List Byte} (hactive : s.active = true)
    (hpower : host.powerDown = false) (hs : s.stream = byte '$' :: (p ++ byte '#' :: after)) (hp : byte '#' ∉ p)
    (hlen : p.length < 10000) :
    PacketOk host s ↔ ∀ c tail, p = c :: tail → c ∈ commands → checksum p = sentChecksum after →
      2 ≤ after.length ∧ Fits host p := by
  constructor
  · rintro h c tail rfl hc hsum
    obtain ⟨p', after', heq, hp', -, hfits⟩ := h hactive hpower c (tail ++ byte '#' :: after) hs hc
    obtain ⟨rfl, rfl⟩ := append_separator_inj hp hp' heq
    exact hfits hsum
  · intro h _ _ c rest hrest hc
    have heq : c :: rest = p ++ byte '#' :: after := List.tail_eq_of_cons_eq (hrest.symm.trans hs)
    cases p with
    | nil =>
      obtain ⟨rfl, -⟩ := List.cons_eq_cons.mp heq
      exact absurd hc (by decide)
    | cons d tail =>
      obtain ⟨rfl, -⟩ := List.cons_eq_cons.mp heq
      exact ⟨c :: tail, after, heq, hp, hlen, h c tail rfl hc⟩

theorem handled_iff_of_complete {host : Host} {s : Stub} {p after : List Byte} (hactive : s.active = true)
    (hpower : host.powerDown = false) (hs : s.stream = byte '$' :: (p ++ byte '#' :: after)) (hp : byte '#' ∉ p)
    (hlen : p.length < 10000) : Handled host s ↔ PacketOk host s := by
  rw [packetOk_iff_of_complete hactive hpower hs hp hlen]
  have hr := readCommand_start host hs
  rw [receive_complete hp rfl (by simpa using hlen), ok_bind, if_pos rfl, List.nil_append,
    checkCommand_filled _ hlen] at hr
  by_cases hsum : checksum p = sentChecksum after
  case neg =>
    rw [if_pos hsum] at hr
    exact iff_of_true (handled_of_notMem hactive hpower hr (.inl rfl)) fun _ _ _ _ h => absurd h hsum
  rw [if_neg (not_not.mpr hsum)] at hr
  cases p with
  | nil =>
    exact iff_of_true (handled_of_notMem hactive hpower hr (.inl rfl)) fun c tail h => by simp at h
  | cons c tail =>
    by_cases hc : c ∈ commands
    case neg =>
      refine iff_of_true (handled_of_notMem hactive hpower hr (.inr hc)) fun c' tail' h hc' => ?_
      cases h
      exact absurd hc' hc
    rw [handled_iff_of_mem hactive hpower hr (Nat.succ_ne_zero _) hc, hs]
    have hfits := handle_completes_iff host (holds_accepted { s with stream := after } after hlen)
    constructor
    · rintro ⟨s', hs', hreceived⟩ c' tail' heq - -
      rw [handle_frames host _ s' hs'] at hreceived
      exact ⟨(received_iff hp hsum).mp hreceived, hfits.mp ⟨s', hs'⟩⟩
    · intro h
      obtain ⟨hlen2, hfit⟩ := h c tail rfl hc hsum
      obtain ⟨s', hs'⟩ := hfits.mpr hfit
      refine ⟨s', hs', ?_⟩
      rw [handle_frames host _ s' hs']
      exact (received_iff hp hsum).mpr hlen2

theorem handled_iff_of_overflow {host : Host} {s : Stub} {rest : List Byte} (hactive : s.active = true)
    (hpower : host.powerDown = false) (hs : s.stream = byte '$' :: rest)
    (h : ∀ p after, rest = p ++ byte '#' :: after → byte '#' ∉ p → 10000 ≤ p.length) :
    Handled host s ↔ PacketOk host s := by
  obtain ⟨r, pre, hreceive, hlen, hhead, hstream, hpre⟩ :=
    receive_overflow (s := { s with stream := rest }) (q := []) (by simp) (by simpa using h)
  have hr : readCommand host s = .ok r.nack := by
    rw [readCommand_start host hs, hreceive, ok_bind]
    rfl
  simp only at hhead hstream
  by_cases hc : r.cmdBfr 0 ∈ commands
  · rw [handled_iff_of_mem hactive hpower hr (by simp [Stub.nack, hlen]) hc, hs]
    refine iff_of_false ?_ fun hok => ?_
    · rintro ⟨s', hs', hreceived⟩
      rw [handle_frames host _ s' hs', hstream] at hreceived
      exact not_received hpre hreceived
    · cases rest with
      | nil =>
        rw [hhead] at hc
        exact absurd hc (by decide : byte '+' ∉ commands)
      | cons c tail =>
        rw [hhead] at hc
        obtain ⟨p, after, heq, hp, hlt, -⟩ := hok hactive hpower c tail hs hc
        exact absurd (h p after heq hp) (by omega)
  · refine iff_of_true (handled_of_notMem hactive hpower hr (.inr hc)) fun _ _ c tail htail hmem => ?_
    obtain rfl : rest = c :: tail := List.tail_eq_of_cons_eq (hs.symm.trans htail)
    rw [hhead] at hc
    exact absurd hmem hc

/-- **One turn**: exactly the packets whose fields fit are handled within the buffers. -/
theorem handled_iff (host : Host) (s : Stub) : Handled host s ↔ PacketOk host s := by
  by_cases hactive : s.active = true
  case neg =>
    refine iff_of_true ⟨none, s, ?_, fun hne => absurd rfl hne⟩ fun h => absurd h hactive
    simp [step, hactive]
  by_cases hpower : host.powerDown = false
  case neg =>
    refine iff_of_true ⟨none, s.deinit, ?_, fun hne => absurd rfl hne⟩ fun _ h => absurd h hpower
    simp [step, hactive, hpower]
  by_cases hstart : ∃ rest, s.stream = byte '$' :: rest
  case neg =>
    obtain ⟨r, hr, hnone⟩ := readCommand_other host (s := s) fun rest h => hstart ⟨rest, h⟩
    refine iff_of_true (handled_of_notMem hactive hpower hr (hnone.imp_right fun h => ?_))
      fun _ _ c rest h => absurd ⟨_, h⟩ hstart
    rw [h]
    decide
  obtain ⟨rest, hrest⟩ := hstart
  by_cases hcomplete : ∃ p after, rest = p ++ byte '#' :: after ∧ byte '#' ∉ p ∧ p.length < 10000
  · obtain ⟨p, after, rfl, hp, hlen⟩ := hcomplete
    exact handled_iff_of_complete hactive hpower hrest hp hlen
  · refine handled_iff_of_overflow hactive hpower hrest fun p after heq hp => ?_
    by_contra hlt
    exact hcomplete ⟨p, after, heq, hp, Nat.lt_of_not_le hlt⟩

/-! ## Sessions -/

/-- Every turn is reached, stays in the buffers and runs handlers only for packets that were received. -/
def HandlesPackets (hosts : ℕ → Host) (s : Stub) : Prop :=
  ∀ n, ∃ s', run hosts n s = .ok s' ∧ Handled (hosts n) s'

/-- The condition on what the stub has still to receive, before each turn. -/
def PacketsFit (hosts : ℕ → Host) (s : Stub) : Prop :=
  ∀ n s', run hosts n s = .ok s' → PacketOk (hosts n) s'

/-- **When a session stays in the buffers**: if and only if the packets fit. -/
theorem handlesPackets_iff (hosts : ℕ → Host) (s : Stub) : HandlesPackets hosts s ↔ PacketsFit hosts s := by
  constructor
  · intro h n s' hs'
    obtain ⟨s₁, hs₁, hhandled⟩ := h n
    obtain rfl : s₁ = s' := Except.ok.inj (hs₁.symm.trans hs')
    exact (handled_iff (hosts n) s₁).mp hhandled
  · intro h n
    induction n with
    | zero => exact ⟨s, rfl, (handled_iff (hosts 0) s).mpr (h 0 s rfl)⟩
    | succ n ih =>
      obtain ⟨s₁, hs₁, c, s₂, hstep, -⟩ := ih
      have hrun : run hosts (n + 1) s = .ok s₂ := by rw [run, hs₁, ok_bind, hstep, ok_bind]
      exact ⟨s₂, hrun, (handled_iff (hosts (n + 1)) s₂).mpr (h (n + 1) s₂ hrun)⟩

/-- The stub after a connection, with what the debugger sends. -/
def connected (stream : List Byte) : Stub where
  stream := stream
  active := true
  cmdBfr := fun _ => 0
  cmdLen := 0
  reply := fun _ => 0
  sent := []
  calls := []

/-- A host with all of its addresses in RAM. -/
def sampleHost : Host where
  powerDown := false
  sends := true
  isRam := fun _ => true
  memory := fun _ _ => 0
  text := fun _ _ => []
  length_text_le := fun _ _ => Nat.zero_le _

/-- `$z0#aa`: the checksum matches, and the search for the comma leaves the buffer. -/
theorem not_handlesPackets_separator :
    ¬HandlesPackets (fun _ => sampleHost) (connected (['$', 'z', '0', '#', 'a', 'a'].map byte)) := by
  intro h
  obtain ⟨s', hs', hhandled⟩ := h 0
  cases hs'
  have hok := (packetOk_iff_of_complete (p := ['z', '0'].map byte) rfl rfl rfl
    (by decide) (by decide)).mp ((handled_iff sampleHost _).mp hhandled)
  obtain ⟨-, hfits⟩ := hok (byte 'z') [byte '0'] rfl (by decide) (by decide)
  exact absurd (hfits.removeBreakpoint rfl (by decide)) (by decide)

end GDBStub
