import PrimedSteam.Lib.CheckedArray
import PrimedSteam.PowerPC.MemChecks

/-!
# Packets of the debugger

The stub receives a packet into `s_cmd_bfr` and runs the handler of its first byte. Every access to that buffer
and to the reply of `ReadMemory` is checked, and one outside of the array is a fault.

* `readCommand`, `sendReply`, `handle`: what the stub does with its buffers.
* `step`: a turn of the loop of `ProcessCommands`.
-/

set_option autoImplicit false

namespace GDBStub

open CheckedArray

abbrev Byte := BitVec 8

/-- `s_cmd_bfr`, of `GDB_BFR_MAX` bytes. -/
abbrev CmdBfr := Fin 10000 → Byte

/-- The reply of `ReadMemory`, of `GDB_BFR_MAX - 4` bytes. -/
abbrev ReplyBfr := Fin 9996 → Byte

/-- An access outside of a buffer. -/
inductive Fault where
  | cmdBfr (i : ℕ)
  | reply (i : ℕ)
deriving DecidableEq

def byte (c : Char) : Byte := .ofNat 8 c.toNat

/-! ## Digits -/

def hex2char (hex : Byte) : Byte :=
  if byte '0' ≤ hex ∧ hex ≤ byte '9' then hex - byte '0'
  else if byte 'a' ≤ hex ∧ hex ≤ byte 'f' then hex - byte 'a' + 0xa
  else if byte 'A' ≤ hex ∧ hex ≤ byte 'F' then hex - byte 'A' + 0xa
  else 0

def nibble2hex (n : Byte) : Byte :=
  if n &&& 0xf < 0xa then byte '0' + (n &&& 0xf) else byte 'A' + (n &&& 0xf) - 0xa

/-- The digit behind the ones read so far. -/
def shiftDigit (value : Word) (c : Byte) : Word := value <<< 4 ||| (hex2char c).setWidth 32

def hexValue (digits : List Byte) : Word := digits.foldl shiftDigit 0

def mem2hex (src : ℕ → Byte) : ℕ → ℕ → ReplyBfr → Except Fault ReplyBfr
  | 0, _, dst => .ok dst
  | len + 1, i, dst => do
    let dst ← store .reply dst (2 * i) (nibble2hex (src i >>> 4))
    let dst ← store .reply dst (2 * i + 1) (nibble2hex (src i))
    mem2hex src len (i + 1) dst

def hex2mem (src : CmdBfr) : ℕ → ℕ → Except Fault (List Byte)
  | 0, _ => .ok []
  | len + 1, i => do
    let hi ← load .cmdBfr src i
    let lo ← load .cmdBfr src (i + 1)
    let rest ← hex2mem src len (i + 2)
    .ok ((hex2char hi <<< 4 ||| hex2char lo) :: rest)

/-- A text up to its zero, with the length. -/
def cString {n : ℕ} (fault : ℕ → Fault) (b : Fin n → Byte) : Except Fault (ℕ × List Byte) :=
  foldUntil fault (fun text c => text ++ [c]) 0 b 0 []

/-! ## The stub -/

/-- What a handler asks of the emulator. -/
inductive Call where
  | writeMemory (addr : Word) (bytes : List Byte)
  | addBreakpoint (type : BreakpointType) (addr len : Word)
  | removeBreakpoint (type : BreakpointType) (addr len : Word)
deriving DecidableEq

/-- The emulator around the stub in one turn: whether `send` succeeds, which addresses are in RAM and what is
there, and what the handlers of the other commands and `SendSignal` reply. -/
structure Host where
  powerDown : Bool
  sends : Bool
  isRam : Word → Bool
  memory : Word → ℕ → Byte
  text : Byte → CmdBfr → List Byte
  length_text_le : ∀ c b, (text c b).length ≤ 256

structure Stub where
  /-- The bytes that `recv` still gives. -/
  stream : List Byte
  active : Bool
  cmdBfr : CmdBfr
  cmdLen : ℕ
  reply : ReplyBfr
  sent : List Byte
  calls : List Call

namespace Stub

variable (s : Stub)

def deinit : Stub := { s with active := false }

def ack : Stub := { s with sent := s.sent ++ [byte '+'] }

def nack : Stub := { s with sent := s.sent ++ [byte '-'] }

/-- At the end of the stream the byte is `+`, and the connection closes. -/
def readByte : Byte × Stub :=
  match s.stream with
  | [] => (byte '+', s.deinit)
  | c :: rest => (c, { s with stream := rest })

end Stub

def calculateChecksum (b : CmdBfr) (len : ℕ) : Except Fault Byte :=
  foldTo .cmdBfr (fun c x => c + x) b len 0 0

def sendReply (host : Host) (reply : List Byte) (s : Stub) : Except Fault Stub :=
  if s.active then do
    let b ← storeAll .cmdBfr (fun _ => 0) 1 reply
    let chk ← calculateChecksum b (reply.length + 1)
    let b ← store .cmdBfr b 0 (byte '$')
    let b ← store .cmdBfr b (reply.length + 1) (byte '#')
    let b ← store .cmdBfr b (reply.length + 2) (nibble2hex (chk >>> 4))
    let b ← store .cmdBfr b (reply.length + 3) (nibble2hex chk)
    -- the line of the log prints the buffer as a text
    let _ ← cString .cmdBfr b
    let s := { s with cmdBfr := b, cmdLen := reply.length }
    if host.sends then .ok { s with sent := s.sent ++ (List.ofFn b).take (reply.length + 4) } else .ok s.deinit
  else .ok s

/-- The bytes up to `#`, and whether it was found before the buffer was full. -/
def receive (s : Stub) : Except Fault (Bool × Stub) :=
  if s.readByte.1 = byte '#' then .ok (true, s.readByte.2)
  else if h : s.cmdLen < 10000 then
    let s' := { s.readByte.2 with
      cmdBfr := Function.update s.cmdBfr ⟨s.cmdLen, h⟩ s.readByte.1, cmdLen := s.cmdLen + 1 }
    if s'.cmdLen = 10000 then .ok (false, s') else receive s'
  else .error (.cmdBfr s.cmdLen)
termination_by 10000 - s.cmdLen

/-- The two digits behind `#`. -/
def readChecksum (s : Stub) : Byte × Stub :=
  let hi := s.readByte
  let lo := hi.2.readByte
  (hex2char hi.1 <<< 4 ||| hex2char lo.1, lo.2)

/-- The part of `ReadCommand` behind `#`. -/
def checkCommand (s : Stub) : Except Fault Stub := do
  let (chkRead, s) := readChecksum s
  let chkCalc ← calculateChecksum s.cmdBfr s.cmdLen
  -- both branches print the buffer to the log
  let _ ← cString .cmdBfr s.cmdBfr
  if chkCalc ≠ chkRead then .ok { s with cmdLen := 0 }.nack else .ok s.ack

def readCommand (host : Host) (s : Stub) : Except Fault Stub :=
  let s := { s with cmdLen := 0, cmdBfr := fun _ => 0 }
  let (c, s) := s.readByte
  if c = byte '+' then .ok s
  else if c = 0x03 then sendReply host (host.text c s.cmdBfr) s
  else if c ≠ byte '$' then .ok s
  else do
    let (complete, s) ← receive s
    -- when the buffer is full, what was received stays, with its length
    if complete then checkCommand s else .ok s.nack

/-! ## Handlers -/

/-- The error of `ReadMemory` for a reply that is too long. -/
def reportLength (host : Host) (len : Word) (s : Stub) : Except Fault Stub :=
  if 9996 < (len * 2).toNat then sendReply host (['E', '0', '1'].map byte) s else .ok s

def readMemory (host : Host) (s : Stub) : Except Fault Stub := do
  let (i, addr) ← foldUntil .cmdBfr shiftDigit (byte ',') s.cmdBfr 1 0
  let len ← foldTo .cmdBfr shiftDigit s.cmdBfr s.cmdLen (i + 1) 0
  -- the handler goes on after this error
  let s ← reportLength host len s
  if host.isRam addr then do
    let reply ← mem2hex (host.memory addr) len.toNat 0 s.reply
    let reply ← store .reply reply (len * 2).toNat 0
    let (_, text) ← cString .reply reply
    sendReply host text { s with reply := reply }
  else sendReply host (['E', '0', '0'].map byte) s

def writeMemory (host : Host) (s : Stub) : Except Fault Stub := do
  let (i, addr) ← foldUntil .cmdBfr shiftDigit (byte ',') s.cmdBfr 1 0
  let (i, len) ← foldUntil .cmdBfr shiftDigit (byte ':') s.cmdBfr (i + 1) 0
  if host.isRam addr then do
    let bytes ← hex2mem s.cmdBfr len.toNat (i + 1)
    sendReply host (['O', 'K'].map byte) { s with calls := s.calls ++ [.writeMemory addr bytes] }
  else sendReply host (['E', '0', '0'].map byte) s

def BreakpointType.ofByte (type : Byte) : BreakpointType :=
  if type = 0 then .executeSoft
  else if type = 1 then .executeHard
  else if type = 2 then .write
  else if type = 3 then .read
  else .access

/-- The handlers of `Z` and `z`, which differ in the call. -/
def handleBreakpoint (call : BreakpointType → Word → Word → Call) (host : Host) (s : Stub) :
    Except Fault Stub := do
  let c ← load .cmdBfr s.cmdBfr 1
  if 4 < hex2char c then sendReply host (['E', '0', '1'].map byte) s
  else do
    let (i, addr) ← foldUntil .cmdBfr shiftDigit (byte ',') s.cmdBfr 3 0
    let len ← foldTo .cmdBfr shiftDigit s.cmdBfr s.cmdLen (i + 1) 0
    sendReply host (['O', 'K'].map byte)
      { s with calls := s.calls ++ [call (.ofByte (hex2char c)) addr len] }

def handleAddBreakpoint : Host → Stub → Except Fault Stub := handleBreakpoint .addBreakpoint

def handleRemoveBreakpoint : Host → Stub → Except Fault Stub := handleBreakpoint .removeBreakpoint

/-- The commands that have a handler. -/
def commands : List Byte :=
  ['q', 'H', 'T', '?', 'k', 'g', 'G', 'p', 'P', 'm', 'M', 's', 'C', 'c', 'z', 'Z'].map byte

/-- The commands whose handlers only reply a short text. -/
def answered : List Byte := ['q', 'H', 'T', '?', 'g', 'G', 'p', 'P'].map byte

/-- The `switch` of `ProcessCommands`. -/
def handle (host : Host) (s : Stub) : Except Fault Stub :=
  let c := s.cmdBfr 0
  if c ∈ answered then sendReply host (host.text c s.cmdBfr) s
  else if c = byte 'k' then .ok s.deinit
  else if c = byte 'm' then readMemory host s
  else if c = byte 'M' then writeMemory host s
  else if c = byte 's' ∨ c = byte 'C' ∨ c = byte 'c' then .ok s
  else if c = byte 'z' then handleRemoveBreakpoint host s
  else if c = byte 'Z' then handleAddBreakpoint host s
  else sendReply host [] s

/-- A turn of the loop of `ProcessCommands` when a byte is there, with the command whose handler ran. -/
def step (host : Host) (s : Stub) : Except Fault (Option Byte × Stub) :=
  if !s.active then .ok (none, s)
  else if host.powerDown then .ok (none, s.deinit)
  else do
    let r ← readCommand host s
    if r.cmdLen = 0 then .ok (none, r)
    else do
      let s' ← handle host r
      .ok (if r.cmdBfr 0 ∈ commands then some (r.cmdBfr 0) else none, s')

/-- The turns of a session. -/
def run (hosts : ℕ → Host) : ℕ → Stub → Except Fault Stub
  | 0, s => .ok s
  | n + 1, s => do
    let s ← run hosts n s
    let (_, s) ← step (hosts n) s
    .ok s

end GDBStub
