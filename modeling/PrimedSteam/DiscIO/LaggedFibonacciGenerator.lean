import PrimedSteam.Lib.Lagged

/-!
# The generator of junk data

* `setSeed`, `getBytes`, `forwardBytes`: the generator of the bytes that fill the unused parts of a
  disc.
* `getSeed`: a seed is computed from data; `none` is a read behind the end of the data.

Words are kept as they are in memory, with the least significant byte first.
-/

set_option autoImplicit false

namespace LaggedFibonacciGenerator

abbrev Byte := BitVec 8

abbrev Word := BitVec 32

abbrev Buffer := ℕ → Word

/-- `SEED_SIZE` words. -/
abbrev Seed := ℕ → Word

def seedSize : ℕ := 17

/-- `LFG_K` -/
def lfgK : ℕ := 521

/-- `LFG_J` -/
def lfgJ : ℕ := 32

/-- The bytes of the buffer. -/
def bufferBytes : ℕ := lfgK * 4

structure Generator where
  buffer : Buffer
  positionBytes : ℕ

/-- The byte of a word at an offset in memory. -/
def wordByte (w : Word) (i : ℕ) : Byte := w.extractLsb' (8 * i) 8

/-- `Common::swap32` -/
def swap32 (w : Word) : Word := wordByte w 0 ++ wordByte w 1 ++ wordByte w 2 ++ wordByte w 3

/-! ## Output -/

/-- `Forward` -/
def forward (buffer : Buffer) : Buffer := Lagged.forward (· ^^^ ·) lfgJ lfgK buffer

/-- `Backward` -/
def backward (startWord endWord : ℕ) (buffer : Buffer) : Buffer :=
  Lagged.backward (· ^^^ ·) lfgJ lfgK startWord endWord buffer

/-- The word that `Initialize` calculates. -/
def calculated (buffer : Buffer) (i : ℕ) : Word :=
  (buffer (i - 17) <<< 23) ^^^ (buffer (i - 16) >>> 9) ^^^ buffer (i - 1)

/-- The output code, which shifts by 18 instead of 16. -/
def outputCode (x : Word) : Word := swap32 ((x &&& 0xff00ffff#32) ||| ((x >>> 2) &&& 0x00ff0000#32))

/-- The end of `Initialize`. -/
def finishInit (buffer : Buffer) : Buffer :=
  forward (forward (forward (forward fun i => outputCode (buffer i))))

/-- The bits of a calculated word that the existing data has to match. -/
def matchesData (data word : Word) : Prop :=
  word &&& 0xfffcffff#32 = (data &&& 0xff00ffff#32) ||| ((data <<< 2) &&& 0x00fc0000#32)

instance (data word : Word) : Decidable (matchesData data word) :=
  inferInstanceAs (Decidable (_ = _))

/-- The words that `Initialize` still has to calculate; `none` if existing data does not match. -/
def initFrom (checkExistingData : Bool) : ℕ → ℕ → Buffer → Option Buffer
  | 0, _, buffer => some buffer
  | n + 1, i, buffer =>
    if checkExistingData ∧ ¬matchesData (buffer i) (calculated buffer i) then none
    else initFrom checkExistingData n (i + 1)
      (Function.update buffer i (calculated buffer i))

/-- `Initialize`; `none` is the result `false`. -/
def initBuffer (checkExistingData : Bool) (buffer : Buffer) : Option Buffer :=
  (initFrom checkExistingData (lfgK - seedSize) seedSize buffer).map finishInit

/-- The words before `Initialize`. -/
def seedBuffer (seed : Seed) (buffer : Buffer) : Buffer := fun i =>
  if i < seedSize then swap32 (seed i) else buffer i

/-- `SetSeed`, which does not check the data. -/
def setSeed (seed : Seed) : Generator where
  buffer := (initBuffer false (seedBuffer seed fun _ => 0)).getD fun _ => 0
  positionBytes := 0

namespace Generator

variable (lfg : Generator)

/-- The byte at the position. -/
def current : Byte := wordByte (lfg.buffer (lfg.positionBytes / 4)) (lfg.positionBytes % 4)

/-- The position moves on by one byte. -/
def next : Generator :=
  if lfg.positionBytes + 1 = bufferBytes then ⟨forward lfg.buffer, 0⟩
  else ⟨lfg.buffer, lfg.positionBytes + 1⟩

/-- `GetByte` -/
def getByte : Byte × Generator := (lfg.current, lfg.next)

/-- The bytes of the buffer from the position on. -/
def copy (length : ℕ) : List Byte :=
  (List.range length).map fun i =>
    wordByte (lfg.buffer ((lfg.positionBytes + i) / 4)) ((lfg.positionBytes + i) % 4)

/-- The loop of `GetBytes`, with at most `fuel` copies. -/
def getBytesFor : ℕ → ℕ → Generator → List Byte × Generator
  | 0, _, lfg => ([], lfg)
  | fuel + 1, count, lfg =>
    if count = 0 then ([], lfg)
    else
      let length := min count (bufferBytes - lfg.positionBytes)
      let moved : Generator :=
        if lfg.positionBytes + length = bufferBytes then ⟨forward lfg.buffer, 0⟩
        else ⟨lfg.buffer, lfg.positionBytes + length⟩
      let (rest, last) := getBytesFor fuel (count - length) moved
      (lfg.copy length ++ rest, last)

/-- `GetBytes` -/
def getBytes (count : ℕ) : List Byte × Generator := getBytesFor count count lfg

/-- The loop of `Forward` by a number of bytes, with at most `fuel` steps. -/
def forwardFor : ℕ → Generator → Generator
  | 0, lfg => lfg
  | fuel + 1, lfg =>
    if bufferBytes ≤ lfg.positionBytes then
      forwardFor fuel ⟨forward lfg.buffer, lfg.positionBytes - bufferBytes⟩
    else lfg

/-- `Forward`, by a number of bytes. -/
def forwardBytes (count : ℕ) : Generator :=
  forwardFor (lfg.positionBytes + count) ⟨lfg.buffer, lfg.positionBytes + count⟩

end Generator

/-! ## Seeds from data -/

/-- The bits of a word that the output code makes equal. -/
def Regular (x : Word) : Prop := swap32 x &&& 0x00c00000#32 = (swap32 x >>> 2) &&& 0x00c00000#32

instance (x : Word) : Decidable (Regular x) := inferInstanceAs (Decidable (_ = _))

/-- The bits of a word of the seed that are known or can be reconstructed. -/
def reconstructed (buffer : Buffer) (i : ℕ) : Word :=
  (buffer i &&& 0xff00ffff#32) ||| ((buffer i <<< 2) &&& 0x00fc0000#32) |||
    (((buffer (i + 16) ^^^ buffer (i + 15)) <<< 9) &&& 0x00030000#32)

/-- The words of the seed are reconstructed in place, in ascending order. -/
def reconstruct (buffer : Buffer) : Buffer :=
  (List.range seedSize).foldl (fun b i => Function.update b i (reconstructed b i)) buffer

/-- `Reinitialize`: the buffer, `none` for the result `false`, and the seed. -/
def reinit (buffer : Buffer) : Option Buffer × Seed :=
  let back := (backward 0 lfgK)^[4] buffer
  let words := reconstruct fun i => swap32 (back i)
  (initBuffer true words, fun i => swap32 (words i))

/-- `GetSeed` for words: the buffer, `none` for the result `false`, and the seed that is written,
if any. -/
def getSeedWords (data : ℕ → Word) (size dataOffset : ℕ) : Option Buffer × Option Seed :=
  if size < lfgK then (none, none)
  else if ∃ i < lfgK, ¬Regular (data i) then (none, none)
  else
    let m := dataOffset % lfgK
    let q := dataOffset / lfgK
    let copied : Buffer := fun i => if i < m then data (lfgK - m + i) else data (i - m)
    let (buffer, seed) := reinit ((backward 0 lfgK)^[q] (backward 0 m copied))
    (buffer.map forward^[q], some seed)

/-- The bytes that are the same as those of the generator. -/
def matching : Generator → List Byte → ℕ
  | _, [] => 0
  | lfg, b :: rest =>
    let (x, lfg) := lfg.getByte
    if x = b then matching lfg rest + 1 else 0

/-- A word of the data. -/
def dataWord (data : List Byte) (i : ℕ) : Word :=
  data.getD (i + 3) 0 ++ data.getD (i + 2) 0 ++ data.getD (i + 1) 0 ++ data.getD i 0

/-- `GetSeed`: the number of bytes, and the seed. The data is at `address` in memory; without a whole
word behind the bytes that are skipped, the number of words wraps around, and the first one is read
behind the end of the data. -/
def getSeed (address : ℕ) (data : List Byte) (dataOffset : ℕ) (seedOut : Seed) :
    Option (ℕ × Seed) :=
  if ((address : ℤ) - dataOffset) % 4 ≠ 0 then some (0, seedOut)
  else
    let bytesToSkip := (4 - dataOffset % 4) % 4
    if data.length < bytesToSkip then none
    else
      let size := (data.length - bytesToSkip) / 4
      let offset := (dataOffset + bytesToSkip) % 2 ^ 64 / 4
      let words := fun i => dataWord data (bytesToSkip + 4 * i)
      match getSeedWords words size offset with
      | (none, seed) => some (0, seed.getD seedOut)
      | (some buffer, seed) =>
        some (matching ⟨buffer, dataOffset % bufferBytes⟩ data, seed.getD seedOut)

end LaggedFibonacciGenerator
