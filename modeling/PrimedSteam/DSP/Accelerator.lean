import Mathlib.Data.BitVec

/-!
# The accelerator of the DSP

The registers, `ReadSample` and `ReadRaw`. The memory behind the accelerator is a function of the
address.
-/

set_option autoImplicit false

namespace DSP

inductive FormatSize
  | size4Bit
  | size8Bit
  | size16Bit
  | sizeInvalid
  deriving DecidableEq

inductive FormatDecode
  | adpcm
  | mmioPcmNoInc
  | pcm
  | mmioPcmInc
  deriving DecidableEq

inductive FormatGainScale
  | gainScale2048
  | gainScale1
  | gainScale65536
  | gainScaleInvalid
  deriving DecidableEq

/-- The register `SampleFormat` with its bit fields. -/
structure SampleFormat where
  hex : BitVec 16
  deriving DecidableEq

namespace SampleFormat

def size (f : SampleFormat) : FormatSize :=
  match f.hex.toNat % 4 with
  | 0 => .size4Bit
  | 1 => .size8Bit
  | 2 => .size16Bit
  | _ => .sizeInvalid

def decode (f : SampleFormat) : FormatDecode :=
  match f.hex.toNat / 4 % 4 with
  | 0 => .adpcm
  | 1 => .mmioPcmNoInc
  | 2 => .pcm
  | _ => .mmioPcmInc

def gainScale (f : SampleFormat) : FormatGainScale :=
  match f.hex.toNat / 16 % 4 with
  | 0 => .gainScale2048
  | 1 => .gainScale1
  | 2 => .gainScale65536
  | _ => .gainScaleInvalid

/-- By how much samples are shifted after the gain; not at all in the invalid mode. -/
def gainShift (f : SampleFormat) : ℕ :=
  match f.gainScale with
  | .gainScale2048 => 11
  | .gainScale1 => 0
  | .gainScale65536 => 16
  | .gainScaleInvalid => 0

end SampleFormat

structure Accelerator where
  startAddress : BitVec 32
  endAddress : BitVec 32
  currentAddress : BitVec 32
  sampleFormat : SampleFormat
  gain : BitVec 16
  yn1 : BitVec 16
  yn2 : BitVec 16
  predScale : BitVec 16
  input : BitVec 16
  readsStopped : Bool
  deriving DecidableEq

/-- What an access gives: the value, whether it has raised the exception at the end, and the
accelerator afterwards. -/
structure Accessed where
  value : BitVec 16
  exception : Bool
  next : Accelerator

namespace Accelerator

/-- An accelerator that has just been built. -/
def initial : Accelerator where
  startAddress := 0
  endAddress := 0
  currentAddress := 0
  sampleFormat := ⟨0⟩
  gain := 0
  yn1 := 0
  yn2 := 0
  predScale := 0
  input := 0
  readsStopped := false

def startEndAddressMask : BitVec 32 := 0x3fffffff

def currentAddressMask : BitVec 32 := 0xbfffffff

def setStartAddress (s : Accelerator) (address : BitVec 32) : Accelerator :=
  { s with startAddress := address &&& startEndAddressMask }

def setEndAddress (s : Accelerator) (address : BitVec 32) : Accelerator :=
  { s with endAddress := address &&& startEndAddressMask }

def setCurrentAddress (s : Accelerator) (address : BitVec 32) : Accelerator :=
  { s with currentAddress := address &&& currentAddressMask }

def setSampleFormat (s : Accelerator) (format : BitVec 16) : Accelerator :=
  { s with sampleFormat := ⟨format⟩ }

def setGain (s : Accelerator) (gain : BitVec 16) : Accelerator :=
  { s with gain := gain }

def setYn1 (s : Accelerator) (yn1 : BitVec 16) : Accelerator :=
  { s with yn1 := yn1 }

def setYn2 (s : Accelerator) (yn2 : BitVec 16) : Accelerator :=
  { s with yn2 := yn2, readsStopped := false }

def setPredScale (s : Accelerator) (predScale : BitVec 16) : Accelerator :=
  { s with predScale := predScale &&& 0x7f }

def setInput (s : Accelerator) (input : BitVec 16) : Accelerator :=
  { s with input := input }

section

variable (memory : BitVec 32 → BitVec 8)

def getCurrentSample (s : Accelerator) : BitVec 16 :=
  match s.sampleFormat.size with
  | .size4Bit =>
    let val := (memory (s.currentAddress >>> 1)).setWidth 16
    if s.currentAddress &&& 1#32 ≠ 0#32 then val &&& 0xf else val >>> 4
  | .size8Bit => (memory s.currentAddress).setWidth 16
  | .size16Bit =>
    ((memory (s.currentAddress * 2#32)).setWidth 16) <<< 8 |||
      (memory (s.currentAddress * 2#32 + 1#32)).setWidth 16
  | .sizeInvalid => 0

/-- The address after a raw read. -/
def rawStep (s : Accelerator) : BitVec 32 :=
  if s.sampleFormat.size ≠ .sizeInvalid then s.currentAddress + 1#32
  else (s.currentAddress &&& ~~~3#32) ||| ((s.currentAddress + 1#32) &&& 3#32)

def readRaw (s : Accelerator) : Accessed :=
  let val := s.getCurrentSample memory
  let address := s.rawStep
  if address - 1#32 = s.endAddress then ⟨val, true, s.setCurrentAddress s.startAddress⟩
  else ⟨val, false, s.setCurrentAddress address⟩

/-- What a raw write does to the accelerator itself. -/
def writeRaw (s : Accelerator) : Accelerator :=
  if s.currentAddress &&& 0x80000000#32 ≠ 0#32 then { s with currentAddress := s.currentAddress + 1#32 }
  else s

/-- The sample before it is decoded. -/
def rawSample (s : Accelerator) : BitVec 16 :=
  match s.sampleFormat.decode with
  | .mmioPcmNoInc | .mmioPcmInc => s.input
  | .adpcm | .pcm => s.getCurrentSample memory

/-- The coefficient `0` or `1` of the pair that the predictor selects. -/
def coef (s : Accelerator) (coefs : ℕ → BitVec 16) (i : ℕ) : BitVec 32 :=
  let coefIdx := ((s.predScale >>> 4) &&& 0x7).toNat
  (coefs (coefIdx * 2 + i)).signExtend 32

def adpcmValue (s : Accelerator) (coefs : ℕ → BitVec 16) (rawSample : BitVec 16) : BitVec 16 :=
  let nibble := rawSample &&& 0xf
  let scale := 1#32 <<< (s.predScale &&& 0xf).toNat
  let signed := if 8 ≤ nibble.toNat then nibble - 16 else nibble
  let val32 := scale * signed.signExtend 32 +
    (0x400 + s.coef coefs 0 * s.yn1.signExtend 32 + s.coef coefs 1 * s.yn2.signExtend 32).sshiftRight 11
  BitVec.ofInt 16 (max (-0x7fff) (min val32.toInt 0x7fff))

/-- A sample with the gain of the accelerator. -/
def gained (s : Accelerator) (rawSample : BitVec 16) : BitVec 32 :=
  (s.gain.signExtend 32 * rawSample.signExtend 32).sshiftRight s.sampleFormat.gainShift

def pcmValue (s : Accelerator) (coefs : ℕ → BitVec 16) (rawSample : BitVec 16) : BitVec 16 :=
  (s.gained rawSample +
    ((s.coef coefs 0 * s.yn1.signExtend 32).sshiftRight s.sampleFormat.gainShift +
      (s.coef coefs 1 * s.yn2.signExtend 32).sshiftRight s.sampleFormat.gainShift)).setWidth 16

def sampleValue (s : Accelerator) (coefs : ℕ → BitVec 16) : BitVec 16 :=
  match s.sampleFormat.decode with
  | .adpcm => s.adpcmValue coefs (s.rawSample memory)
  | .mmioPcmNoInc | .pcm | .mmioPcmInc => s.pcmValue coefs (s.rawSample memory)

/-- The address after a sample, the step size that the check for a loop expects, and the predictor. -/
structure Advanced where
  address : BitVec 32
  stepSize : BitVec 32
  predScale : BitVec 16

/-- The address goes on by one, over the header of the next frame, too. At an end address that is the
first or the second one of a frame the end is reached before the header is. -/
def adpcmAdvance (s : Accelerator) : Advanced :=
  let address := s.currentAddress + 1#32
  if s.endAddress &&& 15#32 = 0#32 ∧ address = s.endAddress then ⟨s.startAddress + 1#32, 2#32, s.predScale⟩
  else if s.endAddress &&& 15#32 = 1#32 ∧ address = s.endAddress - 1#32 then ⟨s.startAddress, 2#32, s.predScale⟩
  else if address &&& 15#32 = 0#32 then
    ⟨address + 2#32, 4#32, (memory ((address &&& ~~~15#32) >>> 1)).setWidth 16⟩
  else ⟨address, 2, s.predScale⟩

def advance (s : Accelerator) : Advanced :=
  match s.sampleFormat.decode with
  | .adpcm => s.adpcmAdvance memory
  | .mmioPcmNoInc => ⟨s.currentAddress, 2#32, s.predScale⟩
  | .pcm | .mmioPcmInc => ⟨s.currentAddress + 1#32, 2#32, s.predScale⟩

def readSample (s : Accelerator) (coefs : ℕ → BitVec 16) : Accessed :=
  if s.readsStopped then ⟨0, false, s⟩
  else
    let val := s.sampleValue memory coefs
    let advanced := s.advance memory
    let s' := { s with yn2 := s.yn1, yn1 := val, predScale := advanced.predScale }
    -- the check for a loop
    if advanced.address = s.endAddress + advanced.stepSize - 1#32 then
      ⟨val, true, { s' with readsStopped := true }.setCurrentAddress s.startAddress⟩
    else ⟨val, false, s'.setCurrentAddress advanced.address⟩

end

/-! ## Operations -/

/-- An operation on the accelerator. A read of a sample comes with the coefficients. -/
inductive Operation
  | readSample (coefs : ℕ → BitVec 16)
  | readRaw
  | setYn2 (yn2 : BitVec 16)
  | setSampleFormat (format : BitVec 16)

def apply (memory : BitVec 32 → BitVec 8) (s : Accelerator) : Operation → Accessed
  | .readSample coefs => s.readSample memory coefs
  | .readRaw => s.readRaw memory
  | .setYn2 yn2 => ⟨0, false, s.setYn2 yn2⟩
  | .setSampleFormat format => ⟨0, false, s.setSampleFormat format⟩

end Accelerator

end DSP
