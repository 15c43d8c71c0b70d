import PrimedSteam.Lib.ByteOrder
import Mathlib.Data.BitVec

/-!
# Accesses to the hardware

`ReadFromHardware` and `WriteToHardware` with the data cache off: an access that crosses a page is split,
its address is translated, and the physical address selects a device or one of the arrays of memory.
-/

set_option autoImplicit false

namespace PowerPC

open ByteOrder

inductive XCheckTLBFlag
  | noException
  | read
  | write
  | opcode
  | opcodeNoException
  deriving DecidableEq

def XCheckTLBFlag.isOpcodeFlag (flag : XCheckTLBFlag) : Bool :=
  flag = .opcode || flag = .opcodeNoException

/-- The arrays of guest memory. -/
inductive MemoryRegion
  | l1Cache
  | ram
  | exram
  | fakeVMem
  deriving DecidableEq

/-- What an access does apart from reading and writing memory. -/
inductive AccessEvent
  | dsiException (address : BitVec 32) (write : Bool)
  | gatherPipe (size : ℕ) (data : BitVec 32)
  | efbRead (address : BitVec 32)
  | efbWrite (data address : BitVec 32)
  | mmioRead (size : ℕ) (address : BitVec 32)
  | mmioWrite (size : ℕ) (address data : BitVec 32)
  | processorInterrupt
  | unresolved (address : BitVec 32) (write : Bool)
  deriving DecidableEq

/-- Guest memory, and the events so far. -/
structure AccessState where
  mem : MemoryRegion → BitVec 32 → BitVec 8
  events : List AccessEvent

namespace AccessState

variable (s : AccessState)

def emit (e : AccessEvent) : AccessState :=
  { s with events := s.events ++ [e] }

/-- `memcpy` of `n` bytes into an array. -/
def memcpy (region : MemoryRegion) (index : BitVec 32) (n : ℕ) (bytes : ℕ → BitVec 8) : AccessState :=
  { s with
    mem := fun r i =>
      if r = region ∧ index.toNat ≤ i.toNat ∧ i.toNat < index.toNat + n then bytes (i.toNat - index.toNat)
      else s.mem r i }

/-- The value that `memcpy` of `n` bytes from an array gives. -/
def load (region : MemoryRegion) (index : BitVec 32) (n : ℕ) : ℕ :=
  littleEndian ((List.range n).map fun i => s.mem region (index + BitVec.ofNat 32 i))

end AccessState

/-- The registers, the tables and the sizes that an access reads. The arrays of memory that are masked consist
of pages. -/
structure Hardware where
  /-- `msr.DR` -/
  dr : Bool
  /-- `msr.IR` -/
  ir : Bool
  /-- `TranslateAddress`, page by page: the physical page, and whether it is written through or inhibited. -/
  translatePage : XCheckTLBFlag → BitVec 20 → Option (BitVec 20 × Bool)
  hasL1Cache : Bool
  l1CacheSize : BitVec 32
  hasRam : Bool
  ramMask : BitVec 32
  ramMask_page : ramMask.toNat % 4096 = 4095
  hasExRam : Bool
  exRamSizeReal : BitVec 32
  hasFakeVMem : Bool
  fakeVMemMask : BitVec 32
  fakeVMemMask_page : fakeVMemMask.toNat % 4096 = 4095
  /-- `EFB_Read` -/
  efbRead : BitVec 32 → BitVec 32
  /-- `GetMMIOMapping()->Read` of a number of bytes -/
  mmioRead : ℕ → BitVec 32 → ℕ

/-- The page of an address, with the offset cleared. -/
def pageStart (address : BitVec 32) : BitVec 32 :=
  address &&& ~~~0xFFF#32

/-- `swap32` -/
def swap32 (x : BitVec 32) : BitVec 32 :=
  byteOf x 0 ++ byteOf x 1 ++ byteOf x 2 ++ byteOf x 3

namespace Hardware

variable (hw : Hardware)

def translateAddress (flag : XCheckTLBFlag) (address : BitVec 32) : Option (BitVec 32 × Bool) :=
  (hw.translatePage flag (address.extractLsb' 12 20)).map fun (page, wi) =>
    (page ++ address.extractLsb' 0 12, wi)

/-- The physical address of an access, and whether it is written through or inhibited. -/
def physicalAddress (flag : XCheckTLBFlag) (neverTranslate : Bool) (address : BitVec 32) :
    Option (BitVec 32 × Bool) :=
  if !neverTranslate && (if flag.isOpcodeFlag then hw.ir else hw.dr) then hw.translateAddress flag address
  else some (address, false)

/-! ## The arrays of a physical address -/

def InL1Cache (address : BitVec 32) : Prop :=
  hw.hasL1Cache ∧ address >>> 28 = 0xE#32 ∧ address < 0xE0000000#32 + hw.l1CacheSize

def InRam (address : BitVec 32) : Prop :=
  hw.hasRam ∧ address &&& 0xF8000000#32 = 0x00000000#32

def InExRam (address : BitVec 32) : Prop :=
  hw.hasExRam ∧ address >>> 28 = 0x1#32 ∧ address &&& 0x0FFFFFFF#32 < hw.exRamSizeReal

def InFakeVMem (address : BitVec 32) : Prop :=
  hw.hasFakeVMem ∧ address &&& 0xFE000000#32 = 0x7E000000#32

instance (address : BitVec 32) : Decidable (hw.InL1Cache address) := inferInstanceAs (Decidable (_ ∧ _))

instance (address : BitVec 32) : Decidable (hw.InRam address) := inferInstanceAs (Decidable (_ ∧ _))

instance (address : BitVec 32) : Decidable (hw.InExRam address) := inferInstanceAs (Decidable (_ ∧ _))

instance (address : BitVec 32) : Decidable (hw.InFakeVMem address) := inferInstanceAs (Decidable (_ ∧ _))

/-! ## Reads -/

/-- The part of `ReadFromHardware` after the translation, for a type of `n` bytes. -/
def readPhysical (flag : XCheckTLBFlag) (n : ℕ) (address : BitVec 32) (s : AccessState) : ℕ × AccessState :=
  if flag = .read ∧ address &&& 0xF8000000#32 = 0x08000000#32 then
    if address < 0x0c000000#32 then ((hw.efbRead address).toNat % 256 ^ n, s.emit (.efbRead address))
    else (hw.mmioRead n address % 256 ^ n, s.emit (.mmioRead n address))
  else if hw.InL1Cache address then (bswap n (s.load .l1Cache (address &&& 0x0FFFFFFF#32) n), s)
  else if hw.InRam address then (bswap n (s.load .ram (address &&& hw.ramMask) n), s)
  else if hw.InExRam address then (bswap n (s.load .exram (address &&& 0x0FFFFFFF#32) n), s)
  else if hw.InFakeVMem address then (bswap n (s.load .fakeVMem (address &&& hw.fakeVMemMask) n), s)
  else (0, s.emit (.unresolved address false))

/-- `ReadFromHardware` in a page -/
def readInPage (flag : XCheckTLBFlag) (neverTranslate : Bool) (n : ℕ) (address : BitVec 32) (s : AccessState) :
    ℕ × AccessState :=
  match hw.physicalAddress flag neverTranslate address with
  | none => (0, if flag = .read then s.emit (.dsiException address false) else s)
  | some (address, _) => hw.readPhysical flag n address s

/-- `ReadFromHardware` of a type of `n` bytes. The reads of one byte do not cross a page. -/
def readFromHardware (flag : XCheckTLBFlag) (neverTranslate : Bool) (n : ℕ) (address : BitVec 32)
    (s : AccessState) : ℕ × AccessState :=
  if pageStart address ≠ pageStart (address + BitVec.ofNat 32 n - 1) then
    (List.range n).foldl (fun (var, s) i =>
      let (byte, s) := hw.readInPage flag neverTranslate 1 (address + BitVec.ofNat 32 i) s
      ((var <<< 8) % 256 ^ n ||| byte, s)) (0, s)
  else hw.readInPage flag neverTranslate n address s

/-! ## Writes -/

/-- The bytes of a misaligned write to the gather pipe. -/
def gatherPipeBytes (data : BitVec 32) (size : ℕ) : List AccessEvent :=
  (List.range size).map fun i => .gatherPipe 1 (data >>> ((size - 1 - i) * 8) &&& 0xFF#32)

def writeGatherPipe (data size : BitVec 32) (s : AccessState) : AccessState :=
  if size = 1#32 then s.emit (.gatherPipe 1 (data &&& 0xFF#32))
  else if size = 2#32 then s.emit (.gatherPipe 2 (data &&& 0xFFFF#32))
  else if size = 4#32 then s.emit (.gatherPipe 4 data)
  else { s with events := s.events ++ gatherPipeBytes data size.toNat }

def mmioBytes (address data : BitVec 32) (size : ℕ) : List AccessEvent :=
  (List.range size).map fun i =>
    .mmioWrite 1 (address + BitVec.ofNat 32 i) (data >>> ((size - 1 - i) * 8) &&& 0xFF#32)

def writeMmio (address data size : BitVec 32) (s : AccessState) : AccessState :=
  if size = 1#32 then s.emit (.mmioWrite 1 address (data &&& 0xFF#32))
  else if size = 2#32 then s.emit (.mmioWrite 2 address (data &&& 0xFFFF#32))
  else if size = 4#32 then s.emit (.mmioWrite 4 address data)
  else { s with events := s.events ++ mmioBytes address data size.toNat }

/-- `swapped_data`: its first `size` bytes in the memory of the host are the ones that are stored. -/
def swappedData (data size : BitVec 32) : BitVec 32 :=
  swap32 (data.rotateRight (size.toNat * 8))

/-- The starts of the eight bytes from `startAddr` to `endAddr`. -/
def duplicatedAddresses (startAddr endAddr : BitVec 32) : List (BitVec 32) :=
  (List.range ((endAddr - startAddr).toNat / 8)).map fun i => startAddr + BitVec.ofNat 32 (8 * i)

/-- The part of `WriteToHardware` after the translation; `write` is `WriteToHardware` of four bytes without
translation. -/
def writePhysical (write : BitVec 32 → BitVec 32 → AccessState → Option AccessState) (flag : XCheckTLBFlag)
    (address data size : BitVec 32) (wi : Bool) (s : AccessState) : Option AccessState :=
  if flag = .write ∧ address &&& 0xFFFFF000#32 = 0x0C008000#32 then some (writeGatherPipe data size s)
  else if flag = .write ∧ address &&& 0xF8000000#32 = 0x08000000#32 then
    if address < 0x0c000000#32 then some (s.emit (.efbWrite data address))
    else some (writeMmio address data size s)
  else if hw.InL1Cache address then
    some (s.memcpy .l1Cache (address &&& 0x0FFFFFFF#32) size.toNat (byteOf (swappedData data size)))
  else if wi ∧ (size < 4#32 ∨ address &&& 0x3#32 ≠ 0#32) then
    let rotatedData := data.rotateRight (((address &&& 0x3#32) + size) * 8#32).toNat
    let startAddr := address - address % 8#32
    let endAddr := address + size + 7#32 - (address + size + 7#32) % 8#32
    (duplicatedAddresses startAddr endAddr).foldlM (fun s addr =>
      (write addr rotatedData s).bind (write (addr + 4#32) rotatedData)) (s.emit .processorInterrupt)
  else if hw.InRam address then
    some (s.memcpy .ram (address &&& hw.ramMask) size.toNat (byteOf (swappedData data size)))
  else if hw.InExRam address then
    some (s.memcpy .exram (address &&& 0x0FFFFFFF#32) size.toNat (byteOf (swappedData data size)))
  else if hw.InFakeVMem address then
    some (s.memcpy .fakeVMem (address &&& hw.fakeVMemMask) size.toNat (byteOf (swappedData data size)))
  else some (s.emit (.unresolved address true))

/-- `WriteToHardware`, with a bound on the depth of its calls of itself. -/
def writeToHardware (flag : XCheckTLBFlag) : (depth : ℕ) → (neverTranslate : Bool) →
    (address data size : BitVec 32) → AccessState → Option AccessState
  | 0, _, _, _, _, _ => none
  | depth + 1, neverTranslate, address, data, size, s =>
    let endPage := pageStart (address + size - 1)
    if pageStart address ≠ endPage then
      let firstHalfSize := endPage - address
      let secondHalfSize := size - firstHalfSize
      (writeToHardware flag depth neverTranslate address (data.rotateRight (secondHalfSize * 8#32).toNat)
        firstHalfSize s).bind (writeToHardware flag depth neverTranslate endPage data secondHalfSize)
    else
      match hw.physicalAddress flag neverTranslate address with
      | none => some (if flag = .write then s.emit (.dsiException address true) else s)
      | some (address, wi) =>
        hw.writePhysical (fun addr data => writeToHardware flag depth true addr data 4#32) flag address data
          size wi s

end Hardware

end PowerPC
