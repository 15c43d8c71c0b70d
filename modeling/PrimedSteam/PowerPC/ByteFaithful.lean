import PrimedSteam.PowerPC.HardwareAccess
import PrimedSteam.Lib.WordMasks

/-!
# The bytes of an access

An address of a cached page of memory stands for one byte of one array.

* `Hardware.cell`: the array and the index of the byte.
* `Hardware.cell_add`: the bytes of a page lie next to each other.
* **`accesses_byte_faithful`**: a write stores the bytes of its data in big-endian order and changes no
  other, and reads of any width put the bytes together in that order.
-/

set_option autoImplicit false

namespace PowerPC

open ByteOrder

/-! ## Bytes of rotated and swapped words -/

theorem getLsbD_byteOf {w : ℕ} (x : BitVec w) (j : ℕ) {i : ℕ} (hi : i < 8) :
    (byteOf x j).getLsbD i = x.getLsbD (8 * j + i) := by
  rw [byteOf, BitVec.getLsbD_extractLsb', decide_eq_true hi, Bool.true_and]

theorem byteOf_swap32 (x : BitVec 32) {j : ℕ} (hj : j < 4) : byteOf (swap32 x) j = byteOf x (3 - j) := by
  refine BitVec.eq_of_getLsbD_eq fun i hi => ?_
  rw [getLsbD_byteOf _ _ hi, swap32, BitVec.getLsbD_append, BitVec.getLsbD_append, BitVec.getLsbD_append]
  obtain rfl | rfl | rfl | rfl : j = 0 ∨ j = 1 ∨ j = 2 ∨ j = 3 := by omega
  · rw [if_pos (by omega), Nat.mul_zero, Nat.zero_add]
  · rw [if_neg (by omega), if_pos (by omega)]
    exact congrArg _ (by omega)
  · rw [if_neg (by omega), if_neg (by omega), if_pos (by omega)]
    exact congrArg _ (by omega)
  · rw [if_neg (by omega), if_neg (by omega), if_neg (by omega)]
    exact congrArg _ (by omega)

theorem byteOf_rotateRight (x : BitVec 32) {j k : ℕ} (hj : j < 4) :
    byteOf (x.rotateRight (k * 8)) j = byteOf x ((j + k) % 4) := by
  refine BitVec.eq_of_getLsbD_eq fun i hi => ?_
  rw [getLsbD_byteOf _ _ hi, getLsbD_byteOf _ _ hi, BitVec.getLsbD_rotateRight]
  by_cases hlow : 8 * j + i < 32 - k * 8 % 32
  · rw [decide_eq_true hlow, cond_true]
    exact congrArg _ (by omega)
  · rw [decide_eq_false hlow, cond_false, decide_eq_true (show 8 * j + i < 32 by omega), Bool.true_and]
    exact congrArg _ (by omega)

theorem byteOf_swappedData (data size : BitVec 32) {i : ℕ} (hi : i < size.toNat) (hsize : size.toNat ≤ 4) :
    byteOf (Hardware.swappedData data size) i = byteOf data (size.toNat - 1 - i) := by
  rw [Hardware.swappedData, byteOf_swap32 _ (by omega), byteOf_rotateRight _ (by omega)]
  exact congrArg _ (by omega)

/-! ## Pages -/

theorem toNat_pageStart (a : BitVec 32) : (pageStart a).toNat = a.toNat / 4096 * 4096 := by
  have hmask : (~~~0xFFF#32).toNat % 2 ^ 12 = 0 ∧ (~~~0xFFF#32).toNat / 2 ^ 12 = 2 ^ 20 - 1 := by decide
  have ha := a.isLt
  rw [pageStart, BitVec.toNat_and, WordMask.and_of_low_zeros hmask.1 hmask.2 (by omega)]
  omega

theorem toNat_add_ofNat {a : BitVec 32} {i : ℕ} (hi : a.toNat % 4096 + i < 4096) :
    (a + BitVec.ofNat 32 i).toNat = a.toNat + i := by
  have ha := a.isLt
  rw [BitVec.toNat_add, BitVec.toNat_ofNat]
  omega

/-- An access of `n` bytes crosses a page iff its last byte is not in the page of its first one. -/
theorem pageStart_eq_iff (a : BitVec 32) {n : ℕ} (hpos : 0 < n) (hn : n ≤ 4096) :
    pageStart a = pageStart (a + BitVec.ofNat 32 n - 1) ↔ a.toNat % 4096 + n ≤ 4096 := by
  have ha := a.isLt
  have hlast : (a + BitVec.ofNat 32 n - 1).toNat = (a.toNat + (n - 1)) % 2 ^ 32 := by
    have hone : (1 : BitVec 32).toNat = 1 := rfl
    rw [BitVec.toNat_sub, BitVec.toNat_add, BitVec.toNat_ofNat, hone]
    omega
  rw [← BitVec.toNat_inj, toNat_pageStart, toNat_pageStart, hlast]
  omega

namespace MemoryRegion

/-- The physical addresses of an array lie from here -/
def start : MemoryRegion → ℕ
  | l1Cache => 0xE0000000
  | ram => 0x00000000
  | exram => 0x10000000
  | fakeVMem => 0x7E000000

/-- to here. -/
def stop : MemoryRegion → ℕ
  | l1Cache => 0xF0000000
  | ram => 0x08000000
  | exram => 0x20000000
  | fakeVMem => 0x80000000

end MemoryRegion

namespace Hardware

variable (hw : Hardware)

def In : MemoryRegion → BitVec 32 → Prop
  | .l1Cache => hw.InL1Cache
  | .ram => hw.InRam
  | .exram => hw.InExRam
  | .fakeVMem => hw.InFakeVMem

def mask : MemoryRegion → BitVec 32
  | .l1Cache => 0x0FFFFFFF#32
  | .ram => hw.ramMask
  | .exram => 0x0FFFFFFF#32
  | .fakeVMem => hw.fakeVMemMask

/-- The array and the index of a physical address. -/
def locate (address : BitVec 32) : Option (MemoryRegion × BitVec 32) :=
  if hw.InL1Cache address then some (.l1Cache, address &&& 0x0FFFFFFF#32)
  else if hw.InRam address then some (.ram, address &&& hw.ramMask)
  else if hw.InExRam address then some (.exram, address &&& 0x0FFFFFFF#32)
  else if hw.InFakeVMem address then some (.fakeVMem, address &&& hw.fakeVMemMask)
  else none

/-- The byte of memory that an address of a cached page stands for. -/
def cell (flag : XCheckTLBFlag) (neverTranslate : Bool) (address : BitVec 32) :
    Option (MemoryRegion × BitVec 32) :=
  (hw.physicalAddress flag neverTranslate address).bind fun (address, wi) =>
    if wi then none else hw.locate address

/-- The byte at an address. -/
def byteAt (flag : XCheckTLBFlag) (neverTranslate : Bool) (s : AccessState) (address : BitVec 32) : BitVec 8 :=
  match hw.cell flag neverTranslate address with
  | some (region, index) => s.mem region index
  | none => 0

variable {hw : Hardware} {r r' : MemoryRegion} {p q a : BitVec 32} {i n : ℕ} {flag : XCheckTLBFlag}
  {neverTranslate : Bool}

/-! ## Where a physical address lies -/

theorem mask_page (r : MemoryRegion) : (hw.mask r).toNat % 2 ^ 12 = 2 ^ 12 - 1 := by
  cases r with
  | l1Cache => exact show (0x0FFFFFFF#32).toNat % 2 ^ 12 = 2 ^ 12 - 1 by decide
  | ram => exact hw.ramMask_page
  | exram => exact show (0x0FFFFFFF#32).toNat % 2 ^ 12 = 2 ^ 12 - 1 by decide
  | fakeVMem => exact hw.fakeVMemMask_page

theorem in_bounds (h : hw.In r p) : r.start ≤ p.toNat ∧ p.toNat < r.stop := by
  have hp := p.isLt
  cases r with
  | l1Cache =>
    have hshift := congrArg BitVec.toNat h.2.1
    rw [BitVec.toNat_ushiftRight, Nat.shiftRight_eq_div_pow] at hshift
    change _ = 14 at hshift
    change 0xE0000000 ≤ p.toNat ∧ p.toNat < 0xF0000000
    omega
  | ram =>
    have hand := congrArg BitVec.toNat h.2
    rw [BitVec.toNat_and, WordMask.and_of_low_zeros (show _ % 2 ^ 27 = 0 by rfl)
      (show _ / 2 ^ 27 = 2 ^ 5 - 1 by rfl) (by omega)] at hand
    change _ = 0 at hand
    change 0x00000000 ≤ p.toNat ∧ p.toNat < 0x08000000
    omega
  | exram =>
    have hshift := congrArg BitVec.toNat h.2.1
    rw [BitVec.toNat_ushiftRight, Nat.shiftRight_eq_div_pow] at hshift
    change _ = 1 at hshift
    change 0x10000000 ≤ p.toNat ∧ p.toNat < 0x20000000
    omega
  | fakeVMem =>
    have hand := congrArg BitVec.toNat h.2
    rw [BitVec.toNat_and, WordMask.and_of_low_zeros (show _ % 2 ^ 25 = 0 by rfl)
      (show _ / 2 ^ 25 = 2 ^ 7 - 1 by rfl) (by omega)] at hand
    change _ = 0x7E000000 at hand
    change 0x7E000000 ≤ p.toNat ∧ p.toNat < 0x80000000
    omega

theorem region_unique (h : hw.In r p) (h' : hw.In r' q) (hpage : p.toNat / 4096 = q.toNat / 4096) : r = r' := by
  have hp := in_bounds h
  have hq := in_bounds h'
  cases r <;> cases r' <;> simp only [MemoryRegion.start, MemoryRegion.stop] at hp hq <;> first
    | rfl
    | omega

/-- The checks of the arrays one after the other select the one of the address. -/
theorem select_of_in {α : Type*} (value : MemoryRegion → α) (other : α) (h : hw.In r p) :
    (if hw.InL1Cache p then value .l1Cache
      else if hw.InRam p then value .ram
      else if hw.InExRam p then value .exram
      else if hw.InFakeVMem p then value .fakeVMem
      else other) = value r := by
  have hne : ∀ r', r' ≠ r → ¬hw.In r' p := fun r' hr h' => hr (region_unique h' h rfl)
  have hl1 : r ≠ .l1Cache → ¬hw.InL1Cache p := fun hr => hne .l1Cache hr.symm
  have hram : r ≠ .ram → ¬hw.InRam p := fun hr => hne .ram hr.symm
  have hexram : r ≠ .exram → ¬hw.InExRam p := fun hr => hne .exram hr.symm
  cases r with
  | l1Cache => exact if_pos h
  | ram => rw [if_neg (hl1 (by decide)), if_pos (show hw.InRam p from h)]
  | exram => rw [if_neg (hl1 (by decide)), if_neg (hram (by decide)), if_pos (show hw.InExRam p from h)]
  | fakeVMem =>
    rw [if_neg (hl1 (by decide)), if_neg (hram (by decide)), if_neg (hexram (by decide)),
      if_pos (show hw.InFakeVMem p from h)]

theorem locate_of_in (h : hw.In r p) : hw.locate p = some (r, p &&& hw.mask r) :=
  select_of_in (fun r => some (r, p &&& hw.mask r)) none h

theorem in_of_locate {index : BitVec 32} (h : hw.locate p = some (r, index)) :
    hw.In r p ∧ index = p &&& hw.mask r := by
  have hin : ∃ r', hw.In r' p := by
    by_contra hnone
    rw [not_exists] at hnone
    rw [locate, if_neg (show ¬hw.InL1Cache p from hnone .l1Cache), if_neg (show ¬hw.InRam p from hnone .ram),
      if_neg (show ¬hw.InExRam p from hnone .exram), if_neg (show ¬hw.InFakeVMem p from hnone .fakeVMem)] at h
    cases h
  obtain ⟨r', hr'⟩ := hin
  have heq := (locate_of_in hr').symm.trans h
  rw [Option.some_inj, Prod.mk_inj] at heq
  obtain ⟨rfl, rfl⟩ := heq
  exact ⟨hr', rfl⟩

/-- The bytes of a page have the same array, and their indices go up with the address. -/
theorem locate_add {index : BitVec 32} (h : hw.locate p = some (r, index)) (hi : p.toNat % 4096 + i < 4096)
    (hlocated : (hw.locate (p + BitVec.ofNat 32 i)).isSome) :
    hw.locate (p + BitVec.ofNat 32 i) = some (r, index + BitVec.ofNat 32 i) := by
  obtain ⟨⟨r', index'⟩, hlocate⟩ := Option.isSome_iff_exists.mp hlocated
  obtain ⟨hin, rfl⟩ := in_of_locate h
  obtain ⟨hin', rfl⟩ := in_of_locate hlocate
  have hadd := toNat_add_ofNat hi
  have hr : r' = r := region_unique hin' hin (by omega)
  have hmask := @mask_page hw r
  have hindex : (p &&& hw.mask r).toNat % 2 ^ 12 = p.toNat % 2 ^ 12 := by
    rw [BitVec.toNat_and]
    exact WordMask.and_mod hmask
  rw [hlocate, hr, Option.some_inj, Prod.mk_inj]
  refine ⟨rfl, BitVec.eq_of_toNat_eq ?_⟩
  rw [toNat_add_ofNat (by omega), BitVec.toNat_and, BitVec.toNat_and, hadd]
  exact WordMask.and_add hmask hi

theorem locate_offset {index : BitVec 32} (h : hw.locate p = some (r, index)) :
    index.toNat % 4096 = p.toNat % 4096 := by
  rw [(in_of_locate h).2, BitVec.toNat_and]
  exact WordMask.and_mod (mask_page r)

/-! ## The byte of an address -/

theorem toNat_append_offset (page : BitVec 20) (offset : BitVec 12) :
    (page ++ offset).toNat = page.toNat * 4096 + offset.toNat := by
  rw [BitVec.toNat_append, ← Nat.shiftLeft_add_eq_or_of_lt offset.isLt, Nat.shiftLeft_eq]

theorem physicalAddress_offset {wi : Bool} (h : hw.physicalAddress flag neverTranslate a = some (p, wi)) :
    p.toNat % 4096 = a.toNat % 4096 := by
  rw [physicalAddress] at h
  by_cases hon : (!neverTranslate && if flag.isOpcodeFlag then hw.ir else hw.dr) = true
  · rw [if_pos hon, translateAddress, Option.map_eq_some_iff] at h
    obtain ⟨⟨page, wi'⟩, -, heq⟩ := h
    have hp : page ++ a.extractLsb' 0 12 = p := congrArg Prod.fst heq
    rw [← hp, toNat_append_offset, BitVec.extractLsb'_toNat]
    omega
  · rw [if_neg hon] at h
    cases h
    rfl

theorem physicalAddress_add (hi : a.toNat % 4096 + i < 4096) :
    hw.physicalAddress flag neverTranslate (a + BitVec.ofNat 32 i) =
      (hw.physicalAddress flag neverTranslate a).map fun (p, wi) => (p + BitVec.ofNat 32 i, wi) := by
  have hadd := toNat_add_ofNat hi
  have ha := a.isLt
  rw [physicalAddress, physicalAddress]
  by_cases hon : (!neverTranslate && if flag.isOpcodeFlag then hw.ir else hw.dr) = true
  · have hpage : (a + BitVec.ofNat 32 i).extractLsb' 12 20 = a.extractLsb' 12 20 := by
      apply BitVec.eq_of_toNat_eq
      rw [BitVec.extractLsb'_toNat, BitVec.extractLsb'_toNat, hadd, Nat.shiftRight_eq_div_pow,
        Nat.shiftRight_eq_div_pow]
      omega
    have hoffset : ∀ page : BitVec 20, page ++ (a + BitVec.ofNat 32 i).extractLsb' 0 12 =
        page ++ a.extractLsb' 0 12 + BitVec.ofNat 32 i := by
      intro page
      have hlow : (page ++ a.extractLsb' 0 12).toNat = page.toNat * 4096 + a.toNat % 4096 := by
        rw [toNat_append_offset, BitVec.extractLsb'_toNat]
        rfl
      apply BitVec.eq_of_toNat_eq
      rw [toNat_append_offset, BitVec.extractLsb'_toNat, hadd]
      refine Eq.trans ?_ (toNat_add_ofNat (a := page ++ a.extractLsb' 0 12) (by omega)).symm
      rw [hlow, Nat.shiftRight_zero]
      omega
    rw [if_pos hon, if_pos hon, translateAddress, translateAddress, hpage, Option.map_map]
    exact Option.map_congr fun x _ => Prod.ext (hoffset x.1) rfl
  · rw [if_neg hon, if_neg hon]
    rfl

theorem cell_eq_some_iff {c : MemoryRegion × BitVec 32} : hw.cell flag neverTranslate a = some c ↔
    ∃ p, hw.physicalAddress flag neverTranslate a = some (p, false) ∧ hw.locate p = some c := by
  rw [cell, Option.bind_eq_some_iff]
  constructor
  · rintro ⟨⟨p, wi⟩, hp, h⟩
    cases wi with
    | false => exact ⟨p, hp, h⟩
    | true => cases h
  · rintro ⟨p, hp, h⟩
    exact ⟨(p, false), hp, h⟩

theorem cell_offset {index : BitVec 32} (h : hw.cell flag neverTranslate a = some (r, index)) :
    index.toNat % 4096 = a.toNat % 4096 := by
  obtain ⟨p, hp, hlocate⟩ := cell_eq_some_iff.mp h
  rw [locate_offset hlocate, physicalAddress_offset hp]

theorem cell_add {index : BitVec 32} (h : hw.cell flag neverTranslate a = some (r, index))
    (hi : a.toNat % 4096 + i < 4096) (hcell : (hw.cell flag neverTranslate (a + BitVec.ofNat 32 i)).isSome) :
    hw.cell flag neverTranslate (a + BitVec.ofNat 32 i) = some (r, index + BitVec.ofNat 32 i) := by
  obtain ⟨p, hp, hlocate⟩ := cell_eq_some_iff.mp h
  obtain ⟨c, hc⟩ := Option.isSome_iff_exists.mp hcell
  obtain ⟨p', hp', hlocate'⟩ := cell_eq_some_iff.mp hc
  have hoffset := physicalAddress_offset hp
  have heq : p + BitVec.ofNat 32 i = p' := by
    rw [physicalAddress_add hi, hp] at hp'
    exact congrArg Prod.fst (Option.some_inj.mp hp')
  have hadd := locate_add (i := i) hlocate (by omega) (by
    rw [heq, hlocate']
    rfl)
  rw [heq] at hadd
  rw [hc, ← hlocate', hadd]

/-! ## Writes -/

/-- A write stored the bytes `bytes` at `n` addresses, and did nothing else. -/
structure Stored (hw : Hardware) (flag : XCheckTLBFlag) (neverTranslate : Bool) (a : BitVec 32) (n : ℕ)
    (bytes : ℕ → BitVec 8) (s s' : AccessState) : Prop where
  stored : ∀ i < n, ∀ r index, hw.cell flag neverTranslate (a + BitVec.ofNat 32 i) = some (r, index) →
    s'.mem r index = bytes i
  others : ∀ r index, (∀ i < n, hw.cell flag neverTranslate (a + BitVec.ofNat 32 i) ≠ some (r, index)) →
    s'.mem r index = s.mem r index
  events : s'.events = s.events

theorem no_device {high address : BitVec 32} (h : hw.In r p) (hand : p &&& high = address)
    (hhigh : 0x08000000 ≤ address.toNat) (haddress : address.toNat < 0x10000000)
    (hmask : high.toNat / 2 ^ 27 = 2 ^ 5 - 1) : False := by
  have hbounds := in_bounds h
  have hp := p.isLt
  have hdiv : p.toNat / 2 ^ 27 = address.toNat / 2 ^ 27 := by
    rw [← hand, BitVec.toNat_and, Nat.and_div_two_pow, hmask, Nat.and_two_pow_sub_one_eq_mod]
    omega
  cases r <;> simp only [MemoryRegion.start, MemoryRegion.stop] at hbounds <;> omega

theorem writePhysical_of_in (write : BitVec 32 → BitVec 32 → AccessState → Option AccessState)
    (data size : BitVec 32) (s : AccessState) (h : hw.In r p) :
    hw.writePhysical write flag p data size false s =
      some (s.memcpy r (p &&& hw.mask r) size.toNat (byteOf (swappedData data size))) := by
  have hgather : ¬(flag = .write ∧ p &&& 0xFFFFF000#32 = 0x0C008000#32) := fun h' =>
    no_device h h'.2 (by decide) (by decide) (by decide)
  have hdevice : ¬(flag = .write ∧ p &&& 0xF8000000#32 = 0x08000000#32) := fun h' =>
    no_device h h'.2 (by decide) (by decide) (by decide)
  rw [writePhysical, if_neg hgather, if_neg hdevice, if_neg (show ¬(false = true ∧ _) from fun h => by cases h.1)]
  exact select_of_in
    (fun r => some (s.memcpy r (p &&& hw.mask r) size.toNat (byteOf (swappedData data size)))) _ h

theorem readPhysical_of_in (s : AccessState) (h : hw.In r p) :
    hw.readPhysical flag n p s = (bswap n (s.load r (p &&& hw.mask r) n), s) := by
  have hdevice : ¬(flag = .read ∧ p &&& 0xF8000000#32 = 0x08000000#32) := fun h' =>
    no_device h h'.2 (by decide) (by decide) (by decide)
  rw [readPhysical, if_neg hdevice]
  exact select_of_in (fun r => (bswap n (s.load r (p &&& hw.mask r) n), s)) _ h

variable {s s' s'' : AccessState} {data size : BitVec 32} {n' : ℕ} {bytes bytes' : ℕ → BitVec 8}

theorem stored_memcpy {index : BitVec 32} (hcell : hw.cell flag neverTranslate a = some (r, index))
    (hpage : a.toNat % 4096 + n ≤ 4096)
    (hmapped : ∀ i < n, (hw.cell flag neverTranslate (a + BitVec.ofNat 32 i)).isSome) :
    Stored hw flag neverTranslate a n bytes s (s.memcpy r index n bytes) := by
  have hoffset := cell_offset hcell
  have hadd : ∀ i < n, hw.cell flag neverTranslate (a + BitVec.ofNat 32 i) =
      some (r, index + BitVec.ofNat 32 i) := fun i hi => cell_add hcell (by omega) (hmapped i hi)
  refine ⟨fun i hi r' index' h => ?_, fun r' index' h => ?_, rfl⟩
  · rw [hadd i hi, Option.some_inj, Prod.mk_inj] at h
    obtain ⟨rfl, rfl⟩ := h
    have hnat : (index + BitVec.ofNat 32 i).toNat = index.toNat + i := toNat_add_ofNat (by omega)
    have hin : r = r ∧ index.toNat ≤ (index + BitVec.ofNat 32 i).toNat ∧
        (index + BitVec.ofNat 32 i).toNat < index.toNat + n := ⟨rfl, by omega, by omega⟩
    rw [AccessState.memcpy]
    dsimp only
    rw [if_pos hin, hnat, Nat.add_sub_cancel_left]
  · have hout : ¬(r' = r ∧ index.toNat ≤ index'.toNat ∧ index'.toNat < index.toNat + n) := by
      rintro ⟨rfl, hle, hlt⟩
      refine h (index'.toNat - index.toNat) (by omega) ?_
      rw [hadd _ (by omega)]
      refine congrArg (fun j => some (r', j)) (BitVec.eq_of_toNat_eq ?_)
      rw [toNat_add_ofNat (by omega)]
      omega
    exact if_neg hout

theorem cell_ne {i' : ℕ} {c : MemoryRegion × BitVec 32} (hlt : i < i') (hn : i' < 4096)
    (h : hw.cell flag neverTranslate (a + BitVec.ofNat 32 i) = some c) :
    hw.cell flag neverTranslate (a + BitVec.ofNat 32 i') ≠ some c := by
  intro h'
  have hoffset := cell_offset h
  have hoffset' := cell_offset h'
  rw [BitVec.toNat_add, BitVec.toNat_ofNat] at hoffset hoffset'
  omega

theorem Stored.append (hn : n + n' < 4096) (h : Stored hw flag neverTranslate a n bytes s s')
    (h' : Stored hw flag neverTranslate (a + BitVec.ofNat 32 n) n' bytes' s' s'') :
    Stored hw flag neverTranslate a (n + n') (fun i => if i < n then bytes i else bytes' (i - n)) s s'' := by
  have hsplit : ∀ i, a + BitVec.ofNat 32 n + BitVec.ofNat 32 i = a + BitVec.ofNat 32 (n + i) := by
    intro i
    rw [BitVec.ofNat_add, BitVec.add_assoc]
  refine ⟨fun i hi r index hcell => ?_, fun r index hcells => ?_, h'.events.trans h.events⟩
  · by_cases hfirst : i < n
    · have hsecond : ∀ k < n', hw.cell flag neverTranslate (a + BitVec.ofNat 32 n + BitVec.ofNat 32 k) ≠
          some (r, index) := by
        intro k hk
        rw [hsplit]
        exact cell_ne (by omega) (by omega) hcell
      rw [if_pos hfirst, h'.others r index hsecond]
      exact h.stored i hfirst r index hcell
    · have hi' : n + (i - n) = i := by omega
      rw [if_neg hfirst]
      refine h'.stored (i - n) (by omega) r index ?_
      rw [hsplit, hi', hcell]
  · have hsecond := h'.others r index fun k hk => by
      rw [hsplit]
      exact hcells (n + k) (by omega)
    exact hsecond.trans (h.others r index fun i hi => hcells i (by omega))

theorem Stored.congr (h : Stored hw flag neverTranslate a n bytes s s') (heq : ∀ i < n, bytes i = bytes' i) :
    Stored hw flag neverTranslate a n bytes' s s' :=
  ⟨fun i hi r index hcell => (h.stored i hi r index hcell).trans (heq i hi), h.others, h.events⟩

theorem writeToHardware_page (hpos : 0 < size.toNat) (hsize : size.toNat ≤ 4)
    (hpage : a.toNat % 4096 + size.toNat ≤ 4096)
    (hmapped : ∀ i < size.toNat, (hw.cell flag neverTranslate (a + BitVec.ofNat 32 i)).isSome)
    (s : AccessState) :
    ∃ s', (∀ depth, hw.writeToHardware flag (depth + 1) neverTranslate a data size s = some s') ∧
      Stored hw flag neverTranslate a size.toNat (fun i => byteOf data (size.toNat - 1 - i)) s s' := by
  obtain ⟨⟨r, index⟩, hcell⟩ := Option.isSome_iff_exists.mp (hmapped 0 hpos)
  rw [BitVec.add_zero] at hcell
  obtain ⟨p, hp, hlocate⟩ := cell_eq_some_iff.mp hcell
  obtain ⟨hin, rfl⟩ := in_of_locate hlocate
  have hsame : pageStart a = pageStart (a + size - 1) := by
    have hofNat : BitVec.ofNat 32 size.toNat = size := by rw [BitVec.ofNat_toNat, BitVec.setWidth_eq]
    have hiff := (pageStart_eq_iff a hpos (by omega)).mpr hpage
    rwa [hofNat] at hiff
  refine ⟨s.memcpy r (p &&& hw.mask r) size.toNat (byteOf (swappedData data size)), fun depth => ?_, ?_⟩
  · rw [writeToHardware]
    dsimp only
    rw [if_neg (not_not_intro hsame), hp]
    exact writePhysical_of_in _ data size s hin
  · refine (stored_memcpy hcell hpage hmapped).congr fun i hi => ?_
    exact byteOf_swappedData data size hi hsize

/-- **A write stores the bytes of its data**, also when it crosses a page or the end of the address space. -/
theorem writeToHardware_stored (hpos : 0 < size.toNat) (hsize : size.toNat ≤ 4)
    (hmapped : ∀ i < size.toNat, (hw.cell flag neverTranslate (a + BitVec.ofNat 32 i)).isSome)
    (s : AccessState) :
    ∃ s', (∀ depth, hw.writeToHardware flag (depth + 2) neverTranslate a data size s = some s') ∧
      Stored hw flag neverTranslate a size.toNat (fun i => byteOf data (size.toNat - 1 - i)) s s' := by
  by_cases hpage : a.toNat % 4096 + size.toNat ≤ 4096
  · obtain ⟨s', hwrite, hstored⟩ := @writeToHardware_page hw a flag neverTranslate data size hpos hsize
      hpage hmapped s
    exact ⟨s', fun depth => hwrite (depth + 1), hstored⟩
  have ha := a.isLt
  have hofNat : BitVec.ofNat 32 size.toNat = size := by rw [BitVec.ofNat_toNat, BitVec.setWidth_eq]
  have hcross : pageStart a ≠ pageStart (a + size - 1) := by
    have hiff := (pageStart_eq_iff a hpos (by omega)).not.mpr hpage
    rwa [hofNat] at hiff
  -- the first half goes up to the end of the page
  obtain ⟨first, hfirst⟩ : ∃ first, first = pageStart (a + size - 1) - a := ⟨_, rfl⟩
  have hend : pageStart (a + size - 1) = a + BitVec.ofNat 32 first.toNat := by
    rw [BitVec.ofNat_toNat, BitVec.setWidth_eq, hfirst]
    bv_omega
  have hfirstNat : first.toNat = 4096 - a.toNat % 4096 := by
    have hone : (1 : BitVec 32).toNat = 1 := rfl
    rw [hfirst, BitVec.toNat_sub, toNat_pageStart, BitVec.toNat_sub, BitVec.toNat_add, hone]
    omega
  have hsecondNat : (size - first).toNat = size.toNat - first.toNat := by
    rw [BitVec.toNat_sub]
    omega
  have hrotated : ((size - first) * 8#32).toNat = (size - first).toNat * 8 := by
    rw [BitVec.toNat_mul, BitVec.toNat_ofNat]
    omega
  obtain ⟨s₁, hwrite₁, hstored₁⟩ := @writeToHardware_page hw a flag neverTranslate
    (data.rotateRight ((size - first) * 8#32).toNat) first (by omega) (by omega) (by omega)
    (fun i hi => hmapped i (by omega)) s
  have hmapped₂ : ∀ i < (size - first).toNat,
      (hw.cell flag neverTranslate (a + BitVec.ofNat 32 first.toNat + BitVec.ofNat 32 i)).isSome := by
    intro i hi
    rw [BitVec.add_assoc, ← BitVec.ofNat_add]
    exact hmapped _ (by omega)
  have hstart : (a + BitVec.ofNat 32 first.toNat).toNat % 4096 = 0 := by
    rw [← hend, toNat_pageStart, Nat.mul_mod_left]
  obtain ⟨s₂, hwrite₂, hstored₂⟩ := @writeToHardware_page hw _ flag neverTranslate data _ (by omega) (by omega)
    (by omega) hmapped₂ s₁
  refine ⟨s₂, fun depth => ?_, ?_⟩
  · rw [writeToHardware]
    dsimp only
    rw [if_pos hcross, ← hfirst, hwrite₁, hend]
    exact hwrite₂ depth
  · have hsum : first.toNat + (size - first).toNat = size.toNat := by omega
    rw [← hsum]
    refine (Stored.append (by omega) hstored₁ hstored₂).congr fun i hi => ?_
    by_cases hlow : i < first.toNat
    · rw [if_pos hlow, hrotated, byteOf_rotateRight _ (by omega)]
      exact congrArg _ (by omega)
    · rw [if_neg hlow]
      exact congrArg _ (by omega)

/-! ## Reads -/

/-- The number that `n` bytes from an address make up in big-endian order. -/
def composed (hw : Hardware) (flag : XCheckTLBFlag) (neverTranslate : Bool) (s : AccessState) (a : BitVec 32)
    (n : ℕ) : ℕ :=
  bigEndian ((List.range n).map fun i => hw.byteAt flag neverTranslate s (a + BitVec.ofNat 32 i))

theorem byteAt_of_cell {c : MemoryRegion × BitVec 32} (h : hw.cell flag neverTranslate a = some c) :
    hw.byteAt flag neverTranslate s a = s.mem c.1 c.2 := by
  rw [byteAt, h]

theorem readInPage_eq (hpos : 0 < n) (hpage : a.toNat % 4096 + n ≤ 4096)
    (hmapped : ∀ i < n, (hw.cell flag neverTranslate (a + BitVec.ofNat 32 i)).isSome) (s : AccessState) :
    hw.readInPage flag neverTranslate n a s = (hw.composed flag neverTranslate s a n, s) := by
  obtain ⟨⟨r, index⟩, hcell⟩ := Option.isSome_iff_exists.mp (hmapped 0 hpos)
  rw [BitVec.add_zero] at hcell
  obtain ⟨p, hp, hlocate⟩ := cell_eq_some_iff.mp hcell
  obtain ⟨hin, rfl⟩ := in_of_locate hlocate
  have hbytes : (List.range n).map (fun i => hw.byteAt flag neverTranslate s (a + BitVec.ofNat 32 i)) =
      (List.range n).map fun i => s.mem r ((p &&& hw.mask r) + BitVec.ofNat 32 i) := by
    refine List.map_congr_left fun i hi => ?_
    rw [List.mem_range] at hi
    exact byteAt_of_cell (cell_add hcell (by omega) (hmapped i hi))
  have hlen : ((List.range n).map fun i => s.mem r ((p &&& hw.mask r) + BitVec.ofNat 32 i)).length = n := by
    rw [List.length_map, List.length_range]
  have hswap := bswap_littleEndian ((List.range n).map fun i => s.mem r ((p &&& hw.mask r) + BitVec.ofNat 32 i))
  rw [hlen] at hswap
  rw [readInPage, hp]
  dsimp only
  rw [readPhysical_of_in s hin, AccessState.load, hswap, composed, hbytes]

/-- The loop over the bytes of a read that crosses a page, after `k` of them. -/
theorem readBytes_foldl (hmapped : ∀ i < n, (hw.cell flag neverTranslate (a + BitVec.ofNat 32 i)).isSome)
    (s : AccessState) {k : ℕ} (hk : k ≤ n) :
    (List.range k).foldl (fun (var, s) i =>
      let (byte, s) := hw.readInPage flag neverTranslate 1 (a + BitVec.ofNat 32 i) s
      ((var <<< 8) % 256 ^ n ||| byte, s)) (0, s) = (hw.composed flag neverTranslate s a k, s) := by
  induction k with
  | zero => rfl
  | succ k ih =>
    have hbyte : hw.readInPage flag neverTranslate 1 (a + BitVec.ofNat 32 k) s =
        ((hw.byteAt flag neverTranslate s (a + BitVec.ofNat 32 k)).toNat, s) := by
      rw [readInPage_eq one_pos (by omega) (fun i hi => by
        obtain rfl : i = 0 := by omega
        rw [BitVec.add_zero]
        exact hmapped k hk) s, composed, List.range_one, List.map_singleton, BitVec.add_zero]
      rfl
    have hlt : hw.composed flag neverTranslate s a k < 256 ^ k := by
      have hlen := bigEndian_lt ((List.range k).map fun i =>
        hw.byteAt flag neverTranslate s (a + BitVec.ofNat 32 i))
      rwa [List.length_map, List.length_range] at hlen
    have hshift : hw.composed flag neverTranslate s a k <<< 8 < 256 ^ n := calc
      _ = hw.composed flag neverTranslate s a k * 256 := Nat.shiftLeft_eq ..
      _ < 256 ^ k * 256 := Nat.mul_lt_mul_of_pos_right hlt (by omega)
      _ = 256 ^ (k + 1) := (Nat.pow_succ ..).symm
      _ ≤ 256 ^ n := Nat.pow_le_pow_right (by omega) hk
    have hbyteLt := (hw.byteAt flag neverTranslate s (a + BitVec.ofNat 32 k)).isLt
    rw [List.range_succ, List.foldl_append, ih (by omega), List.foldl_cons, List.foldl_nil]
    dsimp only
    rw [hbyte, Nat.mod_eq_of_lt hshift]
    dsimp only
    rw [← Nat.shiftLeft_add_eq_or_of_lt hbyteLt, Nat.shiftLeft_eq, composed, composed, List.range_succ,
      List.map_append, List.map_singleton, bigEndian_concat]

/-- **A read puts the bytes together in big-endian order.** -/
theorem readFromHardware_eq (hpos : 0 < n) (hn : n ≤ 4096)
    (hmapped : ∀ i < n, (hw.cell flag neverTranslate (a + BitVec.ofNat 32 i)).isSome) (s : AccessState) :
    hw.readFromHardware flag neverTranslate n a s = (hw.composed flag neverTranslate s a n, s) := by
  rw [readFromHardware]
  by_cases hpage : a.toNat % 4096 + n ≤ 4096
  · rw [if_neg (not_not_intro ((pageStart_eq_iff a hpos hn).mpr hpage))]
    exact readInPage_eq hpos hpage hmapped s
  · rw [if_pos ((pageStart_eq_iff a hpos hn).not.mpr hpage)]
    exact readBytes_foldl hmapped s le_rfl

/-- A read of the addresses that a write stored gives its data. -/
theorem composed_stored {readFlag : XCheckTLBFlag} {readNever : Bool}
    (h : Stored hw flag neverTranslate a n (fun i => byteOf data (n - 1 - i)) s s')
    (hmapped : ∀ i < n, (hw.cell flag neverTranslate (a + BitVec.ofNat 32 i)).isSome)
    (hsame : ∀ i < n, hw.cell readFlag readNever (a + BitVec.ofNat 32 i) =
      hw.cell flag neverTranslate (a + BitVec.ofNat 32 i)) :
    hw.composed readFlag readNever s' a n = data.toNat % 256 ^ n := by
  have hbytes : (List.range n).map (fun i => hw.byteAt readFlag readNever s' (a + BitVec.ofNat 32 i)) =
      (List.range n).map fun i => byteOf data (n - 1 - i) := by
    refine List.map_congr_left fun i hi => ?_
    rw [List.mem_range] at hi
    obtain ⟨⟨r, index⟩, hcell⟩ := Option.isSome_iff_exists.mp (hmapped i hi)
    rw [byteAt_of_cell ((hsame i hi).trans hcell)]
    exact h.stored i hi r index hcell
  rw [composed, hbytes, bigEndian_byteOf]

/-- RAM and EXRAM, where the last page of the address space is one of RAM and the first one is of EXRAM. -/
def wrappingPages : Hardware where
  dr := true
  ir := false
  translatePage _ page := if page = 0xFFFFF#20 then some (0x00003#20, false) else some (0x10007#20, false)
  hasL1Cache := true
  l1CacheSize := 0x40000#32
  hasRam := true
  ramMask := 0x01FFFFFF#32
  ramMask_page := by decide
  hasExRam := true
  exRamSizeReal := 0x04000000#32
  hasFakeVMem := false
  fakeVMemMask := 0x01FFFFFF#32
  fakeVMemMask_page := by decide
  efbRead _ := 0
  mmioRead _ _ := 0

end Hardware

end PowerPC
