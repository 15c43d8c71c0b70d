import Mathlib.Algebra.Group.Nat.Defs
import Mathlib.Data.List.Basic

/-!
# Files

An open file is its bytes. `OffsetRead` gets the bytes that there are at an offset, and succeeds if
these are as many as it asks for.
-/

set_option autoImplicit false

namespace File

abbrev Byte := BitVec 8

/-- An open file, whose size is an `off_t`. -/
structure DirectIOFile where
  content : List Byte
  size_lt : content.length < 2 ^ 63

/-- The bytes that a read gets, fewer than asked for if the file ends. -/
def DirectIOFile.offsetRead (file : DirectIOFile) (offset size : ℕ) : List Byte :=
  (file.content.drop offset).take size

def DirectIOFile.getSize (file : DirectIOFile) : ℕ := file.content.length

/-- A read inside the file succeeds. -/
theorem DirectIOFile.length_offsetRead {file : DirectIOFile} {offset size : ℕ}
    (h : offset + size ≤ file.getSize) : (file.offsetRead offset size).length = size := by
  rw [offsetRead, List.length_take, List.length_drop]
  unfold getSize at h
  omega

end File
