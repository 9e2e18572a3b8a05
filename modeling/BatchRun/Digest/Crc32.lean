import BatchRun.Text.Utf8

/-!
# Cyclic Redundancy Check

The checksum that guards compressed members and archive entries.

It is the remainder of the bytes, read as a polynomial over two elements with
the lowest bit of each byte first, after division by a fixed polynomial of
degree 32. The state of the division is one word, so a checksum of two texts is
the checksum of the first, continued over the second.

## Main definitions

* `Crc32.absorb`: The state after one more byte.
* `Crc32.checksum`: The checksum of some bytes.

## Theorems

* `Crc32.run_append`: A division over two texts, one after the other.
-/

namespace BatchRun

namespace Crc32

/-- The divisor less its highest term, the lowest coefficient in the highest
    bit. -/
def divisor : UInt32 := 0xEDB88320

/-- The state after one more bit has been shifted out. -/
def shift (state : UInt32) : UInt32 :=
  if state &&& 1 = 1 then (state >>> 1) ^^^ divisor else state >>> 1

/-- The state after one more byte. -/
def absorb (state : UInt32) (b : UInt8) : UInt32 :=
  Nat.repeat shift 8 (state ^^^ b.toUInt32)

/-- The state after some bytes. -/
def run (state : UInt32) (bytes : Bytes) : UInt32 :=
  bytes.foldl absorb state

/-- The checksum of some bytes. The division starts with all bits set and ends
    with all of them turned over. -/
def checksum (bytes : Bytes) : UInt32 :=
  run 0xFFFFFFFF bytes ^^^ 0xFFFFFFFF

/-- A division over two texts is the one over the first, then the second. -/
theorem run_append (state : UInt32) (first second : Bytes) :
    run state (first ++ second) = run (run state first) second := by
  unfold run
  exact List.foldl_append

end Crc32

end BatchRun
