import BatchRun.Text.Percent

/-!
# Unique Names

Names for runs and requests that nobody else has.

A run is named by the moment it was prepared, in milliseconds, followed by random
bits, so that names in the order of their texts are in the order of time. A
request is named by random bits alone. The kind of a name and the layout that
both kinds share are written into fixed bits.

## Main definitions

* `Uuid.timed`: A name that begins with a moment.
* `Uuid.random`: A name of random bits.
-/

namespace BatchRun

namespace Uuid

/-- The byte at a place, or zero. -/
def byteAt (bytes : Bytes) (place : Nat) : UInt8 :=
  bytes.getD place 0

/-- Sixteen bytes as a name of a given kind. -/
def text (kind : UInt8) (bytes : Bytes) : String :=
  let marked := (List.range 16).map fun place =>
    let b := byteAt bytes place
    if place = 6 then b % 16 + kind * 16
    else if place = 8 then b % 64 + 128
    else b
  let part := fun (first count : Nat) => Hex.encode ((marked.drop first).take count)
  "-".intercalate [part 0 4, part 4 2, part 6 2, part 8 2, part 10 6]

/-- The name for a moment in milliseconds, with ten random bytes. -/
def timed (millis : Nat) (bytes : Bytes) : String :=
  let moment := [40, 32, 24, 16, 8, 0].map fun shift => UInt8.ofNat ((millis >>> shift) % 256)
  text 7 (moment ++ bytes)

/-- A name of sixteen random bytes. -/
def random (bytes : Bytes) : String :=
  text 4 bytes

end Uuid

end BatchRun
