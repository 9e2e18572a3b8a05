import BatchRun.Text.Utf8

/-!
# Bits

Bytes as the bits of a compressed stream.

A compressed stream is a sequence of bits, of which the lowest of each byte
comes first. Numbers inside it have their lowest bit first as well, so a number
of whole bytes is one in little-endian order. Where a part of the stream starts
at a byte, the bits that are left of the byte before it are skipped.

## Main definitions

* `Bits.ofBytes`: The bits of some bytes.
* `Bits.take`: A number of a given width, and the bits behind it.
* `Bits.aligned`: The bits from the next byte on.
* `Bits.littleEndian`, `Bits.ofLittleEndian`: A number as bytes and back.

## Theorems

* `Bits.length_of_take`: How many bits a number takes up.
-/

namespace BatchRun

namespace Bits

/-- The bits of a byte, the lowest first. -/
def ofByte (b : UInt8) : List Bool :=
  (List.range 8).map fun place => b.toNat.testBit place

/-- The bits of some bytes. -/
def ofBytes (bytes : Bytes) : List Bool :=
  bytes.flatMap ofByte

/-- A number of a given width in bits, and the bits behind it. -/
def take : Nat → List Bool → Option (Nat × List Bool)
  | 0, bits => some (0, bits)
  | _ + 1, [] => none
  | width + 1, bit :: bits =>
    (take width bits).map fun (n, rest) => (bit.toNat + 2 * n, rest)

/-- The bits from the next byte on. Since the stream has whole bytes, what is
    left of the one at hand is the remainder of the length. -/
def aligned (bits : List Bool) : List Bool :=
  bits.drop (bits.length % 8)

/-- Some whole bytes of a stream, and the bits behind them. -/
def takeBytes : Nat → List Bool → Option (Bytes × List Bool)
  | 0, bits => some ([], bits)
  | count + 1, bits =>
    match take 8 bits with
    | none => none
    | some (n, bits) =>
      (takeBytes count bits).map fun (bytes, bits) => (UInt8.ofNat n :: bytes, bits)

/-- A number as so many bytes, the lowest first. -/
def littleEndian : Nat → Nat → Bytes
  | 0, _ => []
  | width + 1, n => UInt8.ofNat n :: littleEndian width (n / 256)

/-- The number that some bytes write, the lowest first. -/
def ofLittleEndian : Bytes → Nat
  | [] => 0
  | b :: rest => b.toNat + 256 * ofLittleEndian rest

/-- A number takes up as many bits as it is wide. -/
theorem length_of_take {width n : Nat} {bits rest : List Bool}
    (h : take width bits = some (n, rest)) : bits.length = width + rest.length := by
  induction width generalizing n bits with
  | zero =>
    simp only [take, Option.some.injEq, Prod.mk.injEq] at h
    rw [h.2]
    omega
  | succ width ih =>
    cases bits with
    | nil => simp [take] at h
    | cons bit bits =>
      simp only [take, Option.map_eq_some_iff, Prod.mk.injEq] at h
      rcases h with ⟨⟨m, left⟩, hm, _, rfl⟩
      have := ih hm
      rw [List.length_cons]
      omega

/-- A number is as many bytes long as it was asked to be. -/
theorem length_littleEndian (width n : Nat) : (littleEndian width n).length = width := by
  induction width generalizing n with
  | zero => rfl
  | succ width ih => rw [littleEndian, List.length_cons, ih]

/-- A number that fits into its bytes reads back. -/
theorem ofLittleEndian_littleEndian (width n : Nat) (h : n < Nat.pow 256 width) :
    ofLittleEndian (littleEndian width n) = n := by
  induction width generalizing n with
  | zero =>
    rw [show Nat.pow 256 0 = 1 from rfl] at h
    rw [littleEndian, ofLittleEndian]
    omega
  | succ width ih =>
    rw [show Nat.pow 256 (width + 1) = Nat.pow 256 width * 256 from rfl] at h
    rw [littleEndian, ofLittleEndian, ih _ (by omega), UInt8.toNat_ofNat']
    omega

end Bits

end BatchRun
