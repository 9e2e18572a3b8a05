import BatchRun.Text.Utf8

/-!
# Percent Coding

Bytes in hexadecimal, and text as it stands inside a URL.

An encoder writes a byte of a chosen set as `%` and two hexadecimal digits and
leaves the others alone; the sets differ between the parts of a URL and are
values of type `UInt8 → Bool`. The decoder is one for all of them, and leaves a
`%` that no two digits follow as it is.

## Main definitions

* `Hex.encode`, `Hex.decode`: Bytes as pairs of hexadecimal digits.
* `Percent.encodeWhere`: Bytes with those of a set written as `%XX`.
* `Percent.isUnreserved`: The characters that never need encoding.
* `Percent.component`: A text as one component of a path or query.
* `Percent.decode`: The bytes that percent-coded bytes stand for.

## Theorems

* `Hex.digitValue_upperDigit`: A written digit reads back.
-/

namespace BatchRun

namespace Hex

/-- A digit below sixteen, with the letters in lower case. -/
def lowerDigit (n : Nat) : Char :=
  if n < 10 then Char.ofNat (48 + n) else Char.ofNat (87 + n)

/-- A digit below sixteen, with the letters in upper case. -/
def upperDigit (n : Nat) : Char :=
  if n < 10 then Char.ofNat (48 + n) else Char.ofNat (55 + n)

/-- The value of a hexadecimal digit in either case. -/
def digitValue (c : Char) : Option Nat :=
  if '0' ≤ c ∧ c ≤ '9' then some (c.toNat - 48)
  else if 'a' ≤ c ∧ c ≤ 'f' then some (c.toNat - 87)
  else if 'A' ≤ c ∧ c ≤ 'F' then some (c.toNat - 55)
  else none

/-- The value of a byte that is the code of a hexadecimal digit. -/
def byteValue (b : UInt8) : Option Nat :=
  digitValue (Char.ofNat b.toNat)

/-- Bytes as pairs of lower-case digits. -/
def encode (bytes : Bytes) : String :=
  String.ofList (bytes.flatMap fun b => [lowerDigit (b.toNat / 16), lowerDigit (b.toNat % 16)])

/-- The bytes that pairs of digits stand for. -/
def decodeChars : List Char → Option Bytes
  | [] => some []
  | [_] => none
  | high :: low :: rest =>
    match digitValue high, digitValue low, decodeChars rest with
    | some h, some l, some bytes => some (UInt8.ofNat (16 * h + l) :: bytes)
    | _, _, _ => none

/-- The bytes that a text of hexadecimal digits stands for. -/
def decode (text : String) : Option Bytes :=
  decodeChars text.toList

/-- A number in hexadecimal, without leading zeros. -/
def ofNat (n : Nat) : String :=
  String.ofList (Nat.toDigits 16 n)

/-- A written digit reads back as its value. -/
theorem digitValue_upperDigit {n : Nat} (h : n < 16) : digitValue (upperDigit n) = some n := by
  have : ∀ m : Fin 16, digitValue (upperDigit m.val) = some m.val := by decide
  exact this ⟨n, h⟩

end Hex

namespace Percent

/-- The code of the percent sign. -/
def sign : UInt8 := 0x25

/-- A byte as `%` and two upper-case digits. -/
def triplet (b : UInt8) : List Char :=
  ['%', Hex.upperDigit (b.toNat / 16), Hex.upperDigit (b.toNat % 16)]

/-- Bytes as characters, with those of a set written as `%XX`. The set must
    hold every byte that is not ASCII. -/
def encodeWhere (coded : UInt8 → Bool) (bytes : Bytes) : List Char :=
  bytes.flatMap fun b => if coded b then triplet b else [Char.ofNat b.toNat]

/-- Letters, digits and the four marks `-`, `_`, `.` and `~`, which stand for
    themselves everywhere in a URL. -/
def isUnreserved (b : UInt8) : Bool :=
  (0x30 ≤ b && b ≤ 0x39) || (0x41 ≤ b && b ≤ 0x5A) || (0x61 ≤ b && b ≤ 0x7A) ||
    b == 0x2D || b == 0x5F || b == 0x2E || b == 0x7E

/-- A text as one component of a path or a query: everything but the
    unreserved characters is encoded, the slash included. -/
def component (text : String) : String :=
  String.ofList (encodeWhere (fun b => !isUnreserved b) (Utf8.encode text))

/-- The bytes that percent-coded bytes stand for. A percent sign without two
    digits behind it stands for itself. -/
def decode : Bytes → Bytes
  | [] => []
  | [b] => [b]
  | [a, b] => [a, b]
  | a :: b :: c :: rest =>
    if a = sign then
      match Hex.byteValue b, Hex.byteValue c with
      | some h, some l => UInt8.ofNat (16 * h + l) :: decode rest
      | _, _ => a :: decode (b :: c :: rest)
    else a :: decode (b :: c :: rest)

end Percent

end BatchRun
