import BatchRun.Deflate.Inflate
import BatchRun.Digest.Crc32

/-!
# Compressed Files

Reading files of one or more compressed members.

A writer that adds to a compressed file adds a member, and the file stands for
all of its members one after the other. Each has a header with optional fields,
a compressed stream, a checksum and a length. Whatever does not fit makes the
whole file unreadable: a file is written in one go, so a broken one is still
being written or is none, and half of it would be as good as wrong.

## Main definitions

* `Gzip.readMember?`: What the first member holds, and the bytes behind it.
* `Gzip.decode?`: What a file holds.
-/

namespace BatchRun

namespace Gzip

/-- The longest name or comment that a header may hold. -/
def longestText : Nat := 65535

/-- The bytes behind a text that a zero ends. -/
def skipText (bytes : Bytes) : Option Bytes :=
  let text := bytes.takeWhile (· ≠ 0)
  match bytes.drop text.length with
  | _ :: rest => if longestText < text.length then none else some rest
  | [] => none

/-- The bytes behind an extra field, which begins with its length. -/
def skipExtra : Bytes → Option Bytes
  | low :: high :: rest =>
    let length := Bits.ofLittleEndian [low, high]
    if rest.length < length then none else some (rest.drop length)
  | _ => none

/-- The bytes behind the checksum of a header, which is the lower half of that
    of the bytes before it. -/
def skipHeaderCheck (header : Bytes) : Bytes → Option Bytes
  | low :: high :: rest =>
    if (Crc32.checksum header).toNat % 65536 = Bits.ofLittleEndian [low, high] then some rest
    else none
  | _ => none

/-- The bytes behind a header. Its flags say which fields it has; three of them
    have no meaning and must not be set. -/
def skipHeader (bytes : Bytes) : Option Bytes :=
  match bytes with
  | 0x1F :: 0x8B :: 8 :: flags :: _ :: _ :: _ :: _ :: _ :: _ :: rest =>
    if flags &&& 0xE0 ≠ 0 then none
    else
      (if flags &&& 4 ≠ 0 then skipExtra rest else some rest).bind fun rest =>
      (if flags &&& 8 ≠ 0 then skipText rest else some rest).bind fun rest =>
      (if flags &&& 16 ≠ 0 then skipText rest else some rest).bind fun rest =>
      if flags &&& 2 ≠ 0 then skipHeaderCheck (bytes.take (bytes.length - rest.length)) rest
      else some rest
  | _ => none

/-- What the first member holds, and the bytes behind it. Its checksum and its
    length, both of thirty-two bits, stand at its end. -/
def readMember? (bytes : Bytes) : Option (Bytes × Bytes) :=
  (skipHeader bytes).bind fun rest =>
  (Deflate.inflate? rest).bind fun (content, rest) =>
  if rest.length < 8 then none
  else if (Crc32.checksum content).toNat ≠ Bits.ofLittleEndian (rest.take 4) then none
  else if content.length % 4294967296 ≠ Bits.ofLittleEndian ((rest.drop 4).take 4) then none
  else some (content, rest.drop 8)

/-- What the members of a file hold. Every member has bytes, so there are at
    most as many. -/
def readMembers? : Nat → Bytes → Option Bytes
  | 0, _ => none
  | rounds + 1, bytes =>
    (readMember? bytes).bind fun (content, rest) =>
      if rest.isEmpty then some content
      else (readMembers? rounds rest).map (content ++ ·)

/-- What a file holds. -/
def decode? (bytes : Bytes) : Option Bytes :=
  readMembers? (bytes.length + 1) bytes

end Gzip

end BatchRun
