/-!
# UTF-8

Bytes as text and text as bytes.

Log objects, error bodies and file names arrive as bytes that need not be
UTF-8. They are read leniently, with U+FFFD for what cannot be read; keys that
come out of a URL are read strictly, with a complaint that says where and how
they fail. Both readings are the same walk: `decode` cuts the bytes into
characters and faults, and each reading says what a fault means.

A fault is a maximal subpart, the longest start of a well-formed sequence that
stands there, or one byte if none does. The walk sees one byte at a time and
carries what it has of an unfinished character, so a walk over two texts is the
walk over the first, then the second.

## Main definitions

* `Utf8.Progress`: Where the walk stands between two bytes.
* `Utf8.step`: One byte.
* `Utf8.decode`: The pieces of a list of bytes.
* `Utf8.lossy`: The text with U+FFFD for each fault.
* `Utf8.strict`: The text, or the first fault and its place.
* `Utf8.encode`: The bytes of a text.
-/

namespace BatchRun

/-- A body, a key or a file name as it is stored or sent. -/
abbrev Bytes := List UInt8

namespace Utf8

/-- A character that has begun and not ended: how many bytes were read and how
    many are missing, the range the next one must lie in, and the value of the
    bits so far. -/
structure Unfinished where
  read : Nat
  missing : Nat
  low : UInt8
  high : UInt8
  value : Nat
  deriving DecidableEq, Repr

/-- Where a walk stands between two bytes. -/
inductive Progress where
  | between
  | inside (pending : Unfinished)
  deriving DecidableEq, Repr

/-- What a walk finds. -/
inductive Piece where
  /-- A character. -/
  | char (c : Char)
  /-- Bytes that no character begins with, or that break one off. -/
  | invalid (size : Nat)
  /-- The start of a character that the text ends in. -/
  | incomplete (size : Nat)
  deriving DecidableEq, Repr

/-- What the first byte of a character of several bytes announces. The second
    byte is bounded where an overlong form, a surrogate or a value above
    U+10FFFF has to be kept out. -/
def announced (b : UInt8) : Option Unfinished :=
  if 0xC2 ≤ b ∧ b ≤ 0xDF then some ⟨1, 1, 0x80, 0xBF, b.toNat - 0xC0⟩
  else if b = 0xE0 then some ⟨1, 2, 0xA0, 0xBF, 0⟩
  else if b = 0xED then some ⟨1, 2, 0x80, 0x9F, 0xD⟩
  else if 0xE1 ≤ b ∧ b ≤ 0xEF then some ⟨1, 2, 0x80, 0xBF, b.toNat - 0xE0⟩
  else if b = 0xF0 then some ⟨1, 3, 0x90, 0xBF, 0⟩
  else if 0xF1 ≤ b ∧ b ≤ 0xF3 then some ⟨1, 3, 0x80, 0xBF, b.toNat - 0xF0⟩
  else if b = 0xF4 then some ⟨1, 3, 0x80, 0x8F, 4⟩
  else none

/-- A byte that may begin a character. -/
def begin (b : UInt8) : List Piece × Progress :=
  if b < 0x80 then ([.char (Char.ofNat b.toNat)], .between)
  else match announced b with
    | some pending => ([], .inside pending)
    | none => ([.invalid 1], .between)

/-- One byte. A byte that cannot continue the character it stands in ends it
    as a fault and is then looked at as a first byte. -/
def step : Progress → UInt8 → List Piece × Progress
  | .between, b => begin b
  | .inside p, b =>
    if p.low ≤ b ∧ b ≤ p.high then
      let value := p.value * 64 + (b.toNat - 0x80)
      if p.missing ≤ 1 then ([.char (Char.ofNat value)], .between)
      else ([], .inside ⟨p.read + 1, p.missing - 1, 0x80, 0xBF, value⟩)
    else
      let (pieces, progress) := begin b
      (.invalid p.read :: pieces, progress)

/-- What is left to say when the bytes end. -/
def finish : Progress → List Piece
  | .between => []
  | .inside p => [.incomplete p.read]

/-- The pieces of a list of bytes, from a given standing. -/
def decodeFrom : Progress → Bytes → List Piece
  | progress, [] => finish progress
  | progress, b :: rest => (step progress b).1 ++ decodeFrom (step progress b).2 rest

/-- The pieces of a list of bytes. -/
def decode (bytes : Bytes) : List Piece :=
  decodeFrom .between bytes

/-- The character shown for a piece: itself, or U+FFFD for a fault. -/
def Piece.shown : Piece → Char
  | .char c => c
  | .invalid _ => '\uFFFD'
  | .incomplete _ => '\uFFFD'

/-- The characters of a list of bytes, with U+FFFD for each fault. -/
def lossyChars (bytes : Bytes) : List Char :=
  (decode bytes).map Piece.shown

/-- The text of a list of bytes, with U+FFFD for each fault. -/
def lossy (bytes : Bytes) : String :=
  String.ofList (lossyChars bytes)

/-- Why a list of bytes is not UTF-8, and how many bytes stand before. -/
inductive Fault where
  | invalid (size index : Nat)
  | incomplete (index : Nat)
  deriving DecidableEq, Repr

/-- The complaint about a fault. -/
def Fault.message : Fault → String
  | .invalid size index => s!"invalid utf-8 sequence of {size} bytes from index {index}"
  | .incomplete index => s!"incomplete utf-8 byte sequence from index {index}"

/-- The characters before the first fault, if there is one an error. `index`
    counts the bytes that were read. -/
def strictFrom (index : Nat) : List Piece → Except Fault (List Char)
  | [] => .ok []
  | .char c :: rest => (strictFrom (index + c.utf8Size) rest).map (c :: ·)
  | .invalid size :: _ => .error (.invalid size index)
  | .incomplete _ :: _ => .error (.incomplete index)

/-- The text of a list of bytes, or its first fault. -/
def strict (bytes : Bytes) : Except Fault String :=
  (strictFrom 0 (decode bytes)).map String.ofList

/-- The text of a list of bytes, if they are UTF-8. -/
def text? (bytes : Bytes) : Option String :=
  (strict bytes).toOption

/-- The bytes of a list of characters. -/
def encodeChars (cs : List Char) : Bytes :=
  cs.flatMap String.utf8EncodeChar

/-- The bytes of a text. -/
def encode (text : String) : Bytes :=
  encodeChars text.toList

end Utf8

end BatchRun
