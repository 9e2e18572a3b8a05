import BatchRun.Json.Basic
import BatchRun.Text.Percent
import BatchRun.Text.Utf8

/-!
# JSON Tokens

A JSON text as a sequence of tokens.

The scanner sees one character at a time and holds what it has of an unfinished
token. Blanks between tokens leave no trace. A number ends where a character
cannot continue it, and that character is then looked at afresh; everything else
knows its own end. So a scan over two texts is the scan over the first, then the
second.

Bytes are scanned as the pieces that UTF-8 makes of them. A fault among these ends
the scan, unless it stands inside a text: the end of that text is found all the same,
and who asks for its characters is the one to complain.

## Main definitions

* `Json.Token`: A bracket, a mark, a word, a number or a text.
* `Json.Scan`: What the scanner holds between two characters.
* `Json.Scan.step`, `Json.Scan.fault`: One character, and bytes that are none.
* `Json.tokens?`: The tokens of a text.
* `Json.tokensOfPieces`: The tokens of some bytes.
-/

namespace BatchRun

namespace Json

/-- A token of a JSON text. -/
inductive Token where
  | arrayStart
  | arrayEnd
  | objectStart
  | objectEnd
  | colon
  | comma
  | null
  | bool (value : Bool)
  | number (value : Number)
  | text (value : Option String)
  deriving DecidableEq, Repr

/-- A part of a text: a character, the sixteen bits of an escape, or bytes that
    are no character. -/
inductive TextPart where
  | char (c : Char)
  | escaped (bits : Nat)
  | fault
  deriving DecidableEq, Repr

/-- Whether sixteen bits are the first half of a surrogate pair. -/
def isHighHalf (bits : Nat) : Bool := 0xD800 ≤ bits && bits < 0xDC00

/-- Whether sixteen bits are the second half of a surrogate pair. -/
def isLowHalf (bits : Nat) : Bool := 0xDC00 ≤ bits && bits < 0xE000

/-- The characters that the parts of a text stand for. A half of a surrogate
    pair must stand beside the other one, and bytes must be characters. -/
def characters? : List TextPart → Option (List Char)
  | [] => some []
  | .char c :: rest => (characters? rest).map (c :: ·)
  | .fault :: _ => none
  | .escaped high :: .escaped low :: rest =>
    if isHighHalf high then
      if isLowHalf low then
        (characters? rest).map
          (Char.ofNat (0x10000 + (high - 0xD800) * 0x400 + (low - 0xDC00)) :: ·)
      else none
    else if isLowHalf high then none
    else (characters? (.escaped low :: rest)).map (Char.ofNat high :: ·)
  | .escaped bits :: rest =>
    if isHighHalf bits || isLowHalf bits then none
    else (characters? rest).map (Char.ofNat bits :: ·)

/-- Which part of a number has been reached. -/
inductive Stage where
  | sign
  | zero
  | whole
  | point
  | fraction
  | mark
  | markSign
  | exponent
  deriving DecidableEq, Repr

/-- Whether a number may end here. -/
def Stage.mayEnd : Stage → Bool
  | .zero => true
  | .whole => true
  | .fraction => true
  | .exponent => true
  | _ => false

/-- A number with one more character, unless that cannot continue it. -/
def Number.extend (n : Number) (stage : Stage) (c : Char) : Option (Number × Stage) :=
  let digit := '0' ≤ c && c ≤ '9'
  let inWhole := { n with whole := n.whole ++ [c] }
  let inFraction := { n with fraction := some (n.fraction.getD [] ++ [c]) }
  let inExponent := { n with exponent := n.exponent.map fun (down, ds) => (down, ds ++ [c]) }
  match stage with
  | .sign => if digit then some (inWhole, if c = '0' then .zero else .whole) else none
  | .zero =>
    if c = '.' then some (n, .point)
    else if c = 'e' || c = 'E' then some ({ n with exponent := some (false, []) }, .mark)
    else none
  | .whole =>
    if digit then some (inWhole, .whole)
    else if c = '.' then some (n, .point)
    else if c = 'e' || c = 'E' then some ({ n with exponent := some (false, []) }, .mark)
    else none
  | .point => if digit then some (inFraction, .fraction) else none
  | .fraction =>
    if digit then some (inFraction, .fraction)
    else if c = 'e' || c = 'E' then some ({ n with exponent := some (false, []) }, .mark)
    else none
  | .mark =>
    if digit then some (inExponent, .exponent)
    else if c = '+' then some (n, .markSign)
    else if c = '-' then some ({ n with exponent := some (true, []) }, .markSign)
    else none
  | .markSign => if digit then some (inExponent, .exponent) else none
  | .exponent => if digit then some (inExponent, .exponent) else none

/-- What the scanner holds between two characters. The parts of a text are
    held in reverse. -/
inductive Scan where
  | between
  | word (left : List Char) (token : Token)
  | number (n : Number) (stage : Stage)
  | text (parts : List TextPart)
  | escape (parts : List TextPart)
  | code (parts : List TextPart) (value digits : Nat)
  deriving DecidableEq, Repr

/-- A character between two tokens. -/
def Scan.start (c : Char) : Option (List Token × Scan) :=
  if c = ' ' || c = '\t' || c = '\n' || c = '\r' then some ([], .between)
  else if c = '[' then some ([.arrayStart], .between)
  else if c = ']' then some ([.arrayEnd], .between)
  else if c = '\x7b' then some ([.objectStart], .between)
  else if c = '\x7d' then some ([.objectEnd], .between)
  else if c = ':' then some ([.colon], .between)
  else if c = ',' then some ([.comma], .between)
  else if c = 'n' then some ([], .word ['u', 'l', 'l'] .null)
  else if c = 't' then some ([], .word ['r', 'u', 'e'] (.bool true))
  else if c = 'f' then some ([], .word ['a', 'l', 's', 'e'] (.bool false))
  else if c = '"' then some ([], .text [])
  else if c = '-' then some ([], .number ⟨true, [], none, none⟩ .sign)
  else (Number.extend ⟨false, [], none, none⟩ .sign c).map fun (n, stage) => ([], .number n stage)

/-- The character that a letter behind a backslash stands for. -/
def escapedChar (c : Char) : Option Char :=
  if c = '"' || c = '\\' || c = '/' then some c
  else if c = 'b' then some '\x08'
  else if c = 'f' then some '\x0c'
  else if c = 'n' then some '\n'
  else if c = 'r' then some '\r'
  else if c = 't' then some '\t'
  else none

/-- One character: the tokens it completes, and what is held after it. -/
def Scan.step : Scan → Char → Option (List Token × Scan)
  | .between, c => start c
  | .word [] _, _ => none
  | .word [last] token, c => if c = last then some ([token], .between) else none
  | .word (next :: left) token, c => if c = next then some ([], .word left token) else none
  | .number n stage, c =>
    match n.extend stage c with
    | some (n, stage) => some ([], .number n stage)
    | none =>
      if stage.mayEnd then (start c).map fun (tokens, scan) => (.number n :: tokens, scan)
      else none
  | .text parts, c =>
    if c = '"' then
      some ([.text ((characters? parts.reverse).map String.ofList)], .between)
    else if c = '\\' then some ([], .escape parts)
    else if c.toNat < 0x20 then none
    else some ([], .text (.char c :: parts))
  | .escape parts, c =>
    if c = 'u' then some ([], .code parts 0 0)
    else (escapedChar c).map fun e => ([], .text (.char e :: parts))
  | .code parts value digits, c =>
    (Hex.digitValue c).map fun d =>
      if digits = 3 then ([], .text (.escaped (value * 16 + d) :: parts))
      else ([], .code parts (value * 16 + d) (digits + 1))

/-- Bytes that are no character. There is room for them in a text only. -/
def Scan.fault : Scan → Option (List Token × Scan)
  | .text parts => some ([], .text (.fault :: parts))
  | _ => none

/-- One piece of some bytes. -/
def Scan.piece (scan : Scan) : Utf8.Piece → Option (List Token × Scan)
  | .char c => scan.step c
  | .invalid _ => scan.fault
  | .incomplete _ => scan.fault

/-- What is complete when the text ends. -/
def Scan.finish : Scan → Option (List Token)
  | .between => some []
  | .number n stage => if stage.mayEnd then some [.number n] else none
  | _ => none

/-- The tokens of a text, from what is held before it. -/
def tokensFrom : Scan → List Char → Option (List Token)
  | scan, [] => scan.finish
  | scan, c :: rest =>
    match scan.step c with
    | none => none
    | some (found, next) => (tokensFrom next rest).map (found ++ ·)

/-- The tokens of a text. -/
def tokens? (text : String) : Option (List Token) :=
  tokensFrom .between text.toList

/-- The tokens of some bytes, from what is held before them. -/
def tokensOfPieces : Scan → List Utf8.Piece → Option (List Token)
  | scan, [] => scan.finish
  | scan, piece :: rest =>
    match scan.piece piece with
    | none => none
    | some (found, next) => (tokensOfPieces next rest).map (found ++ ·)

end Json

end BatchRun
