import BatchRun.Text.Percent
import BatchRun.Text.Split

/-!
# Domain Names in URLs

Writing a domain name in ASCII.

A domain name is compared without regard to case, so it is folded, and a label
with letters outside ASCII is written in Punycode behind `xn--`. Folding knows
the Latin, Greek and Cyrillic capitals and the full-width forms of ASCII. Some
ASCII characters, a space or a slash among them, can stand in no domain, also
not by way of a percent code.

## Main definitions

* `Domain.isForbidden`: The characters that no domain name holds.
* `Domain.fold`: A character as it is compared.
* `Domain.punycode`: The digits that stand for a label outside ASCII.
* `Domain.toAscii`: A domain name in ASCII.
-/

namespace BatchRun

namespace Domain

/-- The ASCII characters that no domain name holds. -/
def isForbidden (c : Char) : Bool :=
  c.toNat ≤ 0x20 || c.toNat == 0x7F ||
    ['#', '%', '/', ':', '<', '>', '?', '@', '[', '\\', ']', '^', '|'].contains c

/-- Whether a character lies between two others. -/
def between (low high : Nat) (c : Char) : Bool :=
  low ≤ c.toNat && c.toNat ≤ high

/-- A character as it is compared: capitals as small letters, full-width forms
    as the plain ones. A soft hyphen is no character at all. -/
def fold (c : Char) : List Char :=
  if c.toNat == 0xAD then []
  else if between 0x41 0x5A c then [Char.ofNat (c.toNat + 32)]
  else if between 0xC0 0xDE c && c.toNat != 0xD7 then [Char.ofNat (c.toNat + 32)]
  else if between 0x391 0x3A9 c then [Char.ofNat (c.toNat + 32)]
  else if between 0x410 0x42F c then [Char.ofNat (c.toNat + 32)]
  else if between 0x400 0x40F c then [Char.ofNat (c.toNat + 80)]
  else if (between 0x100 0x12F c || between 0x14A 0x177 c) && c.toNat % 2 == 0 then
    [Char.ofNat (c.toNat + 1)]
  else if c.toNat == 0x3002 || c.toNat == 0xFF0E || c.toNat == 0xFF61 then ['.']
  else if between 0xFF21 0xFF3A c then [Char.ofNat (c.toNat - 0xFF21 + 0x61)]
  else if between 0xFF01 0xFF5E c then [Char.ofNat (c.toNat - 0xFEE0)]
  else [c]

/-- The characters outside ASCII that no domain name holds: controls, and the
    mark of an unreadable byte. -/
def isUnassigned (c : Char) : Bool :=
  between 0x80 0x9F c || c.toNat == 0xFFFD || between 0xE000 0xF8FF c

/-- The digit that stands for a number below thirty-six. -/
def digit (n : Nat) : Char :=
  if n < 26 then Char.ofNat (97 + n) else Char.ofNat (22 + n)

/-- How far the bias moves after a number has been written. -/
def adapt (delta points : Nat) (first : Bool) : Nat :=
  let delta := if first then delta / 700 else delta / 2
  let rec scale : Nat → Nat → Nat → Nat
    | 0, k, delta => k + 36 * delta / (delta + 38)
    | fuel + 1, k, delta =>
      if 455 < delta then scale fuel (k + 36) (delta / 35) else k + 36 * delta / (delta + 38)
  let delta := delta + delta / points
  scale delta 0 delta

/-- A number in the variable-length form of Punycode. -/
def variableLength (bias : Nat) : Nat → Nat → Nat → List Char
  | 0, _, _ => []
  | fuel + 1, k, q =>
    let threshold := if k ≤ bias then 1 else if bias + 26 ≤ k then 26 else k - bias
    if q < threshold then [digit q]
    else digit (threshold + (q - threshold) % (36 - threshold)) ::
      variableLength bias fuel (k + 36) ((q - threshold) / (36 - threshold))

/-- Where the writing of a label stands: the code point reached, the distance
    counted since the last number, the bias, the points written, and the
    text. -/
structure Writing where
  reached : Nat
  delta : Nat
  bias : Nat
  written : Nat
  text : List Char

/-- All occurrences of one code point. Those below it lengthen the distance to
    the next one. -/
def writePoint (basic point : Nat) (label : List Char) (w : Writing) : Writing :=
  let w := { w with delta := w.delta + (point - w.reached) * (w.written + 1), reached := point }
  let w := label.foldl (fun (w : Writing) c =>
    if c.toNat < point then { w with delta := w.delta + 1 }
    else if c.toNat = point then
      { w with
        text := w.text ++ variableLength w.bias (w.delta + 2) 36 w.delta
        bias := adapt w.delta (w.written + 1) (w.written == basic)
        delta := 0
        written := w.written + 1 }
    else w) w
  { w with delta := w.delta + 1, reached := point + 1 }

/-- The digits that stand for a label: its ASCII characters, and behind a
    hyphen the code points above them in ascending order. -/
def punycode (label : List Char) : List Char :=
  let basic := label.filter (·.toNat < 0x80)
  let points := ((label.map Char.toNat).filter (0x80 ≤ ·)).eraseDups.mergeSort
  let start : Writing :=
    { reached := 0x80, delta := 0, bias := 72, written := basic.length
      text := if basic.isEmpty then [] else basic ++ ['-'] }
  (points.foldl (fun w point => writePoint basic.length point label w) start).text

/-- A label in ASCII. -/
def labelToAscii (label : List Char) : List Char :=
  if label.all (·.toNat < 0x80) then label else ['x', 'n', '-', '-'] ++ punycode label

/-- A domain name in ASCII, unless it holds a character that none may hold. -/
def toAscii (name : List Char) : Option (List Char) :=
  let folded := name.flatMap fold
  if folded.any (fun c => isForbidden c || isUnassigned c) then none
  else some (Text.joinWith ['.'] ((Text.splitOn '.' folded).map labelToAscii))

end Domain

end BatchRun
