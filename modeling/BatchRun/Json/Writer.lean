import BatchRun.Json.Basic
import BatchRun.Text.Percent

/-!
# Writing JSON

The shortest text of a value: no blanks, members in their order, and an escape
only where the grammar asks for one.

## Main definitions

* `Json.escaped`: A character inside a text.
* `Json.write`: The text of a value.
-/

namespace BatchRun

namespace Json

/-- A character inside a text. Controls without a letter of their own are
    written by their code. -/
def escaped (c : Char) : List Char :=
  if c = '"' then ['\\', '"']
  else if c = '\\' then ['\\', '\\']
  else if c = '\x08' then ['\\', 'b']
  else if c = '\x0c' then ['\\', 'f']
  else if c = '\n' then ['\\', 'n']
  else if c = '\r' then ['\\', 'r']
  else if c = '\t' then ['\\', 't']
  else if c.toNat < 0x20 then
    ['\\', 'u', '0', '0', Hex.lowerDigit (c.toNat / 16), Hex.lowerDigit (c.toNat % 16)]
  else [c]

/-- A text in quotes. One that is no sequence of characters has no faithful
    spelling and is written with the mark of an unreadable character. -/
def quoted (value : Option String) : List Char :=
  '"' :: ((value.getD "\uFFFD").toList.flatMap escaped ++ ['"'])

/-- A number as it was read. -/
def Number.written (n : Number) : List Char :=
  (if n.negative then ['-'] else []) ++ n.whole ++
    (match n.fraction with
      | some digits => '.' :: digits
      | none => []) ++
    (match n.exponent with
      | some (down, digits) => 'e' :: ((if down then ['-'] else []) ++ digits)
      | none => [])

mutual

/-- The characters of a value. -/
def written : Json → List Char
  | null => "null".toList
  | bool true => "true".toList
  | bool false => "false".toList
  | number n => n.written
  | text value => quoted value
  | array items => '[' :: (writtenItems items ++ [']'])
  | object members => '\x7b' :: (writtenMembers members ++ ['\x7d'])

/-- The items of an array, with commas between them. -/
def writtenItems : List Json → List Char
  | [] => []
  | [item] => written item
  | item :: next :: rest => written item ++ ',' :: writtenItems (next :: rest)

/-- The members of an object, with commas between them. -/
def writtenMembers : List (Option String × Json) → List Char
  | [] => []
  | [(name, value)] => quoted name ++ ':' :: written value
  | (name, value) :: next :: rest =>
    quoted name ++ ':' :: (written value ++ ',' :: writtenMembers (next :: rest))

end

/-- The text of a value. -/
def write (value : Json) : String := String.ofList (written value)

end Json

end BatchRun
