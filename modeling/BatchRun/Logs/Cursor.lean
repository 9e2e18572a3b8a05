import BatchRun.Deflate.Gzip
import BatchRun.Logs.Line
import BatchRun.Service.Object

/-!
# Log Cursors

How far a log object has been read.

A log object is written anew whenever its stream goes on, and is then read from
the start. The cursor counts the lines that were delivered, so only those behind
them are new. A last line without its line feed may be half of one, so it is
held back until the rest has come, or until nothing more can come.

Delivering a line that was held back counts it. Should the object have another
one in its place later, that one is taken for the line that was delivered.

## Main definitions

* `LogCursor`: How far an object has been read.
* `LogCursor.splitTail`: The finished lines of a text, and what follows them.
* `LogCursor.advance`: The lines that are new in a text.
* `LogCursor.release`: The line that was held back.
* `LogCursor.decode?`: The text of an object.
-/

namespace BatchRun

/-- How far a log object has been read: its size and tag at the last reading,
    the count of delivered lines, and the text that was held back. -/
structure LogCursor where
  size : Nat
  etag : Option String
  emitted : Nat
  tail : Option String
  deriving DecidableEq, Repr

namespace LogCursor

/-- The cursor of an object that was never read. -/
def start : LogCursor := ⟨0, none, 0, none⟩

/-- Whether an object is as it was when it was last read. -/
def isCurrent (cursor : LogCursor) (object : ObjectSummary) : Bool :=
  cursor.size == object.size && cursor.etag == object.etag

/-- A text up to its last line feed, and what follows. -/
def splitTail (text : List Char) : List Char × List Char :=
  match Text.cutAtLast '\n' text with
  | some (before, after) => (before ++ ['\n'], after)
  | none => ([], text)

/-- The finished lines of a text. -/
def finished (text : List Char) : List String :=
  (Text.lines (splitTail text).1).map String.ofList

/-- What follows the finished lines of a text. -/
def unfinished (text : List Char) : String :=
  String.ofList (splitTail text).2

/-- The lines that are new in the text of an object, and the cursor behind
    them. `flush` tells that nothing more can come. -/
def advance (cursor : LogCursor) (object : ObjectSummary) (text : List Char) (flush : Bool) :
    List String × LogCursor :=
  let lines := finished text
  let fresh := lines.drop cursor.emitted
  let emitted := max cursor.emitted lines.length
  let tail := unfinished text
  let moved := { cursor with size := object.size, etag := object.etag, emitted, tail := none }
  if tail.isEmpty || emitted != lines.length then (fresh, moved)
  else if flush then (fresh ++ [tail], { moved with emitted := emitted + 1 })
  else (fresh, { moved with tail := some tail })

/-- The line that was held back, and the cursor behind it. -/
def release (cursor : LogCursor) : List String × LogCursor :=
  match cursor.tail with
  | some tail => ([tail], { cursor with tail := none, emitted := cursor.emitted + 1 })
  | none => ([], cursor)

/-- The text of an object. One that is compressed may be unreadable. -/
def decode? (key : String) (body : Bytes) : Option (List Char) :=
  if LogSource.isCompressed key then (Gzip.decode? body).map Utf8.lossyChars
  else some (Utf8.lossyChars body)

end LogCursor

end BatchRun
