import BatchRun.Json.Token

/-!
# Reading JSON

The value that a sequence of tokens stands for.

The reader is a machine with a stack. A frame holds an array or an object that
has been opened and not closed, and what is on top of the stack is waiting for
the value at hand. Nesting costs frames and nothing else, so a text may nest to
any depth.

## Main definitions

* `Json.Frame`: A container that is not closed yet.
* `Json.Awaiting`: What has to come next.
* `Json.read?`, `Json.readBytes?`: The value that a text or some bytes stand for.
-/

namespace BatchRun

namespace Json

/-- A container that is not closed yet, with its contents in reverse. An
    object also holds the name of the member whose value is being read. -/
inductive Frame where
  | array (items : List Json)
  | object (members : List (Option String × Json)) (name : Option String)

/-- What has to come next. -/
inductive Awaiting where
  /-- A value. -/
  | value
  /-- The first item of an array, or its end. -/
  | firstItem
  /-- The first name of an object, or its end. -/
  | firstName
  /-- A name, behind these members. -/
  | name (members : List (Option String × Json))
  /-- The colon behind a name. -/
  | colon (members : List (Option String × Json)) (name : Option String)
  /-- What follows a value that is complete. -/
  | next (value : Json)

/-- Where the reader stands. -/
structure Reading where
  stack : List Frame
  awaiting : Awaiting

/-- A token where a value has to begin. -/
def Reading.begin (stack : List Frame) : Token → Option Reading
  | .null => some ⟨stack, .next .null⟩
  | .bool value => some ⟨stack, .next (.bool value)⟩
  | .number value => some ⟨stack, .next (.number value)⟩
  | .text value => some ⟨stack, .next (.text value)⟩
  | .arrayStart => some ⟨stack, .firstItem⟩
  | .objectStart => some ⟨stack, .firstName⟩
  | _ => none

/-- One token. -/
def Reading.step (reading : Reading) (token : Token) : Option Reading :=
  match reading.awaiting with
  | .value => Reading.begin reading.stack token
  | .firstItem =>
    if token = .arrayEnd then some ⟨reading.stack, .next (.array [])⟩
    else Reading.begin (.array [] :: reading.stack) token
  | .firstName =>
    match token with
    | .objectEnd => some ⟨reading.stack, .next (.object [])⟩
    | .text name => some ⟨reading.stack, .colon [] name⟩
    | _ => none
  | .name members =>
    match token with
    | .text name => some ⟨reading.stack, .colon members name⟩
    | _ => none
  | .colon members name =>
    if token = .colon then some ⟨.object members name :: reading.stack, .value⟩ else none
  | .next value =>
    match reading.stack, token with
    | .array items :: below, .comma => some ⟨.array (value :: items) :: below, .value⟩
    | .array items :: below, .arrayEnd => some ⟨below, .next (.array (value :: items).reverse)⟩
    | .object members name :: below, .comma => some ⟨below, .name ((name, value) :: members)⟩
    | .object members name :: below, .objectEnd =>
      some ⟨below, .next (.object ((name, value) :: members).reverse)⟩
    | _, _ => none

/-- Where the reader stands after some tokens. -/
def Reading.run (reading : Reading) (tokens : List Token) : Option Reading :=
  tokens.foldlM Reading.step reading

/-- The value that a sequence of tokens stands for. -/
def ofTokens? (tokens : List Token) : Option Json :=
  match Reading.run ⟨[], .value⟩ tokens with
  | some ⟨[], .next value⟩ => some value
  | _ => none

/-- The value that a text stands for. -/
def read? (text : String) : Option Json :=
  (tokens? text).bind ofTokens?

/-- The value that some bytes stand for. A text in them that is not UTF-8 is no
    `String`, and leaves the others as they are. -/
def readBytes? (bytes : Bytes) : Option Json :=
  (tokensOfPieces .between (Utf8.decode bytes)).bind ofTokens?

end Json

end BatchRun
