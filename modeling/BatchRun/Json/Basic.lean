/-!
# JSON Values

What a JSON text says, with everything kept that a reader may care about.

Objects keep their members in the order of the text, repeated names included:
whether a repetition is an error, or the last one counts, is for the reader of a
message to say. Numbers keep their digits, so a number of any size is a value
and its fitting into a type is again the reader's business. A text may hold an
escape for half of a surrogate pair, which no sequence of characters expresses,
or bytes that are no character; it is then no `String`, and stands as `none`.

## Main definitions

* `Json`: A value.
* `Json.Number`: A number by its digits.
* `Json.fields?`: The values that a record has for its field names.
-/

namespace BatchRun

/-- A number as it is written: its sign, the digits before the point, and the
    digits behind it and the exponent, if they are there. -/
structure Json.Number where
  negative : Bool
  whole : List Char
  fraction : Option (List Char)
  exponent : Option (Bool × List Char)
  deriving DecidableEq, Repr, Inhabited

/-- A JSON value. -/
inductive Json where
  | null
  | bool (value : Bool)
  | number (value : Json.Number)
  | text (value : Option String)
  | array (items : List Json)
  | object (members : List (Option String × Json))
  deriving Inhabited

namespace Json

/-- The value of decimal digits. -/
def digitsValue (digits : List Char) : Nat :=
  digits.foldl (fun value c => value * 10 + (c.toNat - 48)) 0

/-- A number that is written without sign, point and exponent. -/
def Number.natural? (n : Number) : Option Nat :=
  match n.negative, n.fraction, n.exponent with
  | false, none, none => some (digitsValue n.whole)
  | _, _, _ => none

/-- Whether a number is finite in binary floating point. The number of digits
    bounds its size from both sides, so a huge exponent is decided without
    computing the power. -/
def Number.isFinite (n : Number) : Bool :=
  let fraction := n.fraction.getD []
  let digits := digitsValue (n.whole ++ fraction)
  let (down, power) := match n.exponent with
    | some (down, power) => (down, digitsValue power)
    | none => (false, 0)
  let shift : Int := (if down then -(power : Int) else power) - fraction.length
  if digits = 0 || shift < 0 then (Float.ofScientific digits true shift.natAbs).isFinite
  else if 400 < shift then false
  else (Float.ofScientific digits false shift.natAbs).isFinite

/-- A natural number as a value. -/
def ofNat (n : Nat) : Json := number ⟨false, Nat.toDigits 10 n, none, none⟩

/-- A text as a value. -/
def ofText (s : String) : Json := text (some s)

/-- An object with the given members. -/
def record (members : List (String × Json)) : Json :=
  object (members.map fun (name, value) => (some name, value))

/-- The values of the members with a given name. -/
def named (members : List (Option String × Json)) (name : String) : List Json :=
  (members.filter fun member => member.1 = some name).map (·.2)

/-- The values that a record has for its field names, in their order. A record
    is an object in which no field occurs twice, or an array of the fields from
    the first on. -/
def fields? (names : List String) : Json → Option (List (Option Json))
  | object members =>
    if members.any (·.1.isNone) then none
    else names.mapM fun name =>
      match named members name with
      | [] => some none
      | [value] => some (some value)
      | _ => none
  | array items =>
    if names.length < items.length then none
    else some (items.map some ++ List.replicate (names.length - items.length) none)
  | _ => none

/-- A field that must be a text. -/
def required? : Option Json → Option String
  | some (text value) => value
  | _ => none

/-- A field that may be absent or null. The outer option says whether it can
    be read. -/
def optional? {α : Type} (read : Json → Option α) : Option Json → Option (Option α)
  | none => some none
  | some null => some none
  | some value => (read value).map some

/-- A text. -/
def text? : Json → Option String
  | text value => value
  | _ => none

/-- A natural number below a bound. -/
def below? (bound : Nat) : Json → Option Nat
  | number n => n.natural?.bind fun value => if value < bound then some value else none
  | _ => none

/-- A list, each of whose items can be read. -/
def list? {α : Type} (read : Json → Option α) : Json → Option (List α)
  | array items => items.mapM read
  | _ => none

mutual

/-- How deeply arrays and objects are nested. -/
def depth : Json → Nat
  | array items => depths items + 1
  | object members => memberDepths members + 1
  | _ => 0

/-- The largest depth among some values. -/
def depths : List Json → Nat
  | [] => 0
  | item :: rest => max (depth item) (depths rest)

/-- The largest depth among some members. -/
def memberDepths : List (Option String × Json) → Nat
  | [] => 0
  | (_, value) :: rest => max (depth value) (memberDepths rest)

end

mutual

/-- Whether every text is a sequence of characters and every number has a
    finite value in binary floating point. -/
def isPlain : Json → Bool
  | text value => value.isSome
  | number n => n.isFinite
  | array items => arePlain items
  | object members => arePlainMembers members
  | _ => true

/-- Whether all of some values are plain. -/
def arePlain : List Json → Bool
  | [] => true
  | item :: rest => isPlain item && arePlain rest

/-- Whether all of some members are plain. -/
def arePlainMembers : List (Option String × Json) → Bool
  | [] => true
  | (name, value) :: rest => name.isSome && isPlain value && arePlainMembers rest

end

end Json

end BatchRun
