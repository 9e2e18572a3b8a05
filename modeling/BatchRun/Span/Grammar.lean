import BatchRun.Span.Basic
import BatchRun.Text.Blank

/-!
# Written Durations

Reading a run limit such as `1h30m` or `1.5h`.

A duration is a sequence of decimal numbers, each with a unit, or a bare `0`.
The reader cuts the text where digits and points end and where they begin
again, so a unit is whatever stands between two numbers, and an unknown one is
named in the complaint as it was written.

The sum is taken in binary floating point, from left to right, and rounded to
whole nanoseconds at the end, half away from zero. A sum above 2^64 nanoseconds
is out of range; 2^64 itself is not, and stands for one nanosecond less.

## Main definitions

* `Duration.Fault`: Why a text is not a duration.
* `Duration.Term`: A number with its unit.
* `Duration.terms`: The terms of a text.
* `Duration.read`: The span a text stands for.
-/

namespace BatchRun

namespace Duration

/-- Why a text is not a duration. -/
inductive Fault where
  | empty
  | missingUnit
  | missingNumber
  | badNumber (text : String)
  | unknownUnit (text : String)
  | outOfRange
  deriving DecidableEq, Repr

/-- The complaint about a fault. -/
def Fault.message : Fault → String
  | .empty => "empty duration string"
  | .missingUnit => "missing unit suffix"
  | .missingNumber => "expected a number"
  | .badNumber text => s!"invalid number '{text}'"
  | .unknownUnit text => s!"unsupported unit '{text}'; expected ns, us, ms, s, m, or h"
  | .outOfRange => "duration out of range"

/-- A unit of time. -/
inductive Scale where
  | nanosecond
  | microsecond
  | millisecond
  | second
  | minute
  | hour
  deriving DecidableEq, Repr

/-- The nanoseconds in a unit. -/
def Scale.nanos : Scale → Nat
  | .nanosecond => 1
  | .microsecond => 1000
  | .millisecond => 1000000
  | .second => 1000000000
  | .minute => 60000000000
  | .hour => 3600000000000

/-- The unit that a text names. The microsecond has two spellings, one with
    the micro sign U+00B5. -/
def Scale.ofText? (text : List Char) : Option Scale :=
  if text = ['n', 's'] then some .nanosecond
  else if text = ['u', 's'] ∨ text = ['\u00b5', 's'] then some .microsecond
  else if text = ['m', 's'] then some .millisecond
  else if text = ['s'] then some .second
  else if text = ['m'] then some .minute
  else if text = ['h'] then some .hour
  else none

/-- A decimal number: the digits of its two parts as one number, and how many
    of them stand behind the point. -/
structure Decimal where
  digits : Nat
  places : Nat
  deriving DecidableEq, Repr

/-- A number with its unit. -/
structure Term where
  amount : Decimal
  scale : Scale
  deriving DecidableEq, Repr

/-- Whether a character may stand in a number. -/
def isNumeric (c : Char) : Bool :=
  ('0' ≤ c && c ≤ '9') || c == '.'

/-- The number that decimal digits stand for. -/
def digitsValue (digits : List Char) : Nat :=
  digits.foldl (fun value c => value * 10 + (c.toNat - 48)) 0

/-- The number written by digits and points: one point at most, and one digit
    at least. -/
def Decimal.ofText? (text : List Char) : Option Decimal :=
  match Text.splitOn '.' text with
  | [whole] => if whole.isEmpty then none else some ⟨digitsValue whole, 0⟩
  | [whole, fraction] =>
    if whole.isEmpty && fraction.isEmpty then none
    else some ⟨digitsValue (whole ++ fraction), fraction.length⟩
  | _ => none

/-- The terms of a text. Each turn takes a number and the unit behind it. -/
def terms : List Char → Except Fault (List Term)
  | [] => .ok []
  | c :: rest =>
    match _h : (c :: rest).dropWhile isNumeric with
    | [] => .error .missingUnit
    | u :: tail =>
      let number := (c :: rest).takeWhile isNumeric
      let unit := (u :: tail).takeWhile (!isNumeric ·)
      if number.isEmpty then .error .missingNumber
      else match Decimal.ofText? number with
        | none => .error (.badNumber (String.ofList number))
        | some amount =>
          match Scale.ofText? unit with
          | none => .error (.unknownUnit (String.ofList unit))
          | some scale =>
            (terms (tail.dropWhile (!isNumeric ·))).map (⟨amount, scale⟩ :: ·)
  termination_by text => text.length
  decreasing_by
    have h₁ : (tail.dropWhile (!isNumeric ·)).length ≤ tail.length :=
      (List.dropWhile_sublist _).length_le
    have h₂ : ((c :: rest).dropWhile isNumeric).length ≤ (c :: rest).length :=
      (List.dropWhile_sublist _).length_le
    rw [_h] at h₂
    simp only [List.length_cons] at h₂ ⊢
    omega

/-- The length of a term in nanoseconds, in binary floating point. -/
def Term.length (term : Term) : Float :=
  Float.ofScientific term.amount.digits true term.amount.places * term.scale.nanos.toFloat

/-- The span of so many nanoseconds, rounded half away from zero. -/
def spanOf (total : Float) : Except Fault Span :=
  if total ≤ 18446744073709551616.0 then .ok (Span.ofNanos total.round.toUInt64.toNat)
  else .error .outOfRange

/-- The span that a text stands for. -/
def read (text : String) : Except Fault Span :=
  let trimmed := (Text.trim text).toList
  if trimmed.isEmpty then .error .empty
  else if trimmed = ['0'] then .ok Span.zero
  else (terms trimmed).bind fun found =>
    spanOf (found.foldl (fun total term => total + term.length) 0.0)

end Duration

end BatchRun
