/-!
# Whole Numbers

Reading an unsigned number of bounded width.

Settings, sizes and attempt numbers are whole numbers written in decimal. A
plus sign may stand in front; a minus sign may not, and neither may anything
else. A number that does not fit is told apart from one that is none, since
the two have different messages, and the first fault from the left decides.

## Main definitions

* `Whole.Fault`: Why a text is no such number.
* `Whole.read`: The number a text stands for, below a bound.
-/

namespace BatchRun

namespace Whole

/-- Why a text is not an unsigned number of the width asked for. -/
inductive Fault where
  | empty
  | notDigit
  | tooLarge
  deriving DecidableEq, Repr

/-- The complaint about a fault. -/
def Fault.message : Fault → String
  | .empty => "cannot parse integer from empty string"
  | .notDigit => "invalid digit found in string"
  | .tooLarge => "number too large to fit in target type"

/-- One more than the largest number of sixty-four bits. -/
def bound64 : Nat := 18446744073709551616

/-- The value of a decimal digit. -/
def digit? (c : Char) : Option Nat :=
  if '0' ≤ c ∧ c ≤ '9' then some (c.toNat - 48) else none

/-- The value of a run of digits, continued from the value of those before. -/
def readDigits (bound value : Nat) : List Char → Except Fault Nat
  | [] => .ok value
  | c :: rest =>
    match digit? c with
    | none => .error .notDigit
    | some d =>
      if value * 10 + d < bound then readDigits bound (value * 10 + d) rest
      else .error .tooLarge

/-- The number below `bound` that a text stands for. -/
def read (bound : Nat) (text : String) : Except Fault Nat :=
  match text.toList with
  | [] => .error .empty
  | ['+'] => .error .notDigit
  | '+' :: digits => readDigits bound 0 digits
  | digits => readDigits bound 0 digits

end Whole

end BatchRun
