/-!
# Spans of Time

A length of time in whole nanoseconds, with a largest value.

Poll intervals, timeouts and run limits are all spans. The largest one is
2^64 seconds less a nanosecond, and arithmetic stops there instead of wrapping,
so a span that has grown for long enough stays where it is. The bound is part
of the type: a `Span` is a number with a proof that it fits.

## Main definitions

* `Span`: A bounded number of nanoseconds.
* `Span.ofNanos`, `Span.ofMillis`, `Span.ofSeconds`: Spans of a given length,
  cut off at the largest.
* `Span.add`, `Span.double`: Arithmetic that stops at the largest span.
* `Span.text`: The text of a span in the largest unit that keeps it above one.

## Theorems

* `Span.nanos_ofNanos`: What a cut-off span holds.
-/

namespace BatchRun

/-- One more than the nanoseconds of the largest span. -/
def Span.bound : Nat := 18446744073709551616 * 1000000000

/-- A length of time. -/
structure Span where
  nanos : Nat
  nanos_lt : nanos < Span.bound
  deriving DecidableEq, Repr

namespace Span

theorem bound_pos : 0 < bound := by decide

@[ext] theorem ext {a b : Span} (h : a.nanos = b.nanos) : a = b := by
  cases a
  cases b
  simpa using h

/-- The span of so many nanoseconds, or the largest one. -/
def ofNanos (n : Nat) : Span :=
  ⟨min n (bound - 1), Nat.lt_of_le_of_lt (Nat.min_le_right _ _) (by decide)⟩

/-- The span of so many milliseconds, or the largest one. -/
def ofMillis (n : Nat) : Span := ofNanos (n * 1000000)

/-- The span of so many seconds, or the largest one. -/
def ofSeconds (n : Nat) : Span := ofNanos (n * 1000000000)

/-- No time at all. -/
def zero : Span := ofNanos 0

instance : Inhabited Span := ⟨zero⟩

instance : LE Span := ⟨fun a b => a.nanos ≤ b.nanos⟩

instance : LT Span := ⟨fun a b => a.nanos < b.nanos⟩

instance (a b : Span) : Decidable (a ≤ b) := inferInstanceAs (Decidable (a.nanos ≤ b.nanos))

instance (a b : Span) : Decidable (a < b) := inferInstanceAs (Decidable (a.nanos < b.nanos))

/-- The sum of two spans, or the largest span. -/
def add (a b : Span) : Span := ofNanos (a.nanos + b.nanos)

/-- Twice a span, or the largest span. -/
def double (a : Span) : Span := ofNanos (2 * a.nanos)

/-- The shorter of two spans. -/
def shorter (a b : Span) : Span := if a ≤ b then a else b

/-- The longer of two spans. -/
def longer (a b : Span) : Span := if a ≤ b then b else a

/-- The whole seconds of a span. -/
def seconds (a : Span) : Nat := a.nanos / 1000000000

/-- The nanoseconds of a span beyond its whole seconds. -/
def subseconds (a : Span) : Nat := a.nanos % 1000000000

/-- The whole minutes of a span. -/
def minutes (a : Span) : Nat := a.seconds / 60

/-- Whether a span is no time at all. -/
def isZero (a : Span) : Bool := a.nanos == 0

/-- A number written with a fixed count of digits, less the zeros at its
    end. -/
def fractionDigits (width n : Nat) : List Char :=
  let digits := Nat.toDigits 10 n
  let padded := List.replicate (width - digits.length) '0' ++ digits
  (padded.reverse.dropWhile (· = '0')).reverse

/-- A quotient in decimal, exact because the divisor is the `width`-th power
    of ten. -/
def decimal (width n : Nat) : String :=
  let fraction := fractionDigits width (n % Nat.pow 10 width)
  toString (n / Nat.pow 10 width) ++
    (if fraction.isEmpty then "" else "." ++ String.ofList fraction)

/-- The text of a span, in the largest of the four units seconds, milli-,
    micro- and nanoseconds of which it has at least one. -/
def text (a : Span) : String :=
  if 1000000000 ≤ a.nanos then decimal 9 a.nanos ++ "s"
  else if 1000000 ≤ a.nanos then decimal 6 a.nanos ++ "ms"
  else if 1000 ≤ a.nanos then decimal 3 a.nanos ++ "µs"
  else toString a.nanos ++ "ns"

theorem nanos_ofNanos (n : Nat) : (ofNanos n).nanos = min n (bound - 1) := rfl

theorem nanos_ofNanos_of_lt {n : Nat} (h : n < bound) : (ofNanos n).nanos = n := by
  rw [nanos_ofNanos]
  omega

theorem nanos_add (a b : Span) : (a.add b).nanos = min (a.nanos + b.nanos) (bound - 1) := rfl

theorem nanos_double (a : Span) : a.double.nanos = min (2 * a.nanos) (bound - 1) := rfl

theorem nanos_shorter (a b : Span) : (a.shorter b).nanos = min a.nanos b.nanos := by
  unfold shorter
  split
  · next h => exact (Nat.min_eq_left h).symm
  · next h => exact (Nat.min_eq_right (Nat.le_of_not_le h)).symm

theorem nanos_longer (a b : Span) : (a.longer b).nanos = max a.nanos b.nanos := by
  unfold longer
  split
  · next h => exact (Nat.max_eq_right h).symm
  · next h => exact (Nat.max_eq_left (Nat.le_of_not_le h)).symm

end Span

end BatchRun
