/-!
# Instants

Calendar dates of moments counted in seconds.

A signature carries its date and time in universal time. Days are counted from
the first of January 1970 and turned into a date of the Gregorian calendar, also
before its adoption; years are counted from March, so that the leap day is the
last of its year.

## Main definitions

* `Instant`: A moment in universal time.
* `Instant.ofEpoch`: The moment so many seconds after the start of 1970.
* `Instant.date`, `Instant.stamp`: A moment as a date, and to the second.
-/

namespace BatchRun

/-- A moment in universal time. -/
structure Instant where
  year : Int
  month : Nat
  day : Nat
  hour : Nat
  minute : Nat
  second : Nat
  deriving DecidableEq, Repr

namespace Instant

/-- The moment so many seconds after the start of 1970, or before it. -/
def ofEpoch (seconds : Int) : Instant :=
  let days := seconds.fdiv 86400
  let rest := (seconds.fmod 86400).toNat
  -- Days from the first of March of the year zero, in eras of four centuries.
  let shifted := days + 719468
  let era := shifted.fdiv 146097
  let dayOfEra := (shifted.fmod 146097).toNat
  let yearOfEra :=
    (dayOfEra - dayOfEra / 1460 + dayOfEra / 36524 - dayOfEra / 146096) / 365
  let dayOfYear := dayOfEra - (365 * yearOfEra + yearOfEra / 4 - yearOfEra / 100)
  let marchMonth := (5 * dayOfYear + 2) / 153
  let month := if marchMonth < 10 then marchMonth + 3 else marchMonth - 9
  { year := era * 400 + yearOfEra + (if month ≤ 2 then 1 else 0)
    month
    day := dayOfYear - (153 * marchMonth + 2) / 5 + 1
    hour := rest / 3600
    minute := rest / 60 % 60
    second := rest % 60 }

/-- A number with zeros in front to a width. -/
def padded (width n : Nat) : String :=
  let digits := toString n
  String.ofList (List.replicate (width - digits.length) '0') ++ digits

/-- A year in four digits, with a sign if four do not do. -/
def yearText (year : Int) : String :=
  if 0 ≤ year ∧ year ≤ 9999 then padded 4 year.natAbs
  else (if year < 0 then "-" else "+") ++ padded 4 year.natAbs

/-- The date of a moment in eight digits. -/
def date (t : Instant) : String :=
  yearText t.year ++ padded 2 t.month ++ padded 2 t.day

/-- A moment to the second, in the basic form of ISO 8601. -/
def stamp (t : Instant) : String :=
  t.date ++ "T" ++ padded 2 t.hour ++ padded 2 t.minute ++ padded 2 t.second ++ "Z"

end Instant

end BatchRun
