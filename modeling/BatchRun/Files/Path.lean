import BatchRun.Text.Split
import BatchRun.Text.Utf8

/-!
# Paths

The names by which files are asked for, as bytes.

A path is a sequence of steps between slashes, and need not be UTF-8. Taking a
path apart is a matter of its text alone: nothing is looked up. A step that is
empty or a single dot leads nowhere, so those at the end are passed over, while
those in the middle are kept as they are written; two dots are a step like any
other.

## Main definitions

* `Path.fileName?`: The last step of a path.
* `Path.parent?`: The path without its last step.
* `Path.ancestors`: A path and what is left as its steps are taken away.
* `Path.below`: A path with another one behind it.
* `Path.shown`: A path as it is shown.
-/

namespace BatchRun

/-- A path, or one of its steps. -/
abbrev Path := Bytes

namespace Path

/-- The code of the slash. -/
def slash : UInt8 := 0x2F

/-- The step that stays where it is. -/
def dot : Path := [0x2E]

/-- The step to the folder above. -/
def dots : Path := [0x2E, 0x2E]

/-- The steps of a path. The first one is empty if the path is absolute. -/
def steps (path : Path) : List Path :=
  Text.splitOn slash path

/-- Whether a step leads nowhere. -/
def isIdle (step : Path) : Bool :=
  step == [] || step == dot

/-- Steps without the idle ones at the end. -/
def trimIdle (steps : List Path) : List Path :=
  (steps.reverse.dropWhile isIdle).reverse

/-- The last step of a path, if it is a name. -/
def fileName? (path : Path) : Option Path :=
  (trimIdle (steps path)).getLast?.filter (· != dots)

/-- Whether a path begins at the root. -/
def isAbsolute (path : Path) : Bool :=
  path.head? == some slash

/-- A path of which the first step is given apart. -/
def ofSteps (first : Path) (rest : List Path) : Path :=
  if rest.isEmpty && first.isEmpty then [slash]
  else Text.joinWith [slash] (first :: rest)

/-- A path without its last step. The root and the empty path have none. -/
def parent? (path : Path) : Option Path :=
  match steps path with
  | [] => none
  | first :: rest =>
    match trimIdle rest with
    | [] => if first.isEmpty then none else some []
    | named => some (ofSteps first (trimIdle named.dropLast))

/-- The paths above a path, at most so many. -/
def above : Nat → Path → List Path
  | 0, _ => []
  | count + 1, path =>
    match parent? path with
    | none => []
    | some parent => parent :: above count parent

/-- The paths above a path, the nearest first. Each is shorter than the one
    before, so there are at most as many as the path has bytes. -/
def ancestors (path : Path) : List Path :=
  above (path.length + 1) path

/-- A path with another one behind it. An absolute one stands for itself. -/
def below (path tail : Path) : Path :=
  if isAbsolute tail || path.isEmpty then tail
  else if path.getLast? == some slash then path ++ tail
  else path ++ slash :: tail

/-- A path as it is shown. -/
def shown (path : Path) : String :=
  Utf8.lossy path

end Path

end BatchRun
