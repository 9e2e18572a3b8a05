import BatchRun.Text.Percent
import BatchRun.Text.Split

/-!
# Paths of URLs

The segments of a path, with dots resolved.

A path is read as the list of its segments. A segment of one dot names the
directory it stands in and one of two dots the directory above, also when a dot
is written as `%2e`, and neither survives. If such a segment is the last one
the path ends with a slash, that is with an empty segment. Characters that
cannot stand in a path are percent-encoded; what is already encoded is left as
it is.

## Main definitions

* `Url.PathRules`: What a scheme makes of a path.
* `Url.resolvePath`: The segments that the text of a path stands for.
* `Url.pathText`: Segments written as a path.
-/

namespace BatchRun

namespace Url

/-- What a scheme makes of a path: whether a backslash separates segments too,
    and whether the path may name a drive. -/
structure PathRules where
  backslash : Bool
  drives : Bool

/-- The bytes that are percent-encoded in a path. -/
def isCodedInPath (b : UInt8) : Bool :=
  b ≤ 0x20 || 0x7F ≤ b || b == 0x22 || b == 0x23 || b == 0x3C || b == 0x3E || b == 0x3F ||
    b == 0x60 || b == 0x7B || b == 0x7D

/-- A segment as it stands in a path. -/
def encodeSegment (segment : List Char) : List Char :=
  Percent.encodeWhere isCodedInPath (Utf8.encodeChars segment)

/-- A segment with each encoded dot written as a dot. -/
def plainDots : List Char → List Char
  | '%' :: '2' :: 'e' :: rest => '.' :: plainDots rest
  | '%' :: '2' :: 'E' :: rest => '.' :: plainDots rest
  | c :: rest => c :: plainDots rest
  | [] => []

/-- A segment that names the directory it stands in. -/
def isHere (segment : List Char) : Bool := plainDots segment == ['.']

/-- A segment that names the directory above. -/
def isAbove (segment : List Char) : Bool := plainDots segment == ['.', '.']

/-- Whether a segment names a drive: a letter and a colon, or a bar in place
    of the colon. -/
def isDrive (segment : List Char) : Bool :=
  match segment with
  | [letter, mark] => letter.isAlpha && (mark == ':' || mark == '|')
  | _ => false

/-- The directory above. There is none above the root, nor above a drive. -/
def above (rules : PathRules) (resolved : List (List Char)) : List (List Char) :=
  match resolved with
  | [only] => if rules.drives && isDrive only then [only] else []
  | _ => resolved.dropLast

/-- One segment of a path behind those already resolved. `last` tells that no
    slash follows it. -/
def addSegment (rules : PathRules) (resolved : List (List Char)) (last : Bool)
    (segment : List Char) : List (List Char) :=
  if isAbove segment then
    if last then above rules resolved ++ [[]] else above rules resolved
  else if isHere segment then
    if last then resolved ++ [[]] else resolved
  else resolved ++ [encodeSegment segment]

/-- The segments behind those already resolved. -/
def addSegments (rules : PathRules) (resolved : List (List Char)) :
    List (List Char) → List (List Char)
  | [] => resolved
  | [segment] => addSegment rules resolved true segment
  | segment :: next :: rest =>
    addSegments rules (addSegment rules resolved false segment) (next :: rest)

/-- The segments that the text of a path stands for. The text begins behind
    the first slash. -/
def resolvePath (rules : PathRules) (text : List Char) : List (List Char) :=
  addSegments rules []
    (Text.splitWhere (fun c => c == '/' || (rules.backslash && c == '\\')) text)

/-- Segments written as a path. -/
def pathText (segments : List (List Char)) : List Char :=
  segments.flatMap ('/' :: ·)

end Url

end BatchRun
