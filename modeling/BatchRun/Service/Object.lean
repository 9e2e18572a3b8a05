import BatchRun.ObjectUri

/-!
# Listed Objects

What a store says about its objects without handing them out.

A listing comes in pages, each but the last with a cursor for the next one. The
size and the tag of an object change whenever it is written anew, so the two
together tell whether it has to be read again.

## Main definitions

* `ObjectSummary`: Key, size and tag of an object.
* `ObjectPage`: Some objects, and the cursor for more.
-/

namespace BatchRun

/-- What a listing says about an object. -/
structure ObjectSummary where
  key : String
  size : Nat
  etag : Option String
  deriving DecidableEq, Repr

/-- A page of a listing. -/
structure ObjectPage where
  objects : List ObjectSummary
  nextToken : Option String
  deriving DecidableEq, Repr

end BatchRun
