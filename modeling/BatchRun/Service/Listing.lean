import BatchRun.Http.Error
import BatchRun.Service.Object
import BatchRun.Text.Whole
import BatchRun.Xml.Reader

/-!
# Listings

The XML documents in which a store lists its objects.

Each object is a `Contents` element below the root; elements of other names are
passed over. An object must have a key. Its size is zero if none is given, and
quotes around its tag are no part of the tag. A cursor counts only if the
listing says that it is cut off, and only if it is not empty.

## Main definitions

* `ObjectSummary.ofNode`: The object that an element describes.
* `ObjectPage.ofNode`: The page that a document describes.
* `ObjectPage.ofText`: The page in a text.
-/

namespace BatchRun

namespace ObjectSummary

/-- The size that a text stands for. -/
def readSize (raw : String) : Except ServiceError Nat :=
  (Whole.read Whole.bound64 raw).mapError fun fault =>
    .unreadable s!"invalid Size '{raw}': {fault.message}"

/-- The size in a text that may be absent. -/
def readSize? : Option String → Except ServiceError Nat
  | none => .ok 0
  | some raw => readSize raw

/-- A tag without the quotes around it. -/
def plainTag (tag : String) : String :=
  String.ofList (Text.trimWhere (· == '"') tag.toList)

/-- The object that an element describes. -/
def ofNode (node : Xml.Node) : Except ServiceError ObjectSummary :=
  match node.childText? "Key" with
  | none => .error (.unreadable "listing entry without Key")
  | some key =>
    (readSize? (node.childText? "Size")).map fun size =>
      { key, size, etag := (node.childText? "ETag").map plainTag }

end ObjectSummary

namespace ObjectPage

/-- The page that a document describes. -/
def ofNode (root : Xml.Node) : Except ServiceError ObjectPage :=
  ((root.children.filter (Xml.Node.isNamed "Contents")).mapM ObjectSummary.ofNode).map
    fun objects =>
      let cutOff := root.childText? "IsTruncated" = some "true"
      { objects
        nextToken := (root.childText? "NextContinuationToken").filter fun token =>
          cutOff && !token.isEmpty }

/-- The page in a text. -/
def ofText (text : String) : Except ServiceError ObjectPage :=
  match Xml.read? text with
  | none => .error (.unreadable "Failed to parse listing")
  | some root => ofNode root

end ObjectPage

end BatchRun
