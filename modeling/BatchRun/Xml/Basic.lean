/-!
# XML Documents

What an XML document says, as far as a reader of service answers asks.

Elements are known by their local names, whatever their namespaces. Text beside
text is one text, however it was written; a comment or a processing instruction
keeps two texts apart and is otherwise without meaning. Attributes are checked
when a document is read and then forgotten.

## Main definitions

* `Xml.Node`: An element, a text or a mark that has no content.
* `Xml.Node.text?`: The text of an element.
* `Xml.Node.find?`: The first element of a name, in the order of the document.
-/

namespace BatchRun

namespace Xml

/-- A node of a document. -/
inductive Node where
  | element (name : String) (children : List Node)
  | text (content : String)
  | mark
  deriving Inhabited

namespace Node

/-- The nodes inside an element. -/
def children : Node → List Node
  | element _ children => children
  | _ => []

/-- Whether a node is an element of a given local name. -/
def isNamed (name : String) : Node → Bool
  | element n _ => n == name
  | _ => false

/-- The text of an element: its first child, if that is a text. -/
def text? (node : Node) : Option String :=
  match node.children with
  | text content :: _ => some content
  | _ => none

/-- The text of the first child element of a name. -/
def childText? (node : Node) (name : String) : Option String :=
  (node.children.find? (isNamed name)).bind text?

mutual

/-- The first element of a name among a node and everything inside it, in the
    order in which they begin. -/
def find? (name : String) : Node → Option Node
  | element n children =>
    if n == name then some (element n children) else findAmong? name children
  | _ => none

/-- The first element of a name among some nodes and everything inside them. -/
def findAmong? (name : String) : List Node → Option Node
  | [] => none
  | node :: rest =>
    match find? name node with
    | some found => some found
    | none => findAmong? name rest

end

end Node

end Xml

end BatchRun
