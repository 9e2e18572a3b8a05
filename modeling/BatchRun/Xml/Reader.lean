import BatchRun.Xml.Basic
import BatchRun.Xml.Markup

/-!
# Reading XML

The document that a text stands for.

The reader takes the pieces of a text in turn and keeps a stack of the elements
that are open. A tag that closes must name the innermost of them, every mark of
a namespace must have been declared around it, and there must be one element
that holds all others. Outside of it there is white space, comments and
instructions only, and an XML declaration at the very start.

## Main definitions

* `Xml.Open`: An element that is not closed yet.
* `Xml.read?`: The element that holds the document.
-/

namespace BatchRun

namespace Xml

/-- An element that is not closed yet: its name, the namespace marks it knows,
    and what it holds so far, in reverse. -/
structure Open where
  name : QName
  spaces : List (List Char)
  inside : List Node

/-- Where the reader stands: the open elements, innermost first, and the root
    once it is closed. -/
structure Reading where
  stack : List Open
  root : Option Node

/-- A node behind others, which are in reverse. Text beside text is one
    text. -/
def attach (node : Node) (before : List Node) : List Node :=
  match node, before with
  | .text more, .text content :: rest => .text (content ++ more) :: rest
  | node, before => node :: before

/-- A node where the reader stands. Outside of the root only marks may
    stand. -/
def Reading.add (reading : Reading) (node : Node) : Option Reading :=
  match reading.stack, node with
  | top :: below, node =>
    some { reading with stack := { top with inside := attach node top.inside } :: below }
  | [], .mark => some reading
  | [], .element name children =>
    if reading.root.isNone then some { reading with root := some (.element name children) }
    else none
  | [], .text _ => none

/-- The namespace marks that some attributes declare. -/
def declared (attributes : List (QName × List Char)) : List (List Char) :=
  attributes.filterMap fun (name, _) =>
    if name.space = some ['x', 'm', 'l', 'n', 's'] then some name.local' else none

/-- Whether the namespace mark of a name is known. -/
def isDeclared (spaces : List (List Char)) (name : QName) : Bool :=
  match name.space with
  | none => true
  | some space => space == ['x', 'm', 'l'] || spaces.contains space

/-- Whether the namespace mark of an attribute is known. Declarations carry a
    mark that is always known. -/
def isDeclaredAttribute (spaces : List (List Char)) (name : QName) : Bool :=
  name.space == some ['x', 'm', 'l', 'n', 's'] || isDeclared spaces name

/-- The namespace of the mark `xml`. -/
def xmlSpace : List Char := "http://www.w3.org/XML/1998/namespace".toList

/-- The namespace of the mark `xmlns`. -/
def xmlnsSpace : List Char := "http://www.w3.org/2000/xmlns/".toList

/-- Whether an attribute keeps off the two namespaces that every document knows.
    The mark `xml` may be declared again, as what it is; nothing else may stand
    for its namespace, and nothing at all for that of `xmlns`. -/
def mayDeclare (name : QName) (value : List Char) : Bool :=
  if name.space = some ['x', 'm', 'l', 'n', 's'] then
    value != xmlnsSpace && (name.local' == ['x', 'm', 'l']) == (value == xmlSpace)
  else if name.local' = ['x', 'm', 'l', 'n', 's'] then
    value != xmlnsSpace && value != xmlSpace
  else true

/-- What a tag does. -/
def Reading.tag (reading : Reading) : Tag → Option Reading
  | .start name attributes closed =>
    let known := match reading.stack with
      | top :: _ => top.spaces
      | [] => []
    let spaces := declared attributes ++ known
    if isDeclared spaces name &&
        attributes.all (fun a => isDeclaredAttribute spaces a.1 && mayDeclare a.1 a.2) then
      if closed then reading.add (.element (String.ofList name.local') [])
      else if reading.stack.isEmpty && reading.root.isSome then none
      else some { reading with stack := ⟨name, spaces, []⟩ :: reading.stack }
    else none
  | .finish name =>
    match reading.stack with
    | top :: below =>
      if top.name = name then
        ({ reading with stack := below }).add
          (.element (String.ofList name.local') top.inside.reverse)
      else none
    | [] => none

/-- Whether an instruction is a declaration, which may stand only at the
    start. -/
def isDeclaration (inside : List Char) : Bool :=
  inside.takeWhile (fun c => !isSpace c) == ['x', 'm', 'l']

/-- What a piece does. -/
def Reading.step (reading : Reading) : Piece → Option Reading
  | .tag inside => (Tag.read? inside).bind reading.tag
  | .comment inside =>
    if Text.occursIn ['-', '-'] inside || inside.getLast? = some '-' then none
    else reading.add .mark
  | .instruction inside =>
    if isDeclaration inside || !(inside.head?.map beginsName).getD false then none
    else reading.add .mark
  | .section content =>
    if reading.stack.isEmpty then none
    else reading.add (.text (String.ofList content))
  | .text content =>
    if Text.occursIn [']', ']', '>'] content then none
    else if reading.stack.isEmpty then
      if content.all isSpace then some reading else none
    else (resolve? content).bind fun content => reading.add (.text (String.ofList content))

/-- A text without the mark that may stand before all of it. -/
def withoutMark : List Char → List Char
  | [] => []
  | c :: rest => if c = '\uFEFF' then rest else c :: rest

/-- Pieces without the declaration that they may begin with. -/
def withoutDeclaration : List Piece → List Piece
  | .instruction inside :: rest =>
    if isDeclaration inside then rest else .instruction inside :: rest
  | pieces => pieces

/-- The root that the reader has found, if nothing is open any more. -/
def Reading.found (reading : Reading) : Option Node :=
  if reading.stack.isEmpty then reading.root else none

/-- The element that holds a document. -/
def read? (text : String) : Option Node :=
  let chars := withoutMark text.toList
  if chars.all (fun c => isAllowed c.toNat) then
    (pieces? (normalLines chars)).bind fun pieces =>
      ((withoutDeclaration pieces).foldlM Reading.step ⟨[], none⟩).bind Reading.found
  else none

end Xml

end BatchRun
