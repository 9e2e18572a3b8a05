import BatchRun.Http.Message
import BatchRun.Json.Reader
import BatchRun.Text.Blank
import BatchRun.Xml.Reader

/-!
# Failures Reported by Services

The error that an unsuccessful answer stands for.

A service gives a failure a code and a message, in one of three ways. The code
may stand in a header, with a colon and more behind it. The body may be a JSON
object, with the code behind a namespace, or an XML document with two elements.
A header counts before the body; a body that gives no message is the message
itself.

## Main definitions

* `ServiceFailure.ofHeader`, `ServiceFailure.ofJson`, `ServiceFailure.ofXml`:
  Code and message in the three ways.
* `HttpResponse.failure`: The error that an answer stands for.
-/

namespace BatchRun

namespace ServiceFailure

/-- The header that may hold the code. -/
def codeHeader : String := "x-amzn-errortype"

/-- The code in a header, which a colon ends. -/
def ofHeader (value : String) : String :=
  String.ofList (value.toList.takeWhile (· ≠ ':'))

/-- A code without the namespace before it. -/
def withoutNamespace (code : String) : String :=
  match Text.cutAtLast '#' code.toList with
  | some (_, name) => String.ofList name
  | none => code

/-- How deeply a JSON body may be nested. -/
def depthLimit : Nat := 127

/-- The last member of an object with a given name, if it is a text. -/
def member? (value : Json) (name : String) : Option String :=
  match value with
  | .object members => (Json.named members name).getLast?.bind Json.text?
  | _ => none

/-- Code and message of a JSON body. -/
def ofJson (body : String) : Option String × Option String :=
  match (Json.read? body).filter fun value => value.depth ≤ depthLimit && value.isPlain with
  | none => (none, none)
  | some value =>
    ((member? value "__type").map withoutNamespace,
      (member? value "message").or (member? value "Message"))

/-- Code and message of an XML body. -/
def ofXml (body : String) : Option String × Option String :=
  match Xml.read? body with
  | none => (none, none)
  | some root =>
    ((root.find? "Code").bind Xml.Node.text?, (root.find? "Message").bind Xml.Node.text?)

/-- Code and message of a body. One that begins with an angle bracket is taken
    for XML. -/
def ofBody (body : String) : Option String × Option String :=
  if (body.toList.dropWhile Text.isBlank).head? = some '<' then ofXml body else ofJson body

/-- The body of an answer of which only a part arrived. -/
def brokenBody : String := "Unknown error"

end ServiceFailure

/-- The error that an unsuccessful answer stands for. -/
def HttpResponse.failure (response : HttpResponse) : ServiceError :=
  let body := response.text?.getD ServiceFailure.brokenBody
  let (code, message) := ServiceFailure.ofBody body
  let header := (response.header? ServiceFailure.codeHeader).map ServiceFailure.ofHeader
  ServiceError.ofResponse response.status ((header.or code).getD "") (message.getD body)

end BatchRun
