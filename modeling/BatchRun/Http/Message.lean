import BatchRun.Http.Error
import BatchRun.Table
import BatchRun.Text.Utf8
import BatchRun.Url.Basic

/-!
# HTTP Messages

Requests and answers as values.

A request has been addressed and holds its body; header names are in lower case
and occur once. An answer may have come in part only. What becomes of a request
that is sent is a `Delivery`, and no request is ever sent twice.

## Main definitions

* `HttpRequest`: A request.
* `HttpRequest.withHeader`: A request with a header set.
* `HttpResponse`: An answer.
* `Delivery`: What became of a request.
-/

namespace BatchRun

/-- A request. -/
structure HttpRequest where
  method : String
  url : Url
  headers : Table String Bytes
  body : Bytes

/-- An answer. `complete` tells whether the whole body arrived. -/
structure HttpResponse where
  status : Nat
  headers : List (String × Bytes)
  body : Bytes
  complete : Bool

/-- What became of a request that was sent. -/
inductive Delivery where
  | failed (causes : List String)
  | answered (response : HttpResponse)

namespace HttpRequest

/-- Whether a byte may stand in the value of a header. -/
def isHeaderByte (b : UInt8) : Bool :=
  b == 0x09 || (0x20 ≤ b && b != 0x7F)

/-- A request with a header set, in place of one of that name. Controls cannot
    be sent in a header. -/
def withHeader (request : HttpRequest) (name value : String) :
    Except ServiceError HttpRequest :=
  let bytes := Utf8.encode value
  if bytes.all isHeaderByte then
    .ok { request with headers := request.headers.put name bytes }
  else .error (.invalidRequest "invalid header value: failed to parse header value")

/-- An unsigned request to an address that is still a text. -/
def make (method address : String) (headers : Table String Bytes) (body : Bytes) :
    Except ServiceError HttpRequest :=
  match Url.parse address with
  | .ok url =>
    if url.host.isSome then .ok { method, url, headers, body }
    else .error (.unanswered ["builder error", Url.Fault.emptyHost.message])
  | .error fault => .error (.unanswered ["builder error", fault.message])

/-- What is said about a request that got no answer, before the reasons. -/
def unsent (request : HttpRequest) : String :=
  s!"error sending request for url ({request.url.text})"

/-- The path and query of a request, as they are sent. -/
def target (request : HttpRequest) : String :=
  request.url.path ++
    (match request.url.query with
      | some query => "?" ++ query
      | none => "")

end HttpRequest

namespace HttpResponse

/-- Whether the service did what it was asked. -/
def isSuccess (response : HttpResponse) : Bool :=
  200 ≤ response.status && response.status < 300

/-- The value of a header, if it is there and visible ASCII. -/
def header? (response : HttpResponse) (name : String) : Option String :=
  match response.headers.find? fun header => header.1 = name with
  | none => none
  | some (_, value) =>
    if value.all (fun b => b == 0x09 || (0x20 ≤ b && b < 0x7F)) then some (Utf8.lossy value)
    else none

/-- The body as text, if all of it arrived. Both services answer in UTF-8, so a
    body is taken for UTF-8 whatever it is declared to be: another charset in the
    content type is not heeded, and neither is the byte order mark of UTF-16. The
    byte order mark of UTF-8 in front is no part of the text. -/
def text? (response : HttpResponse) : Option String :=
  if response.complete then
    match Utf8.lossyChars response.body with
    | '\uFEFF' :: rest => some (String.ofList rest)
    | chars => some (String.ofList chars)
  else none

end HttpResponse

end BatchRun
