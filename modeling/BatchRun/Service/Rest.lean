import BatchRun.Http.Signing
import BatchRun.Service.Call
import BatchRun.Service.Failure
import BatchRun.Service.Listing

/-!
# Services over HTTP

How calls are written as requests, and answers read.

Every call is one request. Its address is the endpoint of the service with one
component for each name behind it; a component may hold any text, since what
has a meaning in a URL is encoded. A request is built, then signed if there are
credentials, then sent; the first of these that fails decides. An answer either
reports a failure or holds what was asked for.

## Main definitions

* `Client`: Where the services are, and who asks.
* `Client.address`: The address of a call.
* `Client.request`: The request for a call.
* `Call.read`: What an answer says.
* `Call.conclude`: What came of a call.
-/

namespace BatchRun

/-- Where the two services are, and who asks. -/
structure Client where
  region : String
  controlPlane : String
  objectStore : String
  credentials : Option Credentials

namespace Client

/-- The name of the control plane in addresses and signatures. -/
def controlPlaneName : String := "emr-serverless"

/-- The name of the store in addresses and signatures. -/
def objectStoreName : String := "s3"

/-- Where a service of a region is. -/
def regional (service region : String) : String :=
  "https://" ++ service ++ "." ++ region ++ ".amazonaws.com"

/-- An endpoint without the slashes at its end. -/
def trimEndpoint (endpoint : String) : String :=
  String.ofList (endpoint.toList.reverse.dropWhile (· == '/')).reverse

/-- The services of a region, or those that were named instead. -/
def make (region : String) (controlPlane objectStore : Option String)
    (credentials : Option Credentials) : Client :=
  { region, credentials
    controlPlane := (controlPlane.map trimEndpoint).getD (regional controlPlaneName region)
    objectStore := (objectStore.map trimEndpoint).getD (regional objectStoreName region) }

/-- Some names as the components of a path. -/
def components (names : List String) : String :=
  "".intercalate (names.map fun name => "/" ++ Percent.component name)

/-- The address of an object. The slashes of its key separate components. -/
def objectAddress (client : Client) (uri : ObjectUri) : String :=
  client.objectStore ++ components
    (uri.bucket :: (Text.splitOn '/' uri.key.toList).map String.ofList)

/-- The address of a run, with more names behind it. -/
def runAddress (client : Client) (handle : RunHandle) (more : List String) : String :=
  client.controlPlane ++
    components (["applications", handle.applicationId, "jobruns", handle.runId] ++ more)

/-- A name in a query with its value, behind a mark that separates it. -/
def queryPair (mark name : String) : Option String → String
  | none => ""
  | some value => mark ++ name ++ "=" ++ Percent.component value

/-- The address of a call. -/
def address (client : Client) : Call → String
  | .put uri _ => client.objectAddress uri
  | .get uri => client.objectAddress uri
  | .delete uri => client.objectAddress uri
  | .list root token =>
    client.objectStore ++ components [root.bucket] ++ "?list-type=2" ++
      queryPair "&" "prefix" (some root.listing) ++ queryPair "&" "continuation-token" token
  | .submit request =>
    client.controlPlane ++ components ["applications", request.applicationId, "jobruns"]
  | .attempts handle token =>
    client.runAddress handle ["attempts"] ++ queryPair "?" "nextToken" token
  | .cancel handle => client.runAddress handle []
  | .application applicationId =>
    client.controlPlane ++ components ["applications", applicationId]

/-- The method of a call. -/
def method : Call → String
  | .put _ _ => "PUT"
  | .delete _ => "DELETE"
  | .cancel _ => "DELETE"
  | .submit _ => "POST"
  | _ => "GET"

/-- What is sent along with a call. -/
def body : Call → Bytes
  | .put _ content => content
  | .submit request => Utf8.encode (Json.write request.toJson)
  | _ => []

/-- The headers of a call. -/
def headers : Call → Table String Bytes
  | .submit _ => [("content-type", Utf8.encode "application/json")]
  | _ => []

/-- Who signs a call. -/
def signer? (client : Client) (call : Call) : Option Signer :=
  client.credentials.map fun credentials =>
    { credentials
      region := client.region
      service := if call.isStoreCall then objectStoreName else controlPlaneName }

/-- A request with the signature of a client that has credentials. -/
def sign (client : Client) (call : Call) (now : Instant) (request : HttpRequest) :
    Except ServiceError HttpRequest :=
  match client.signer? call with
  | some signer => signer.signAt request now
  | none => .ok request

/-- The request for a call. A bucket itself cannot be put. -/
def request (client : Client) (now : Instant) (call : Call) : Except ServiceError HttpRequest :=
  let built := (HttpRequest.make (method call) (client.address call) (headers call)
    (body call)).bind (client.sign call now)
  match call with
  | .put uri _ =>
    if uri.key.isEmpty then
      .error (.invalidRequest s!"cannot put object at bucket root {uri.text}")
    else built
  | _ => built

end Client

namespace Call

/-- What the body of an answer says in JSON. The texts that are not looked into
    may hold any bytes. -/
def readJson {α : Type} (response : HttpResponse) (read : Json → Option α) :
    Except ServiceError α :=
  let found := if response.complete then (Json.readBytes? response.body).bind read else none
  match found with
  | some value => .ok value
  | none =>
    .error (.unreadable "Failed to parse JSON response: error decoding response body")

/-- The error of a body of which only a part arrived. -/
def broken : ServiceError := .unanswered ["error decoding response body"]

/-- What a successful answer says. -/
def read (response : HttpResponse) : (call : Call) → Except ServiceError call.Answer
  | put _ _ => .ok ()
  | delete _ => .ok ()
  | cancel _ => .ok ()
  | get _ => if response.complete then .ok response.body else .error broken
  | list _ _ =>
    match response.text? with
    | some text => ObjectPage.ofText text
    | none => .error broken
  | submit _ => readJson response RunHandle.ofJson?
  | attempts _ _ => readJson response AttemptPage.ofJson?
  | application _ => readJson response Application.ofJson?

/-- What came of a call. What is to be deleted may be missing. -/
def conclude (call : Call) : Delivery → Except ServiceError call.Answer
  | .failed causes => .error (.unanswered causes)
  | .answered response =>
    if response.isSuccess then call.read response
    else
      match call with
      | .delete _ => if response.failure.isNotFound then .ok () else .error response.failure
      | _ => .error response.failure

end Call

end BatchRun
