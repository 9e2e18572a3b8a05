import BatchRun.Service.Rest
import BatchRun.Session.Basic

/-!
# Sessions over HTTP

Services in memory that are spoken to in requests.

A transport says what becomes of a request. A client with a transport is a
service: each call is written as a request, and what the transport makes of it is
read as the answer. A request that cannot be made never reaches the transport.

## Main definitions

* `Transport`: What becomes of requests.
* `Transport.unreachable`: The transport of a machine without a network.
* `Client.perform`: What comes of a call.
* `Client.service`: A client with a transport.
-/

namespace BatchRun

/-- What becomes of requests. -/
abbrev Transport := HttpRequest → Delivery

/-- An address to which no way leads. -/
def UrlHost.noRoute : List String :=
  ["tcp connect error", "Network is unreachable (os error 101)"]

/-- Why a host is out of reach without a network. Only the machine itself has a
    name that leads to an address. -/
def UrlHost.unreachable : UrlHost → List String
  | .name text =>
    if text = "localhost" then UrlHost.noRoute
    else ["dns error",
      "failed to lookup address information: Temporary failure in name resolution"]
  | _ => UrlHost.noRoute

/-- The transport of a machine without a network. -/
def Transport.unreachable : Transport := fun request =>
  .failed ([request.unsent, "client error (Connect)"] ++
    (request.url.host.map UrlHost.unreachable).getD UrlHost.noRoute)

namespace Client

/-- What comes of a call at a moment. -/
def perform (client : Client) (transport : Transport) (now : Instant) (call : Call) :
    Except ServiceError call.Answer :=
  (client.request now call).bind fun request => call.conclude (transport request)

/-- A client with a transport, as of a moment. -/
def service (client : Client) (transport : Transport) (now : Instant) : Service Unit :=
  { reply := fun call _ =>
      { delay := some Span.zero
        abandoned := ()
        settled := ()
        answer := client.perform transport now call
        cancels := false } }

end Client

end BatchRun
