import BatchRun.Http.Wire
import Std.Async.DNS
import Std.Async.TCP

/-!
# The Network

Sending requests from the machine that the program runs on.

A request is sent over a connection of its own, which the other side closes
behind its answer. Connections are not encrypted: a service that wants that is
named by the address of a proxy.

## Main definitions

* `Network.deliver`: Sends a request.
-/

namespace BatchRun

namespace Network

open Std.Async Std.Net

/-- The port of a request. -/
def port (request : HttpRequest) : UInt16 :=
  UInt16.ofNat (request.url.port.getD (if request.url.scheme = "https" then 443 else 80))

/-- An IPv4 address from its 32 bits. -/
def v4 (address : Nat) : IPv4Addr :=
  let part := fun (shift : Nat) => UInt8.ofNat ((address >>> shift) % 256)
  .ofParts (part 24) (part 16) (part 8) (part 0)

/-- The addresses of a host. -/
def addresses : UrlHost → Async (List IPAddr)
  | .ipv4 address => pure [.v4 (v4 address)]
  | .ipv6 groups => pure ((IPv6Addr.ofString (Ip.v6Text groups)).toList.map .v6)
  | .name text => do pure (← DNS.getAddrInfo text "").toList

/-- An address with a port. -/
def withPort (port : UInt16) : IPAddr → SocketAddress
  | .v4 address => .v4 ⟨address, port⟩
  | .v6 address => .v6 ⟨address, port⟩

/-- Everything that comes until the other side closes the connection. -/
partial def receive (client : TCP.Socket.Client) (found : ByteArray) : Async ByteArray := do
  match ← client.recv? 65536 with
  | some part => receive client (found ++ part)
  | none => pure found

/-- What is answered to some bytes at an address. -/
def exchange (address : SocketAddress) (bytes : Bytes) : Async ByteArray := do
  let client ← TCP.Socket.Client.mk
  client.connect address
  client.send ⟨bytes.toArray⟩
  receive client .empty

/-- What the machine says about a connection. Its numbers are negative. -/
def reason : IO.Error → String
  | .noSuchThing _ code details => s!"{details} (os error {0 - code})"
  | .otherError code details => s!"{details} (os error {0 - code})"
  | .resourceVanished code details => s!"{details} (os error {0 - code})"
  | .timeExpired code details => s!"{details} (os error {0 - code})"
  | .noFileOrDirectory _ code details => s!"{details} (os error {0 - code})"
  | error => toString error

/-- Sends a request. -/
def deliver (request : HttpRequest) : IO Delivery := do
  let failed := fun (reasons : List String) => Delivery.failed (request.unsent :: reasons)
  if request.url.scheme ≠ "http" then
    pure (failed ["client error (Connect)", "connections cannot be encrypted"])
  else
    try
      match ← (addresses (request.url.host.getD (.name ""))).block with
      | [] => pure (failed ["client error (Connect)", "dns error"])
      | address :: _ =>
        let found ← (exchange (withPort (port request) address) request.wire).block
        pure (Delivery.ofBytes request found.toList)
    catch error => pure (failed ["client error (Connect)", "tcp connect error", reason error])

end Network

end BatchRun
