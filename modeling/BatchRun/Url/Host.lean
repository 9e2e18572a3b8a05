import BatchRun.Url.Ip
import BatchRun.Url.Domain

/-!
# Hosts of URLs

What stands between the two slashes and the path.

How a host is read depends on the scheme. The schemes of the web know domains
and numeric addresses, and a domain is folded to lower case. For any other
scheme, that of an object store among them, the host is an uninterpreted name:
its case is kept, characters outside ASCII are percent-encoded, and only an
address in brackets is understood.

## Main definitions

* `UrlHost`: A name, or a numeric address.
* `Url.Fault`: Why a text is not a URL.
* `UrlHost.readDomain`, `UrlHost.readName`: The two ways to read a host.
* `UrlHost.text`: A host as it is written.
-/

namespace BatchRun

/-- Why a text is not a URL. -/
inductive Url.Fault where
  | noScheme
  | emptyHost
  | badDomain
  | badHostCharacter
  | badPort
  | badIpv4
  | badIpv6
  deriving DecidableEq, Repr

/-- The complaint about a fault. -/
def Url.Fault.message : Url.Fault → String
  | .noScheme => "relative URL without a base"
  | .emptyHost => "empty host"
  | .badDomain => "invalid international domain name"
  | .badHostCharacter => "invalid domain character"
  | .badPort => "invalid port number"
  | .badIpv4 => "invalid IPv4 address"
  | .badIpv6 => "invalid IPv6 address"

/-- The host of a URL. -/
inductive UrlHost where
  | name (text : String)
  | ipv4 (address : Nat)
  | ipv6 (groups : List Nat)
  deriving DecidableEq, Repr

namespace UrlHost

/-- A host as it is written in a URL. -/
def text : UrlHost → String
  | .name text => text
  | .ipv4 address => Ip.v4Text address
  | .ipv6 groups => "[" ++ Ip.v6Text groups ++ "]"

/-- An address in brackets, of which the opening one has been read. -/
def readBracketed (inside : List Char) : Except Url.Fault UrlHost :=
  match inside.reverse with
  | ']' :: groups =>
    match Ip.readV6 groups.reverse with
    | some groups => .ok (.ipv6 groups)
    | none => .error .badIpv6
  | _ => .error .badIpv6

/-- The characters that an uninterpreted name may not hold. -/
def isForbiddenInName (c : Char) : Bool :=
  ['\u0000', '\t', '\n', '\r', ' ', '#', '/', ':', '<', '>', '?', '@', '[', '\\', ']', '^',
    '|'].contains c

/-- The bytes of a name that are percent-encoded: controls and what is not
    ASCII. -/
def isCodedInName (b : UInt8) : Bool :=
  b < 0x20 || 0x7F ≤ b

/-- A host of a scheme that does not interpret it. It may be empty. -/
def readName (host : List Char) : Except Url.Fault UrlHost :=
  match host with
  | '[' :: inside => readBracketed inside
  | host =>
    if host.any isForbiddenInName then .error .badHostCharacter
    else .ok (.name (String.ofList (Percent.encodeWhere isCodedInName (Utf8.encodeChars host))))

/-- A host of a scheme of the web. -/
def readDomain (host : List Char) : Except Url.Fault UrlHost :=
  match host with
  | '[' :: inside => readBracketed inside
  | host =>
    match Domain.toAscii (Utf8.lossyChars (Percent.decode (Utf8.encodeChars host))) with
    | none => .error .badDomain
    | some domain =>
      if domain.isEmpty then .error .emptyHost
      else if Ip.endsInNumber domain then
        match Ip.readV4 domain with
        | some address => .ok (.ipv4 address)
        | none => .error .badIpv4
      else .ok (.name (String.ofList domain))

end UrlHost

end BatchRun
