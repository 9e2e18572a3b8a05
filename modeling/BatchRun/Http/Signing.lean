import BatchRun.Connection
import BatchRun.Digest.Sha256
import BatchRun.Http.Instant
import BatchRun.Http.Message
import BatchRun.Text.Blank

/-!
# Request Signing

Signature Version 4 of the services' request signing.

A signature is taken over a canonical text of the request: its method, path,
sorted query pairs, the headers that are signed, and the digest of the body.
The signed headers are the host, the digest, the moment and, if there is one,
the session token; other headers are left out, so they may change on the way.
The key is derived from the secret, the day, the region and the service.

Signing sets the signed headers, the host apart, and the authorization, over
whatever the request had under these names.

## Main definitions

* `Signer`: Credentials for one service in one region.
* `Signer.canonicalRequest`: The text that is signed, by its digest.
* `Authorization`: The parts of the authorization header.
* `Signer.signAt`: A request with its signature.
-/

namespace BatchRun

/-- Credentials for one service in one region. -/
structure Signer where
  credentials : Credentials
  region : String
  service : String

/-- The parts of an authorization header. -/
structure Authorization where
  accessKey : String
  date : String
  region : String
  service : String
  signedHeaders : List String
  signature : String
  deriving DecidableEq

namespace Authorization

/-- The name of the scheme. -/
def algorithm : String := "AWS4-HMAC-SHA256"

/-- What a signature is good for: a day, a region and a service. -/
def scope (date region service : String) : String :=
  date ++ "/" ++ region ++ "/" ++ service ++ "/aws4_request"

/-- The text of the header. -/
def text (a : Authorization) : String :=
  algorithm ++ " Credential=" ++ a.accessKey ++ "/" ++ scope a.date a.region a.service ++
    ", SignedHeaders=" ++ ";".intercalate a.signedHeaders ++ ", Signature=" ++ a.signature

end Authorization

namespace Signer

/-- The pairs of a query. A bare name is a pair with an empty value, and
    nothing between two ampersands is no pair. -/
def queryPairs (query : List Char) : List (List Char × List Char) :=
  ((Text.splitOn '&' query).filter (!·.isEmpty)).map fun pair =>
    (Text.cutAtFirst '=' pair).getD (pair, [])

/-- Whether a pair stands before another: by its name, then its value. -/
def pairLe (a b : List Char × List Char) : Bool :=
  decide (a.1 < b.1) || (a.1 == b.1 && !decide (b.2 < a.2))

/-- The pairs of a query in ascending order. -/
def canonicalQuery (query : List Char) : List Char :=
  Text.joinWith ['&']
    (((queryPairs query).mergeSort pairLe).map fun (name, value) => name ++ '=' :: value)

/-- The host of a request, as it is sent. -/
def hostText (request : HttpRequest) : String := request.url.authority

/-- The digest of a request's body. -/
def payloadHash (request : HttpRequest) : String := Hex.encode (Sha256.digest request.body)

/-- The headers that are signed, in ascending order of their names. -/
def signedHeaders (signer : Signer) (request : HttpRequest) (now : Instant) :
    List (String × String) :=
  [("host", hostText request), ("x-amz-content-sha256", payloadHash request),
    ("x-amz-date", now.stamp)] ++
    (match signer.credentials.sessionToken with
      | some token => [("x-amz-security-token", token)]
      | none => [])

/-- The canonical text of a request with given signed headers and digest. -/
def canonicalText (request : HttpRequest) (headers : List (String × String))
    (payload : String) : String :=
  "\n".intercalate
    [request.method,
      if request.url.path.isEmpty then "/" else request.url.path,
      String.ofList (canonicalQuery ((request.url.query.getD "").toList)),
      "".intercalate (headers.map fun (name, value) => name ++ ":" ++ Text.trim value ++ "\n"),
      ";".intercalate (headers.map (·.1)),
      payload]

/-- The text that is signed, by its digest. -/
def canonicalRequest (signer : Signer) (request : HttpRequest) (now : Instant) : String :=
  canonicalText request (signer.signedHeaders request now) (payloadHash request)

/-- The key for a day. -/
def signingKey (signer : Signer) (date : String) : Bytes :=
  let secret := Utf8.encode ("AWS4" ++ signer.credentials.secretKey)
  [date, signer.region, signer.service, "aws4_request"].foldl
    (fun key part => Hmac.sha256 key (Utf8.encode part)) secret

/-- The signature of a canonical text. -/
def signatureOf (signer : Signer) (date stamp canonical : String) : String :=
  let text := "\n".intercalate
    [Authorization.algorithm, stamp,
      Authorization.scope date signer.region signer.service,
      Hex.encode (Sha256.digest (Utf8.encode canonical))]
  Hex.encode (Hmac.sha256 (signer.signingKey date) (Utf8.encode text))

/-- The authorization of a request. -/
def authorization (signer : Signer) (request : HttpRequest) (now : Instant) : Authorization :=
  { accessKey := signer.credentials.accessKey
    date := now.date
    region := signer.region
    service := signer.service
    signedHeaders := (signer.signedHeaders request now).map (·.1)
    signature :=
      signer.signatureOf now.date now.stamp (signer.canonicalRequest request now) }

/-- A request with its signature, as of a moment. -/
def signAt (signer : Signer) (request : HttpRequest) (now : Instant) :
    Except ServiceError HttpRequest :=
  let headers := (signer.signedHeaders request now).filter fun header => header.1 != "host"
  (headers.foldlM (fun (request : HttpRequest) header => request.withHeader header.1 header.2)
    request).bind fun signed =>
      signed.withHeader "authorization" (signer.authorization request now).text

end Signer

end BatchRun
