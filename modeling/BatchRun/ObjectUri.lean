import BatchRun.Text.Blank
import BatchRun.Url.Basic

/-!
# Object URIs

The address of an object in a bucket, or of everything below a key.

A URI has a scheme, a bucket and a key. Every way to make one trims the key of
slashes at its ends, so that a key and what is joined to it are always separated
by exactly one. A URI is read as a URL whose host is the bucket and whose
percent-decoded path is the key, and shown as plain text without any encoding.

## Main definitions

* `ObjectUri`: Scheme, bucket and key.
* `ObjectUri.make`: A URI from its parts, the key trimmed of slashes.
* `ObjectUri.parse`: The URI that a text stands for.
* `ObjectUri.text`: A URI as it is shown.
* `ObjectUri.join`: A URI below another one.
* `ObjectUri.listing`: What the keys below a URI begin with.
-/

namespace BatchRun

/-- A list of characters without leading and trailing slashes. -/
def trimSlashes (key : List Char) : List Char :=
  Text.trimWhere (· == '/') key

/-- The address of an object. -/
structure ObjectUri where
  scheme : String
  bucket : String
  key : String
  deriving DecidableEq, Repr

namespace ObjectUri

/-- Why a text is not the address of an object. -/
inductive Fault where
  | url (fault : Url.Fault)
  | missingBucket
  | encoding (fault : Utf8.Fault)
  deriving DecidableEq, Repr

/-- The complaint about a fault. -/
def Fault.message : Fault → String
  | .url fault => fault.message
  | .missingBucket => "missing bucket"
  | .encoding fault => fault.message

/-- A URI from its parts, the key trimmed of slashes. -/
def make (scheme bucket key : String) : ObjectUri :=
  ⟨scheme, bucket, String.ofList (trimSlashes key.toList)⟩

/-- The URI that a text stands for. -/
def parse (text : String) : Except Fault ObjectUri :=
  match Url.parse (Text.trim text) with
  | .error fault => .error (.url fault)
  | .ok url =>
    match url.host with
    | none => .error .missingBucket
    | some host =>
      match Utf8.strict (Percent.decode (Utf8.encode url.path)) with
      | .error fault => .error (.encoding fault)
      | .ok key => .ok (make url.scheme host.text key)

/-- A URI as it is shown. -/
def text (uri : ObjectUri) : String :=
  if uri.key.isEmpty then uri.scheme ++ "://" ++ uri.bucket
  else uri.scheme ++ "://" ++ uri.bucket ++ "/" ++ uri.key

/-- The URI with another key. -/
def withKey (uri : ObjectUri) (key : String) : ObjectUri :=
  make uri.scheme uri.bucket key

/-- The URI of something below this one. A segment of slashes only is no
    segment. -/
def join (uri : ObjectUri) (segment : String) : ObjectUri :=
  let segment := String.ofList (trimSlashes segment.toList)
  if segment.isEmpty then uri
  else if uri.key.isEmpty then { uri with key := segment }
  else { uri with key := uri.key ++ "/" ++ segment }

/-- What the keys of the objects below a URI begin with. -/
def listing (uri : ObjectUri) : String :=
  if uri.key.isEmpty then "" else uri.key ++ "/"

end ObjectUri

end BatchRun
