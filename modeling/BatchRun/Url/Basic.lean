import BatchRun.Url.Host
import BatchRun.Url.Path

/-!
# URLs

Reading a URL the way browsers and HTTP libraries do.

The text is cut from the left: scheme, user information, host, port, path,
query. Tabs and line breaks are dropped wherever they stand, and so are
surrounding spaces and controls. Nothing is done with the user information and
the fragment, so they are not kept.

Schemes fall into three kinds. Those of the web always have a host, take a
backslash for a slash and know a default port. A file has a host only if one
is named that is neither `localhost` nor a drive. Any other scheme has a host
if two slashes follow it, and that host may be empty.

## Main definitions

* `Url`: A parsed URL.
* `Url.parse`: The URL that a text stands for.
* `Url.text`: A URL as it is written.
-/

namespace BatchRun

/-- A URL, less user information and fragment. An empty list of segments is an
    empty path. -/
structure Url where
  scheme : String
  host : Option UrlHost
  port : Option Nat
  segments : List (List Char)
  query : Option String
  deriving DecidableEq, Repr

namespace Url

/-- How a scheme reads what follows it. -/
inductive SchemeKind where
  | web (defaultPort : Nat)
  | file
  | other
  deriving DecidableEq, Repr

/-- The kind of a scheme in lower case. -/
def SchemeKind.ofText (scheme : String) : SchemeKind :=
  if scheme = "http" ∨ scheme = "ws" then .web 80
  else if scheme = "https" ∨ scheme = "wss" then .web 443
  else if scheme = "ftp" then .web 21
  else if scheme = "file" then .file
  else .other

/-- Whether a backslash is read as a slash. -/
def SchemeKind.backslash : SchemeKind → Bool
  | .other => false
  | _ => true

/-- The path as it is written. -/
def path (url : Url) : String := String.ofList (pathText url.segments)

/-- The port, if it is not the default one of the scheme. -/
def portText (url : Url) : String :=
  match url.port with
  | some port => s!":{port}"
  | none => ""

/-- The host with its port, as it is written. -/
def authority (url : Url) : String :=
  (match url.host with
    | some host => host.text
    | none => "") ++ url.portText

/-- A URL as it is written. -/
def text (url : Url) : String :=
  url.scheme ++ "://" ++ url.authority ++ url.path ++
    (match url.query with
      | some query => "?" ++ query
      | none => "")

/-- The characters of a text that count: without surrounding spaces and
    controls, and without tabs and line breaks anywhere. -/
def significant (text : String) : List Char :=
  (Text.trimWhere (fun c => c.toNat ≤ 0x20) text.toList).filter
    fun c => c != '\t' && c != '\n' && c != '\r'

/-- Whether a character may stand in a scheme. -/
def isSchemeChar (c : Char) : Bool :=
  c.isAlphanum || c == '+' || c == '-' || c == '.'

/-- The scheme of a text in lower case, and what follows its colon. -/
def cutScheme (text : List Char) : Option (String × List Char) :=
  match text with
  | first :: _ =>
    if first.isAlpha then
      match text.dropWhile isSchemeChar with
      | ':' :: rest =>
        some (String.ofList ((text.takeWhile isSchemeChar).map Char.toLower), rest)
      | _ => none
    else none
  | [] => none

/-- Whether a character ends the part of a URL that names the host. -/
def endsAuthority (kind : SchemeKind) (c : Char) : Bool :=
  c == '/' || c == '?' || c == '#' || (kind.backslash && c == '\\')

/-- What follows the user information, and whether there was any. An empty one
    must have a host behind it. -/
def cutUser (kind : SchemeKind) (text : List Char) : Except Fault (Bool × List Char) :=
  match Text.cutAtLast '@' (text.takeWhile fun c => !endsAuthority kind c) with
  | none => .ok (false, text)
  | some (user, _) =>
    let rest := text.drop (user.length + 1)
    match user, rest with
    | [], c :: _ => if endsAuthority kind c then .error .emptyHost else .ok (false, rest)
    | _, _ => .ok (!user.isEmpty && user != [':'], rest)

/-- The text of a host, which a colon ends unless it stands in brackets. -/
def hostChars (kind : SchemeKind) : Bool → List Char → List Char
  | _, [] => []
  | inside, c :: rest =>
    if endsAuthority kind c || (c == ':' && !inside) then []
    else c :: hostChars kind (c == '[' || (inside && c != ']')) rest

/-- The port, from behind its colon. An absent number and the default one are
    both no port. -/
def cutPort (kind : SchemeKind) (text : List Char) : Except Fault (Option Nat × List Char) :=
  let digits := text.takeWhile Char.isDigit
  let rest := text.dropWhile Char.isDigit
  let number := digits.foldl (fun n c => n * 10 + (c.toNat - 48)) 0
  if 65535 < number then .error .badPort
  else
    let port := if digits.isEmpty || kind == .web number then none else some number
    match rest with
    | [] => .ok (port, [])
    | c :: _ =>
      if c == '/' || c == '\\' || c == '?' || c == '#' then .ok (port, rest)
      else .error .badPort

/-- The host and the port. -/
def cutHost (kind : SchemeKind) (text : List Char) :
    Except Fault (UrlHost × Option Nat × List Char) :=
  let chars := hostChars kind false text
  let rest := text.drop chars.length
  let host := match kind with
    | .other => UrlHost.readName chars
    | _ => if chars.isEmpty then .error .emptyHost else UrlHost.readDomain chars
  host.bind fun host =>
    match rest with
    | ':' :: after =>
      if host == .name "" then .error .emptyHost
      else (cutPort kind after).map fun (port, rest) => (host, port, rest)
    | rest => .ok (host, none, rest)

/-- The bytes that are percent-encoded in a query. The schemes of the web
    encode the apostrophe too. -/
def isCodedInQuery (kind : SchemeKind) (b : UInt8) : Bool :=
  b ≤ 0x20 || 0x7F ≤ b || b == 0x22 || b == 0x23 || b == 0x3C || b == 0x3E ||
    (kind != .other && b == 0x27)

/-- The path and the query of a text that begins behind the host. -/
def cutPath (kind : SchemeKind) (text : List Char) : List (List Char) × Option String :=
  let path := text.takeWhile fun c => c != '?' && c != '#'
  let query := match text.drop path.length with
    | '?' :: rest =>
      some (String.ofList (Percent.encodeWhere (isCodedInQuery kind)
        (Utf8.encodeChars (rest.takeWhile (· != '#')))))
    | _ => none
  let rules : PathRules := ⟨kind.backslash, kind == .file⟩
  let segments := match path with
    | [] => if kind == .other then [] else [[]]
    | c :: rest =>
      if c == '/' || (kind.backslash && c == '\\') then resolvePath rules rest
      else resolvePath rules path
  (segments, query)

/-- A URL whose scheme and two slashes have been read. -/
def parseAuthority (scheme : String) (kind : SchemeKind) (text : List Char) : Except Fault Url :=
  (cutUser kind text).bind fun (named, rest) =>
    (cutHost kind rest).bind fun (host, port, rest) =>
      let (segments, query) := cutPath kind rest
      if host == .name "" then
        if named then .error .emptyHost
        else .ok { scheme, host := none, port, segments, query }
      else .ok { scheme, host := some host, port, segments, query }

/-- The host of a file, from behind two slashes. A drive in its place is the
    beginning of the path. -/
def cutFileHost (text : List Char) : Except Fault (Option UrlHost × List Char) :=
  let chars := text.takeWhile fun c => !endsAuthority .file c
  if chars.isEmpty || isDrive chars then .ok (none, text)
  else (UrlHost.readDomain chars).map fun host =>
    (if host == .name "localhost" then none else some host, text.drop chars.length)

/-- The URL of a file. A path that begins with a drive belongs to no host, and
    empty segments at its start are dropped. -/
def parseFile (text : List Char) : Except Fault Url :=
  let slash := fun c => c == '/' || c == '\\'
  let found := match text with
    | a :: b :: rest => if slash a && slash b then cutFileHost rest else .ok (none, text)
    | _ => .ok (none, text)
  found.map fun (host, rest) =>
    let (segments, query) := cutPath .file rest
    let host := if (segments.head?.map isDrive).getD false then none else host
    let segments := match segments.dropWhile List.isEmpty with
      | [] => [[]]
      | kept => kept
    { scheme := "file", host, port := none, segments, query }

/-- The URL that a text stands for. -/
def parse (text : String) : Except Fault Url :=
  match cutScheme (significant text) with
  | none => .error .noScheme
  | some (scheme, rest) =>
    match SchemeKind.ofText scheme with
    | .file => parseFile rest
    | .web port =>
      parseAuthority scheme (.web port) (rest.dropWhile fun c => c == '/' || c == '\\')
    | .other =>
      match rest with
      | '/' :: '/' :: rest => parseAuthority scheme .other rest
      | rest =>
        let (segments, query) := cutPath .other rest
        .ok { scheme, host := none, port := none, segments, query }

end Url

end BatchRun
