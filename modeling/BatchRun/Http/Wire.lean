import BatchRun.Http.Message
import BatchRun.Text.Percent
import BatchRun.Text.Whole

/-!
# HTTP on the Wire

Requests and answers as the bytes that pass between two machines.

A request says where it goes, how long its body is, and that nothing else will
follow it. The other side therefore ends the connection behind its answer, and
an answer is read from all that came. Its body has the length that its head
names, or comes in chunks that each name theirs, or goes on to the end. A body
that ends too early is kept as far as it goes, and marked.

## Main definitions

* `HttpRequest.wire`: The bytes of a request.
* `Wire.readHead?`: Status and headers at the beginning of an answer.
* `Wire.readBody`: The body behind them.
* `Delivery.ofBytes`: What became of a request that was answered with some
  bytes.
-/

namespace BatchRun

namespace Wire

/-- What ends a line. -/
def lineEnd : Bytes := [0x0D, 0x0A]

/-- A header as a line. -/
def headerLine (header : String × Bytes) : Bytes :=
  Utf8.encode header.1 ++ Utf8.encode ": " ++ header.2 ++ lineEnd

/-- The headers that belong to a request as it is sent. -/
def sentHeaders (request : HttpRequest) : List (String × Bytes) :=
  [("host", Utf8.encode request.url.authority),
    ("content-length", Utf8.encode (toString request.body.length)),
    ("connection", Utf8.encode "close")]

/-- The first line of some bytes, and what follows it. -/
def cutLine? (bytes : Bytes) : Option (Bytes × Bytes) :=
  (Text.cutAtFirst 0x0A bytes).map fun (line, rest) =>
    (if line.getLast? = some 0x0D then line.dropLast else line, rest)

/-- A header in a line. Its name is folded to lower case. -/
def readHeader? (line : Bytes) : Option (String × Bytes) :=
  (Text.cutAtFirst 0x3A line).map fun (name, value) =>
    (String.ofList ((Utf8.lossyChars name).map Char.toLower),
      Text.trimWhere (fun b => b == 0x20 || b == 0x09) value)

/-- Headers up to an empty line, and what follows it. The fuel bounds the number
    of lines. -/
def readHeaders? : Nat → Bytes → Option (List (String × Bytes) × Bytes)
  | 0, _ => none
  | fuel + 1, bytes =>
    (cutLine? bytes).bind fun (line, rest) =>
      if line.isEmpty then some ([], rest)
      else (readHeader? line).bind fun header =>
        (readHeaders? fuel rest).map fun (headers, rest) => (header :: headers, rest)

/-- The status in the first line of an answer. -/
def readStatus? (line : Bytes) : Option Nat :=
  match Text.splitOn ' ' (Utf8.lossyChars line) with
  | _ :: status :: _ => (Whole.read 1000 (String.ofList status)).toOption
  | _ => none

/-- Status and headers at the beginning of an answer, and what follows them. -/
def readHead? (bytes : Bytes) : Option (Nat × List (String × Bytes) × Bytes) :=
  (cutLine? bytes).bind fun (line, rest) =>
    (readStatus? line).bind fun status =>
      (readHeaders? (rest.length + 1) rest).map fun (headers, rest) => (status, headers, rest)

/-- The length in the first line of a chunk. -/
def chunkLength (line : Bytes) : Option Nat :=
  match (Utf8.lossyChars line).takeWhile fun c => (Hex.digitValue c).isSome with
  | [] => none
  | digits => digits.foldlM (fun n c => (Hex.digitValue c).map (n * 16 + ·)) 0

/-- A body that comes in chunks, and whether all of them came. The fuel bounds
    their number. -/
def readChunks : Nat → Bytes → Bytes × Bool
  | 0, _ => ([], false)
  | fuel + 1, bytes =>
    match (cutLine? bytes).bind fun (line, rest) => (chunkLength line).map (·, rest) with
    | none => ([], false)
    | some (0, _) => ([], true)
    | some (length, rest) =>
      if rest.length < length then (rest, false)
      else
        let (more, complete) := readChunks fuel (rest.drop (length + 2))
        (rest.take length ++ more, complete)

/-- The text of a header. -/
def headerText? (headers : List (String × Bytes)) (name : String) : Option String :=
  (headers.lookup name).map Utf8.lossy

/-- The body in what follows the headers, and whether all of it came. -/
def readBody (headers : List (String × Bytes)) (bytes : Bytes) : Bytes × Bool :=
  if headerText? headers "transfer-encoding" = some "chunked" then
    readChunks (bytes.length + 1) bytes
  else
    match (headerText? headers "content-length").map (Whole.read Whole.bound64) with
    | some (.ok length) => (bytes.take length, length ≤ bytes.length)
    | _ => (bytes, true)

end Wire

/-- The bytes of a request. -/
def HttpRequest.wire (request : HttpRequest) : Bytes :=
  Utf8.encode s!"{request.method} {request.target} HTTP/1.1" ++ Wire.lineEnd ++
    (Wire.sentHeaders request ++ request.headers).flatMap Wire.headerLine ++ Wire.lineEnd ++
    request.body

/-- What became of a request that was answered with some bytes. -/
def Delivery.ofBytes (request : HttpRequest) (bytes : Bytes) : Delivery :=
  match Wire.readHead? bytes with
  | none =>
    .failed [request.unsent, "client error (SendRequest)",
      "connection closed before message completed"]
  | some (status, headers, rest) =>
    let (body, complete) := Wire.readBody headers rest
    .answered { status, headers, body, complete }

end BatchRun
