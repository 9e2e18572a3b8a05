import BatchRun.Text.Split

/-!
# Log Lines

A line of a run's output, and where it comes from.

Every process of a run writes two streams, each into an object of its own below
the logs of the run. The key of an object tells the process and the stream, and
whether the object is compressed; a key of any other form is no log.

## Main definitions

* `LogSource`: A stream of a process.
* `LogSource.ofKey?`: The stream that an object holds.
* `LogLine`: A line of a stream.
-/

namespace BatchRun

/-- A stream of a process. -/
structure LogSource where
  name : String
  stream : String
  deriving DecidableEq, Repr

namespace LogSource

/-- The ending of compressed objects. -/
def compressedEnding : List Char := ['.', 'g', 'z']

/-- The streams that are read. -/
def streams : List String := ["stdout", "stderr"]

/-- Whether an object is compressed. -/
def isCompressed (key : String) : Bool :=
  (Text.beforeEnding compressedEnding key.toList).isSome

/-- The stream that an object holds, by what its key says behind a given
    start. -/
def ofKey? (start key : String) : Option LogSource :=
  (Text.afterStart start.toList key.toList).bind fun relative =>
    (Text.cutAtLast '/' relative).bind fun (name, file) =>
      let stream := String.ofList ((Text.beforeEnding compressedEnding file).getD file)
      if name.isEmpty || !streams.contains stream then none
      else some ⟨String.ofList name, stream⟩

end LogSource

/-- A line of a stream. -/
structure LogLine where
  source : LogSource
  message : String
  deriving DecidableEq, Repr

/-- A line as it is put out. -/
def LogLine.text (line : LogLine) : String :=
  s!"{line.source.name} | {line.source.stream} | {line.message}"

end BatchRun
