import BatchRun.Host
import BatchRun.Logs.Cursor

/-!
# Reading Logs

The new lines of all the log objects of a run.

The service keeps the logs of a run below a place of their own. A reader lists
what is there, page by page, and takes the objects in the order of their keys.
An object that is as it was is not read again. What cannot be listed, fetched or
decoded is left for the next time, with its cursor untouched; reading logs never
fails.

## Main definitions

* `LogReader`: Where the logs are, and how far they have been read.
* `LogReader.runRoot`: The place below which a run has its logs.
* `LogReader.listAll`: All objects below a place.
* `LogReader.read`: The new lines of a run.
-/

namespace BatchRun

/-- Where the logs of a run are, if they are anywhere, and how far each of
    their objects has been read. -/
structure LogReader where
  root : Option ObjectUri
  cursors : Table String LogCursor
  deriving DecidableEq, Repr

namespace LogReader

variable {m : Type → Type} [Monad m]

/-- The place below which a run has its logs. -/
def runRoot (logs : ObjectUri) (handle : RunHandle) : ObjectUri :=
  (((logs.join "applications").join handle.applicationId).join "jobs").join handle.runId

/-- A reader at the start of the logs of a run. -/
def make (logs : Option ObjectUri) (handle : RunHandle) : LogReader :=
  ⟨logs.map fun logs => runRoot logs handle, []⟩

/-- Whether a listed object comes before another one, or has the same key. -/
def keyLe (a b : ObjectSummary) : Bool :=
  !decide (b.key < a.key)

/-- All objects below a place, in the order in which they are listed. -/
def listAll (host : Host m) (root : ObjectUri) :
    Nat → Option String → List ObjectSummary → m (Except ServiceError (List ObjectSummary))
  | 0, _, _ => host.wait
  | rounds + 1, token, found => do
    match ← host.call (.list root token) with
    | .error error => pure (.error error)
    | .ok page =>
      match page.nextToken with
      | none => pure (.ok (found ++ page.objects))
      | some token => listAll host root rounds (some token) (found ++ page.objects)

/-- The lines of a source with given texts. -/
def linesOf (source : LogSource) (messages : List String) : List LogLine :=
  messages.map fun message => ⟨source, message⟩

/-- The new lines of an object that is not as it was. -/
def fetch (host : Host m) (root : ObjectUri) (flush : Bool) (cursors : Table String LogCursor)
    (object : ObjectSummary) (source : LogSource) : m (List LogLine × Table String LogCursor) := do
  match ← host.call (.get (root.withKey object.key)) with
  | .error _ => pure ([], cursors)
  | .ok body =>
    match LogCursor.decode? object.key body with
    | none => pure ([], cursors)
    | some text =>
      let cursor := (cursors.get? object.key).getD LogCursor.start
      let (messages, cursor) := cursor.advance object text flush
      pure (linesOf source messages, cursors.put object.key cursor)

/-- The new lines of an object. -/
def readObject (host : Host m) (root : ObjectUri) (flush : Bool)
    (cursors : Table String LogCursor) (object : ObjectSummary) :
    m (List LogLine × Table String LogCursor) :=
  match LogSource.ofKey? root.listing object.key with
  | none => pure ([], cursors)
  | some source =>
    match cursors.get? object.key with
    | none => fetch host root flush cursors object source
    | some cursor =>
      if cursor.isCurrent object then
        if flush then
          let (messages, cursor) := cursor.release
          pure (linesOf source messages, cursors.put object.key cursor)
        else pure ([], cursors)
      else fetch host root flush cursors object source

/-- The new lines of some objects, one after the other. -/
def readObjects (host : Host m) (root : ObjectUri) (flush : Bool) :
    Table String LogCursor → List ObjectSummary → m (List LogLine × Table String LogCursor)
  | cursors, [] => pure ([], cursors)
  | cursors, object :: rest => do
    let (lines, cursors) ← readObject host root flush cursors object
    let (more, cursors) ← readObjects host root flush cursors rest
    pure (lines ++ more, cursors)

/-- The new lines of a run. `flush` tells that the run is over. -/
def read (host : Host m) (flush : Bool) (reader : LogReader) : m (List LogLine × LogReader) :=
  match reader.root with
  | none => pure ([], reader)
  | some root => do
    match ← listAll host root host.rounds none [] with
    | .error _ => pure ([], reader)
    | .ok objects =>
      let (lines, cursors) ←
        readObjects host root flush reader.cursors (objects.mergeSort keyLe)
      pure (lines, { reader with cursors })

end LogReader

end BatchRun
