import BatchRun.Logs.Reader

/-!
# Log Destinations

Where the logs of a run are found.

A run writes its logs where it was told to, or beside its workspace; failing
both, where its application does. Only in the last case is the application asked
for, and if that leads nowhere the run has no logs to read.

## Main definitions

* `LogDestination`: Where logs are found, and by which rule.
* `LogDestination.resolve`: The destination of a run.
-/

namespace BatchRun

/-- Where the logs of a run are found. -/
inductive LogDestination where
  | explicit (uri : ObjectUri)
  | workspace (uri : ObjectUri)
  | application (uri : ObjectUri)
  | nowhere
  deriving DecidableEq, Repr

namespace LogDestination

/-- The address of a destination. -/
def uri? : LogDestination → Option ObjectUri
  | explicit uri => some uri
  | workspace uri => some uri
  | application uri => some uri
  | nowhere => none

/-- The destination that an application names. -/
def ofApplication (found : Application) : LogDestination :=
  match found.logUri?.map ObjectUri.parse with
  | some (.ok uri) => application uri
  | _ => nowhere

/-- The destination of a run. -/
def resolve {m : Type → Type} [Monad m] (host : Host m) (params : RunParameters)
    (staged : Option Workspace) (handle : RunHandle) : m LogDestination :=
  match params.logs, staged with
  | some uri, _ => pure (explicit uri)
  | none, some staged => pure (workspace staged.logs)
  | none, none => do
    match ← host.call (.application handle.applicationId) with
    | .ok found => pure (ofApplication found)
    | .error _ => pure nowhere

end LogDestination

end BatchRun
