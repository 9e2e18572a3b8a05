import BatchRun.Run.Parameters
import BatchRun.Run.State

/-!
# Warnings

What a user should know about a run that goes on all the same.

None of these ends a run or changes its result. They are kept apart from the
lines that a run emits, which are its own output.

## Main definitions

* `Warning`: What there is to warn of.
* `Warning.message`: The text of a warning.
-/

namespace BatchRun

/-- What there is to warn of. -/
inductive Warning where
  /-- A limit that cannot be read is dropped. -/
  | ignoredTimeout (fault : RunParameters.Fault)
  /-- A run is in a state that is not known here. -/
  | unrecognizedState (runId : String) (state : RunState)
  /-- A workspace could not be deleted in time. -/
  | cleanupTimedOut (limit : Span) (root : ObjectUri)
  /-- A run could not be cancelled in time. -/
  | cancelTimedOut (limit : Span) (runId : String)
  /-- There are no keys to sign requests with. -/
  | unsigned
  deriving DecidableEq, Repr

namespace Warning

/-- The text of a warning. -/
def message : Warning → String
  | ignoredTimeout fault => s!"Ignoring timeout parameter: {fault.message}"
  | unrecognizedState runId state =>
    s!"Run {runId} reported unrecognized state {state.wire}, continuing to poll"
  | cleanupTimedOut limit root =>
    s!"Timed out after {limit.text} cleaning up workspace {root.text}"
  | cancelTimedOut limit runId => s!"Timed out after {limit.text} cancelling run {runId}"
  | unsigned => "No access key configured, sending unsigned requests"

end Warning

end BatchRun
