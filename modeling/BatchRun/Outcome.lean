import BatchRun.Archive.Basic
import BatchRun.Http.Error
import BatchRun.Run.Attempt
import BatchRun.Run.Parameters
import BatchRun.Workspace

/-!
# Outcomes

How a run ends, and what is said about it.

Supervision ends in exactly one of five ways. In three of them the run itself
has stopped; in the other two it may still be going on somewhere, and has to be
cancelled. What the caller gets is success or an error, and an error has a text
and, behind it, the texts of its causes.

An error of staging carries the workspace if one had been allocated by then,
because what was put there has to be deleted.

## Main definitions

* `StagingError`, `RunError`: Why a run did not succeed.
* `RunError.message`, `RunError.causes`: What is said about it.
* `Outcome`: How supervision ends.
* `Outcome.mayBeAlive`: Whether the run may be going on.
* `Outcome.result`: What the caller gets.
-/

namespace BatchRun

/-- Why the files of a run could not be staged. -/
inductive StagingFault where
  | noWorkspaceRoot
  | noFileName (entrypoint : Path)
  | unreadable (entrypoint : Path) (fault : FileFault)
  | noProject (entrypoint : Path)
  | unpackable (root : Path) (fault : Archive.Fault)
  | upload (uri : ObjectUri) (error : ServiceError)
  deriving DecidableEq, Repr

namespace StagingFault

/-- The text of a fault. -/
def message : StagingFault → String
  | noWorkspaceRoot => "no workspace root configured for a staged asset"
  | noFileName entrypoint => s!"entrypoint {entrypoint.shown} has no file name"
  | unreadable entrypoint _ => s!"failed to read entrypoint {entrypoint.shown}"
  | noProject entrypoint => s!"no project root (.git) found above {entrypoint.shown}"
  | unpackable root fault => s!"failed to package {root.shown}: {fault.message}"
  | upload uri _ => s!"failed to upload {uri.text}"

/-- What lies behind a fault, nearest first. -/
def causes : StagingFault → List String
  | unreadable _ fault => [fault.message]
  | upload _ error => error.message :: error.causes
  | _ => []

end StagingFault

/-- Why staging failed, and the workspace that has to be deleted. -/
structure StagingError where
  fault : StagingFault
  workspace : Option Workspace
  deriving DecidableEq, Repr

/-- A run that stopped without success. -/
structure StoppedRun where
  runId : String
  state : RunState
  details : String
  deriving DecidableEq, Repr

/-- The text about a run that stopped without success. -/
def StoppedRun.message (run : StoppedRun) : String :=
  s!"run {run.runId} ended with state {run.state.wire}: {run.details}"

/-- Why a run did not succeed. -/
inductive RunError where
  | parameters (fault : RunParameters.Fault)
  | staging (error : StagingError)
  | submission (error : ServiceError)
  | listing (error : ServiceError)
  | noAttempts (runId : String)
  | stopped (run : StoppedRun)
  | cancelled
  deriving DecidableEq, Repr

namespace RunError

/-- The text of an error. -/
def message : RunError → String
  | parameters _ => "invalid run parameters"
  | staging _ => "staging failed"
  | submission _ => "submission failed"
  | listing _ => "failed to list attempts"
  | noAttempts runId => s!"no attempts found for run {runId}"
  | stopped run => run.message
  | cancelled => "context cancelled"

/-- What lies behind an error, nearest first. -/
def causes : RunError → List String
  | parameters fault => [fault.message]
  | staging error => error.fault.message :: error.fault.causes
  | submission error => error.message :: error.causes
  | listing error => error.message :: error.causes
  | _ => []

end RunError

/-- How supervision ends. -/
inductive Outcome where
  | succeeded
  | failed (run : StoppedRun)
  | cancelled (run : StoppedRun)
  /-- The run could not be started or followed. -/
  | localError (error : RunError)
  /-- Nobody waits for the run any longer. -/
  | abandoned
  deriving DecidableEq, Repr

namespace Outcome

/-- Whether the run may be going on, and has to be cancelled. -/
def mayBeAlive : Outcome → Bool
  | localError _ => true
  | abandoned => true
  | _ => false

/-- Whether the run did what it should. -/
def isSuccess : Outcome → Bool
  | succeeded => true
  | _ => false

/-- A short name for an outcome. -/
def label : Outcome → String
  | succeeded => "succeeded"
  | failed _ => "failed"
  | cancelled _ => "cancelled"
  | localError _ => "local error"
  | abandoned => "context cancelled"

/-- What the caller gets. -/
def result : Outcome → Except RunError Unit
  | succeeded => .ok ()
  | failed run => .error (.stopped run)
  | cancelled run => .error (.stopped run)
  | localError error => .error error
  | abandoned => .error .cancelled

/-- The outcome that an attempt decides, if it has stopped. -/
def ofAttempt? (runId : String) (attempt : Attempt) : Option Outcome :=
  let run : StoppedRun := ⟨runId, attempt.state, attempt.details⟩
  match attempt.state with
  | .success => some succeeded
  | .failed => some (failed run)
  | .cancelled => some (cancelled run)
  | _ => none

/-- An attempt decides the outcome exactly if its state is terminal. -/
theorem isSome_ofAttempt? (runId : String) (attempt : Attempt) :
    (ofAttempt? runId attempt).isSome = attempt.state.isTerminal := by
  unfold ofAttempt?
  cases attempt.state <;> rfl

end Outcome

end BatchRun
