import BatchRun.Logs.Destination
import BatchRun.Settings
import BatchRun.Staging
import BatchRun.Supervision

/-!
# Jobs

One asset, from its files to its result.

A job is staged, submitted, supervised and cleaned up after. Cleaning up has two
parts, each within a limit of its own: cancelling a run that may be going on, and
deleting the workspace. Neither can be cancelled, and neither has a say in the
result, which is settled by then.

## Main definitions

* `Job`: What is to be done.
* `Job.resolve`: A job from named parameters.
* `Job.launch`: Submits a job and supervises its run.
* `Job.cleanUp`: What is done when the outcome is known.
* `Job.carryOut`: All of it.
-/

namespace BatchRun

/-- What is to be done: an asset in a pipeline with its parameters, the
    environment of its processes, and the two names that are made up for it. -/
structure Job where
  asset : Asset
  pipeline : String
  params : RunParameters
  environment : Table String String
  runId : String
  clientToken : String
  deriving DecidableEq, Repr

namespace Job

variable {m : Type → Type} [Monad m]

/-- A job from named parameters. -/
def resolve (asset : Asset) (pipeline : String) (defaults : ConnectionDefaults)
    (params : String → Option String) (environment : Table String String)
    (runId clientToken : String) : Except RunError Job :=
  ((RunParameters.resolve defaults params).mapError .parameters).map fun params =>
    { asset, pipeline, params, environment, runId, clientToken }

/-- The workspace of a job with its files in it, if it needs one. -/
def stage (host : Host m) (job : Job) : m (Except StagingError (Option Workspace)) :=
  if job.asset.staged then do
    match ← Staging.prepare host job.asset job.pipeline job.params.workspace job.runId with
    | .ok workspace => pure (.ok (some workspace))
    | .error error => pure (.error error)
  else pure (.ok none)

/-- The request that starts the run of a job. -/
def submission (job : Job) (workspace : Option Workspace) : Submission :=
  Submission.build job.params workspace job.environment job.asset.name job.clientToken

/-- Follows the run of a job until it stops. -/
def follow (host : Host m) (settings : Settings) (job : Job) (workspace : Option Workspace)
    (handle : RunHandle) : m Outcome := do
  let destination ← LogDestination.resolve host job.params workspace handle
  let logs := LogReader.make destination.uri? handle
  let (outcome, _) ← Supervision.supervise host (LogReader.read host) handle host.rounds
    (Watch.start settings.timer logs)
  pure outcome

/-- Submits a job and supervises its run. Without a handle there is no run. -/
def launch (host : Host m) (settings : Settings) (job : Job) (workspace : Option Workspace) :
    m (Option RunHandle × Outcome) := do
  match ← host.call (.submit (job.submission workspace)) with
  | .error error => pure (none, .localError (.submission error))
  | .ok handle =>
    let outcome ← follow host settings job workspace handle
    pure (some handle, outcome)

/-- Cancels a run, within a limit. Whether that does anything is not asked. -/
def cancelRun (host : Host m) (limit : Span) (handle : RunHandle) : m Unit := do
  let done ← host.within limit do
    let _ ← host.call (.cancel handle)
    pure ()
  if !done then host.warn (.cancelTimedOut limit handle.runId)

/-- Cancels a run that may be going on. -/
def cancelIfAlive (host : Host m) (settings : Settings) (outcome : Outcome) :
    Option RunHandle → m Unit
  | some handle =>
    if outcome.mayBeAlive then cancelRun host settings.cancelTimeout handle else pure ()
  | none => pure ()

/-- Deletes a workspace, if there is one. -/
def destroyIfAny (host : Host m) (settings : Settings) : Option Workspace → m Unit
  | some workspace => Staging.destroy host settings.cleanupTimeout workspace
  | none => pure ()

/-- What is done when the outcome is known. -/
def cleanUp (host : Host m) (settings : Settings) (workspace : Option Workspace)
    (handle : Option RunHandle) (outcome : Outcome) : m Unit := do
  cancelIfAlive host settings outcome handle
  destroyIfAny host settings workspace

/-- Carries out a job, and gives its result. -/
def carryOut (host : Host m) (settings : Settings) (job : Job) : m (Except RunError Unit) := do
  match ← stage host job with
  | .error error =>
    destroyIfAny host settings error.workspace
    pure (.error (.staging error))
  | .ok workspace =>
    let (handle, outcome) ← launch host settings job workspace
    cleanUp host settings workspace handle outcome
    pure outcome.result

end Job

end BatchRun
