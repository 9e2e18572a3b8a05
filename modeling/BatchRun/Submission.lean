import BatchRun.Json.Writer
import BatchRun.Run.Parameters
import BatchRun.Table
import BatchRun.Workspace

/-!
# Submissions

The request that starts a run.

A staged run starts from its copy of the entrypoint and ships its project along;
an unstaged one starts from whatever its parameters name. Environment variables
are passed twice, for the executors and for the driver. The flags are written
into one text with single spaces, and a request without flags, arguments, limit
or log destination leaves the field out.

## Main definitions

* `Submission`: The request that starts a run.
* `Submission.build`: The request for some parameters.
* `Submission.logUri`: Where a run writes its logs.
* `Submission.toJson`: The body of the request.
-/

namespace BatchRun

/-- The request that starts a run. -/
structure Submission where
  applicationId : String
  clientToken : String
  name : String
  executionRole : String
  entryPoint : String
  arguments : List String
  flags : Option String
  timeoutMinutes : Option Nat
  logUri : Option String
  deriving DecidableEq, Repr

namespace Submission

/-- Where a run writes its logs: where it was told to, or beside its
    workspace. -/
def effectiveLogUri (params : RunParameters) (workspace : Option Workspace) : Option ObjectUri :=
  match params.logs with
  | some logs => some logs
  | none => workspace.map Workspace.logs

/-- One configuration flag. -/
def flag (key value : String) : String := "--conf " ++ key ++ "=" ++ value

/-- The flags of a run. -/
def flagList (params : RunParameters) (workspace : Option Workspace)
    (environment : Table String String) : List String :=
  (if params.config.isEmpty then [] else [params.config]) ++
    (match workspace with
      | some workspace => [flag "spark.submit.pyFiles" workspace.context.text]
      | none => []) ++
    environment.flatMap fun (key, value) =>
      [flag ("spark.executorEnv." ++ key) value,
        flag ("spark.emr-serverless.driverEnv." ++ key) value]

/-- The request for some parameters. -/
def build (params : RunParameters) (workspace : Option Workspace)
    (environment : Table String String) (name clientToken : String) : Submission :=
  let flags := " ".intercalate (flagList params workspace environment)
  { applicationId := params.applicationId
    clientToken, name
    executionRole := params.executionRole
    entryPoint := match workspace with
      | some workspace => workspace.entrypoint.text
      | none => params.entrypoint
    arguments := params.args
    flags := if flags.isEmpty then none else some flags
    timeoutMinutes := params.timeoutMinutes
    logUri := (effectiveLogUri params workspace).map ObjectUri.text }

/-- The body of the request. The application is named by the address and not
    in the body. -/
def toJson (request : Submission) : Json :=
  let optional := fun (name : String) (value : Option Json) =>
    match value with
    | some value => [(name, value)]
    | none => []
  let nested := fun (uri : String) =>
    Json.record [("monitoringConfiguration",
      Json.record [("s3MonitoringConfiguration", Json.record [("logUri", Json.ofText uri)])])]
  Json.record
    ([("clientToken", Json.ofText request.clientToken),
      ("name", Json.ofText request.name),
      ("executionRoleArn", Json.ofText request.executionRole),
      ("jobDriver", Json.record [("sparkSubmit", Json.record
        ([("entryPoint", Json.ofText request.entryPoint)] ++
          optional "entryPointArguments"
            (if request.arguments.isEmpty then none
              else some (.array (request.arguments.map Json.ofText))) ++
          optional "sparkSubmitParameters" (request.flags.map Json.ofText)))])] ++
      optional "executionTimeoutMinutes" (request.timeoutMinutes.map Json.ofNat) ++
      optional "configurationOverrides" (request.logUri.map nested))

end Submission

end BatchRun
