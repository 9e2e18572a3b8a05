import BatchRun.Json.Reader
import BatchRun.Run.Attempt

/-!
# Answers of the Control Plane

The JSON records in which the service describes runs and applications.

A record may hold fields that are not known here, in any order; they are passed
over whatever they hold. A field that is known must occur once at most and have
the right type. Some fields may be absent or null, and the two mean the same.

## Main definitions

* `AttemptPage.ofJson?`: A page of attempts.
* `RunHandle.ofJson?`: The handle of a run that was started.
* `Application`, `Application.ofJson?`: An application.
* `Application.logUri?`: Where an application sends its logs by default.
-/

namespace BatchRun

/-- What an attempt record says. -/
structure AttemptRecord where
  attempt : Option Nat
  state : RunState
  stateDetails : Option String
  deriving DecidableEq, Repr

/-- One more than the largest number an attempt may have. -/
def AttemptRecord.numberBound : Nat := 4294967296

/-- The attempt that a record describes. -/
def AttemptRecord.ofJson? (value : Json) : Option AttemptRecord :=
  match Json.fields? ["attempt", "state", "stateDetails"] value with
  | some [attempt, state, details] =>
    (Json.optional? (Json.below? numberBound) attempt).bind fun attempt =>
      (Json.required? state).bind fun state =>
        (Json.optional? Json.text? details).map fun stateDetails =>
          { attempt, state := RunState.ofText state, stateDetails }
  | _ => none

/-- The attempt at a place of a page, counted from zero. One without a number
    has that of its place, counted from one. -/
def AttemptRecord.toAttempt (record : AttemptRecord) (place : Nat) : Attempt :=
  { number := record.attempt.getD ((place + 1) % numberBound)
    state := record.state
    details := record.stateDetails.getD "" }

namespace AttemptPage

/-- The page of some records. An empty cursor is none. -/
def ofRecords (records : List AttemptRecord) (nextToken : Option String) : AttemptPage :=
  { attempts := records.mapIdx fun place record => record.toAttempt place
    nextToken := nextToken.filter (!·.isEmpty) }

/-- The page that a record describes. The list of attempts may be absent, but
    not null. -/
def ofJson? (value : Json) : Option AttemptPage :=
  match Json.fields? ["jobRunAttempts", "nextToken"] value with
  | some [attempts, nextToken] =>
    (match attempts with
      | none => some []
      | some items => Json.list? AttemptRecord.ofJson? items).bind fun records =>
        (Json.optional? Json.text? nextToken).map (ofRecords records)
  | _ => none

end AttemptPage

/-- The handle of a run that was started. -/
def RunHandle.ofJson? (value : Json) : Option RunHandle :=
  match Json.fields? ["applicationId", "jobRunId", "arn"] value with
  | some [applicationId, runId, arn] =>
    (Json.required? applicationId).bind fun applicationId =>
      (Json.required? runId).bind fun runId =>
        (Json.optional? Json.text? arn).map fun _ => { applicationId, runId }
  | _ => none

/-- What is known of an application. The three options of the log URI are the
    three records it is nested in. -/
structure Application where
  applicationId : String
  name : Option String
  state : Option String
  monitoring : Option (Option (Option String))
  deriving DecidableEq, Repr

namespace Application

/-- A record with one optional field. -/
def single? {α : Type} (name : String) (read : Json → Option α) (value : Json) :
    Option (Option α) :=
  match Json.fields? [name] value with
  | some [field] => Json.optional? read field
  | _ => none

/-- The application that a record describes. -/
def ofRecord? (value : Json) : Option Application :=
  match Json.fields? ["applicationId", "name", "state", "monitoringConfiguration"] value with
  | some [applicationId, name, state, monitoring] =>
    (Json.required? applicationId).bind fun applicationId =>
      (Json.optional? Json.text? name).bind fun name =>
        (Json.optional? Json.text? state).bind fun state =>
          (Json.optional? (single? "s3MonitoringConfiguration" (single? "logUri" Json.text?))
            monitoring).map fun monitoring => { applicationId, name, state, monitoring }
  | _ => none

/-- The application in an answer. -/
def ofJson? (value : Json) : Option Application :=
  match Json.fields? ["application"] value with
  | some [some application] => ofRecord? application
  | _ => none

/-- Where an application sends its logs by default. An empty URI is none. -/
def logUri? (application : Application) : Option String :=
  (application.monitoring.join.join).filter (!·.isEmpty)

/-- The record of an application. Absent fields that the service always sends
    are written as null. -/
def toJson (application : Application) : Json :=
  let text := fun (value : Option String) => (value.map Json.ofText).getD .null
  let nested := match application.monitoring with
    | none => .null
    | some none => Json.record []
    | some (some none) => Json.record [("s3MonitoringConfiguration", Json.record [])]
    | some (some (some uri)) =>
      Json.record [("s3MonitoringConfiguration", Json.record [("logUri", Json.ofText uri)])]
  Json.record
    [("applicationId", Json.ofText application.applicationId), ("name", text application.name),
      ("state", text application.state), ("monitoringConfiguration", nested)]

end Application

end BatchRun
