import BatchRun.ObjectUri
import BatchRun.Span.Grammar

/-!
# Run Parameters

What a run needs to know, from the connection and from the asset.

The connection gives the application, the role, the region and the workspace;
the asset gives the rest as named texts. Every value is trimmed, and a blank
one counts as absent. A limit that cannot be read is dropped with a warning,
since a run without a limit is still a run; a URI that cannot be read is an
error, since it says where things are written. The first fault in the order of
the checks decides.

## Main definitions

* `ConnectionDefaults`: What the connection gives.
* `RunParameters`: The parameters of one run.
* `RunParameters.Fault`: Why they cannot be resolved.
* `RunParameters.resolve`: The parameters of a run.
* `RunParameters.ignoredTimeout`: The limit that was dropped.
-/

namespace BatchRun

/-- What a connection gives to every run. -/
structure ConnectionDefaults where
  applicationId : String
  executionRole : String
  region : String
  workspace : Option String
  deriving DecidableEq, Repr

/-- The parameters of one run. -/
structure RunParameters where
  applicationId : String
  executionRole : String
  entrypoint : String
  args : List String
  config : String
  timeout : Option Span
  region : String
  logs : Option ObjectUri
  workspace : Option ObjectUri
  deriving DecidableEq, Repr

namespace RunParameters

/-- Why a parameter cannot be used. -/
inductive Fault where
  | duration (value : String) (fault : Duration.Fault)
  | uri (raw : String) (fault : ObjectUri.Fault)
  | missing (name : String)
  deriving DecidableEq, Repr

/-- The complaint about a parameter. -/
def Fault.message : Fault → String
  | .duration value fault => s!"invalid duration '{value}': {fault.message}"
  | .uri raw fault => s!"invalid object URI {raw}: {fault.message}"
  | .missing name => s!"missing required parameter: {name}"

/-- The span of a parameter. -/
def readSpan (value : String) : Except Fault Span :=
  (Duration.read value).mapError (.duration value)

/-- The address in a parameter. -/
def readUri (raw : String) : Except Fault ObjectUri :=
  (ObjectUri.parse raw).mapError (.uri raw)

/-- The address in a parameter that may be absent. -/
def readUri? : Option String → Except Fault (Option ObjectUri)
  | none => .ok none
  | some raw => (readUri raw).map some

/-- The value of a named parameter, trimmed and not blank. -/
def value? (params : String → Option String) (name : String) : Option String :=
  (params name).bind Text.given

/-- The limit of a run, if it has one that can be read. -/
def timeout? (params : String → Option String) : Option Span :=
  (value? params "timeout").bind fun raw => (readSpan raw).toOption

/-- The parameters of a run. `params` gives the asset's value for a name. -/
def resolve (defaults : ConnectionDefaults) (params : String → Option String) :
    Except Fault RunParameters :=
  match Text.given defaults.applicationId, Text.given defaults.executionRole with
  | none, _ => .error (.missing "application_id")
  | some _, none => .error (.missing "execution_role")
  | some applicationId, some executionRole =>
    (readUri? (value? params "logs")).bind fun logs =>
      (readUri? (defaults.workspace.bind Text.given)).bind fun workspace =>
        .ok
          { applicationId, executionRole, logs, workspace
            entrypoint := (value? params "entrypoint").getD ""
            args := ((value? params "args").map Text.words).getD []
            config := (value? params "config").getD ""
            timeout := timeout? params
            region := Text.trim defaults.region }

/-- The fault of a limit that is dropped. It is found once both names are
    known to be given, before any URI is read. -/
def ignoredTimeout (defaults : ConnectionDefaults) (params : String → Option String) :
    Option Fault :=
  match Text.given defaults.applicationId, Text.given defaults.executionRole,
      value? params "timeout" with
  | some _, some _, some raw =>
    match readSpan raw with
    | .ok _ => none
    | .error fault => some fault
  | _, _, _ => none

/-- The limit of a run in whole minutes. -/
def timeoutMinutes (params : RunParameters) : Option Nat :=
  params.timeout.map Span.minutes

end RunParameters

end BatchRun
