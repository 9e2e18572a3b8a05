import BatchRun.Connection
import BatchRun.Table

/-!
# Command Line Arguments

What a user types, and what is wrong with it.

Every option has a long name. Its value stands behind an equals sign or is the
next argument, unless that begins with a hyphen; two options take pairs and may
be given often, all others only once. Where an option is not given, a variable of
the environment may stand in for it.

Arguments are read from the left. A value is looked at when the next option
begins, or at the end; an argument that means nothing is refused at once,
whatever is wrong with the value before it.

## Main definitions

* `Arguments`: What was typed.
* `Arguments.Fault`: Why it makes no sense.
* `Arguments.read`: The arguments in some texts.
-/

namespace BatchRun

/-- What was typed. -/
structure Arguments where
  asset : String
  entrypoint : String
  pipeline : String
  noStaging : Bool
  params : List (String × String)
  environment : List (String × String)
  connection : Connection
  logLevel : Option String

namespace Arguments

/-- Why arguments make no sense. -/
inductive Fault where
  | help
  | unexpected (argument : String)
  | unexpectedValue (value option : String)
  | missingValue (option : String)
  | repeated (option : String)
  | notPair (value option : String)
  | missing
  deriving DecidableEq, Repr

/-- The complaint about arguments. -/
def Fault.message : Fault → String
  | .help => "Stage, submit and supervise Spark jobs on EMR Serverless"
  | .unexpected argument => s!"error: unexpected argument '{argument}' found"
  | .unexpectedValue value option =>
    s!"error: unexpected value '{value}' for '{option}' found; no more were expected"
  | .missingValue option => s!"error: a value is required for '{option}' but none was supplied"
  | .repeated option => s!"error: the argument '{option}' cannot be used multiple times"
  | .notPair value option =>
    s!"error: invalid value '{value}' for '{option}': expected KEY=VALUE, got '{value}'"
  | .missing => "error: the following required arguments were not provided:"

/-- What an option takes. -/
inductive Kind where
  | switch
  | text
  | path
  | pairs
  deriving DecidableEq, Repr

/-- The options by their names. -/
def options : List (String × Kind) :=
  [("asset", .text), ("entrypoint", .path), ("pipeline", .text), ("no-staging", .switch),
    ("param", .pairs), ("env", .pairs), ("application-id", .text), ("execution-role", .text),
    ("region", .text), ("workspace", .text), ("access-key", .text), ("secret-key", .text),
    ("session-token", .text), ("log-level", .text)]

/-- An option as it is shown, with a name for its value. -/
def shown (name : String) (kind : Kind) : String :=
  let value := name.toList.map fun c => if c = '-' then '_' else c.toUpper
  match kind with
  | .switch => "--" ++ name
  | .pairs => "--" ++ name ++ " <KEY=VALUE>"
  | _ => "--" ++ name ++ " <" ++ String.ofList value ++ ">"

/-- The key and the value of a pair. The key is trimmed and must not be
    blank. -/
def pair? (text : String) : Option (String × String) :=
  (Text.cutAtFirst '=' text.toList).bind fun (key, value) =>
    (Text.given (String.ofList key)).map fun key => (key, String.ofList value)

/-- The options that were given, each with its value, in order. -/
abbrev Found := List (String × String)

/-- What was given with one more option, if that makes sense. -/
def accept (found : Found) (name : String) (kind : Kind) (value : String) :
    Except Fault Found :=
  if kind = .pairs then
    if (pair? value).isSome then .ok (found ++ [(name, value)])
    else .error (.notPair value (shown name kind))
  else if found.any (·.1 == name) then .error (.repeated (shown name kind))
  else if kind = .path ∧ value.isEmpty then .error (.missingValue (shown name kind))
  else .ok (found ++ [(name, value)])

/-- An option that has begun, with its value if that has come. -/
abbrev Pending := Option (String × Kind × Option String)

/-- What was given with the option that has begun. -/
def settle (found : Found) : Pending → Except Fault Found
  | none => .ok found
  | some (name, kind, none) => .error (.missingValue (shown name kind))
  | some (name, kind, some value) => accept found name kind value

/-- A long option in its two parts: the name, and the value behind the equals
    sign. -/
def cutLong (text : List Char) : String × Option String :=
  match Text.cutAtFirst '=' text with
  | some (name, value) => (String.ofList name, some (String.ofList value))
  | none => (String.ofList text, none)

/-- One long option: what was given before it, and what it leaves pending. -/
def readLong (found : Found) (pending : Pending) (text : List Char) :
    Except Fault (Found × Pending) :=
  let (name, value) := cutLong text
  match options.lookup name, value with
  | none, value =>
    if name = "help" then
      match value with
      | some value => .error (.unexpectedValue value "--help")
      | none => (settle found pending).bind fun _ => .error .help
    else .error (.unexpected ("--" ++ name))
  | some .switch, some value => .error (.unexpectedValue value (shown name .switch))
  | some .switch, none =>
    (settle found pending).bind fun found =>
      (accept found name .switch "").map fun found => (found, none)
  | some kind, some value =>
    (settle found pending).bind fun found =>
      (accept found name kind value).map fun found => (found, none)
  | some kind, none => (settle found pending).map fun found => (found, some (name, kind, none))

/-- Reads arguments from the left. -/
def scan (found : Found) (pending : Pending) : List String → Except Fault Found
  | [] => settle found pending
  | argument :: rest =>
    match argument.toList with
    | ['-', '-'] =>
      match rest with
      | [] => settle found pending
      | stray :: _ => .error (.unexpected stray)
    | '-' :: '-' :: text =>
      (readLong found pending text).bind fun (found, pending) => scan found pending rest
    | '-' :: c :: _ =>
      if c = 'h' then (settle found pending).bind fun _ => .error .help
      else .error (.unexpected (String.ofList ['-', c]))
    | _ =>
      match pending with
      | some (name, kind, none) => scan found (some (name, kind, some argument)) rest
      | _ => .error (.unexpected argument)

/-- The value of an option: what was given, or a variable of the environment, or
    what holds without both. -/
def valueOf (found : Found) (lookup : String → Option String) (name variableName : String)
    (otherwise : String) : String :=
  ((found.lookup name).or (lookup variableName)).getD otherwise

/-- The pairs that an option was given with. -/
def pairsOf (found : Found) (name : String) : List (String × String) :=
  found.filterMap fun (given, value) => if given = name then pair? value else none

/-- The connection that options and environment name. -/
def connectionOf (found : Found) (lookup : String → Option String) : Connection :=
  { accessKey := valueOf found lookup "access-key" "AWS_ACCESS_KEY_ID" ""
    secretKey := valueOf found lookup "secret-key" "AWS_SECRET_ACCESS_KEY" ""
    sessionToken := valueOf found lookup "session-token" "AWS_SESSION_TOKEN" ""
    applicationId := valueOf found lookup "application-id" "SLUICE_APPLICATION_ID" ""
    executionRole := valueOf found lookup "execution-role" "SLUICE_EXECUTION_ROLE" ""
    region := valueOf found lookup "region" "AWS_REGION" "us-east-1"
    workspace := valueOf found lookup "workspace" "SLUICE_WORKSPACE" "" }

/-- The arguments in some texts. -/
def read (lookup : String → Option String) (texts : List String) : Except Fault Arguments :=
  (scan [] none texts).bind fun found =>
    match found.lookup "asset", found.lookup "entrypoint" with
    | some asset, some entrypoint =>
      .ok
        { asset, entrypoint
          pipeline := (found.lookup "pipeline").getD "default"
          noStaging := (found.lookup "no-staging").isSome
          params := pairsOf found "param"
          environment := pairsOf found "env"
          connection := connectionOf found lookup
          logLevel := found.lookup "log-level" }
    | _, _ => .error .missing

end Arguments

end BatchRun
