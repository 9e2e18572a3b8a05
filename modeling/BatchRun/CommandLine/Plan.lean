import BatchRun.CommandLine.Arguments
import BatchRun.Job
import BatchRun.Service.Rest

/-!
# Plans

From what a user typed to a job and the services it runs on.

The arguments are read first, then the settings, then the parameters of the job;
the first of them that makes no sense ends the program. What it says is one line,
with the causes below it if there are any. A program that was used wrongly ends
with another number than one that failed.

## Main definitions

* `Plan`: What is to be done, and with whom.
* `Plan.make`: The plan for what a user typed.
* `Plan.carryOut`: Carries out a plan.
* `CommandFault`: Why a program ends without success.
* `CommandFault.report`: What is said about it.
-/

namespace BatchRun

/-- Why a program ends without success. -/
inductive CommandFault where
  | arguments (fault : Arguments.Fault)
  | logLevel (level : String)
  | settings (fault : Settings.Fault)
  | run (asset : String) (error : RunError)
  | unresolved (error : RunError)
  deriving DecidableEq, Repr

namespace CommandFault

/-- A cause under its number, with the lines behind the first one indented. -/
def causeText (number : Option Nat) (cause : String) : String :=
  let (start, margin) := match number with
    | some n =>
      let digits := toString n
      (String.ofList (List.replicate (5 - digits.length) ' ') ++ digits ++ ": ", "       ")
    | none => ("    ", "    ")
  start ++ ("\n" ++ margin).intercalate
    ((Text.splitOn '\n' cause.toList).map String.ofList)

/-- Causes below a message. One alone has no number. -/
def causesText : List String → String
  | [] => ""
  | [cause] => "\n\nCaused by:\n" ++ causeText none cause
  | causes =>
    "\n\nCaused by:\n" ++
      "\n".intercalate (causes.mapIdx fun number cause => causeText (some number) cause)

/-- The message of a fault and its causes. -/
def texts : CommandFault → String × List String
  | arguments fault => (fault.message, [])
  | logLevel level => (s!"invalid log level '{level}'", ["invalid filter directive"])
  | settings fault => (fault.message, [])
  | run asset error => (s!"Run of {asset} failed", error.message :: error.causes)
  | unresolved error => (error.message, error.causes)

/-- What is said about a fault. -/
def report (fault : CommandFault) : String :=
  let (message, causes) := fault.texts
  match fault with
  | arguments _ => message
  | _ => "Error: " ++ message ++ causesText causes

/-- The number that a program ends with. -/
def exitCode : CommandFault → UInt8
  | arguments .help => 0
  | arguments _ => 2
  | _ => 1

end CommandFault

namespace LogLevel

/-- The words for how much is logged. -/
def words : List String :=
  ["trace", "debug", "info", "warn", "error", "off", "0", "1", "2", "3", "4", "5"]

/-- Whether a text is one of these words in any case. -/
def isWord (text : List Char) : Bool :=
  words.contains (String.ofList (text.map Char.toLower))

/-- Whether a character may stand in the name of a part of the program. -/
def isNameChar (c : Char) : Bool :=
  c.isAlphanum || c == '_' || c == ':' || c == '-' || 0x80 ≤ c.toNat

/-- What follows a name, or a span in brackets. -/
def skipName (text : List Char) : Option (List Char) :=
  match text with
  | '[' :: inside => (Text.cutAtFirst ']' inside).map (·.2)
  | _ => if (text.head?.map isNameChar).getD false then some (text.dropWhile isNameChar) else none

/-- Whether what follows a name is nothing, or an equals sign with a word or
    nothing behind it. -/
def isEnding : List Char → Bool
  | [] => true
  | '=' :: word => word.isEmpty || isWord word
  | _ => false

/-- Whether a text says how much is logged, for everything or for what is
    named. -/
def isDirective (text : List Char) : Bool :=
  isWord text ||
    match skipName text with
    | none => false
    | some rest =>
      isEnding rest ||
        match skipName rest with
        | none => false
        | some rest => isEnding rest

/-- Whether every part of a text between commas says so. -/
def isValid (level : String) : Bool :=
  ((Text.splitOn ',' level.toList).filter (!·.isEmpty)).all isDirective

end LogLevel

/-- What is to be done, and with whom. -/
structure Plan where
  client : Client
  settings : Settings
  job : Job
  warnings : List Warning

namespace Plan

/-- The settings in the environment, if they are valid. -/
def settingsOf (lookup : String → Option String) : Except CommandFault Settings :=
  ((Settings.read lookup).mapError .settings).bind fun settings =>
    match settings.validate with
    | none => .ok settings
    | some fault => .error (.settings fault)

/-- The named parameters that were typed. An asset that is not staged is its own
    entrypoint unless another one is named. -/
def paramsOf (arguments : Arguments) : Table String String :=
  let given := Table.ofList arguments.params
  if arguments.noStaging && (given.get? "entrypoint").isNone then
    given.put "entrypoint" arguments.entrypoint
  else given

/-- The services of a connection. -/
def clientOf (settings : Settings) (connection : Connection) : Client :=
  Client.make connection.region settings.controlPlaneEndpoint settings.objectStoreEndpoint
    connection.credentials

/-- The asset that was typed. -/
def assetOf (arguments : Arguments) : Asset :=
  ⟨arguments.asset, Utf8.encode arguments.entrypoint, !arguments.noStaging⟩

/-- The plan for arguments that have been read, with the two names that are made
    up for it. -/
def ofArguments (lookup : String → Option String) (runId clientToken : String)
    (arguments : Arguments) : Except CommandFault Plan :=
  match arguments.logLevel.filter (!LogLevel.isValid ·) with
  | some level => .error (.logLevel level)
  | none =>
    (settingsOf lookup).bind fun settings =>
      let connection := arguments.connection.expand lookup
      let params := (paramsOf arguments).get?
      ((Job.resolve (assetOf arguments) arguments.pipeline connection.defaults params
        (Table.ofList arguments.environment) runId clientToken).mapError .unresolved).map
          fun job =>
            { client := clientOf settings connection
              settings, job
              warnings := (if connection.credentials.isNone then [.unsigned] else []) ++
                ((RunParameters.ignoredTimeout connection.defaults params).toList.map
                  .ignoredTimeout) }

/-- The plan for what a user typed. -/
def make (lookup : String → Option String) (runId clientToken : String)
    (texts : List String) : Except CommandFault Plan :=
  ((Arguments.read lookup texts).mapError .arguments).bind (ofArguments lookup runId clientToken)

/-- Puts out some warnings. -/
def warnAll {m : Type → Type} [Monad m] (host : Host m) : List Warning → m Unit
  | [] => pure ()
  | warning :: rest => do
    host.warn warning
    warnAll host rest

/-- Carries out a plan. -/
def carryOut {m : Type → Type} [Monad m] (host : Host m) (plan : Plan) :
    m (Except CommandFault Unit) := do
  warnAll host plan.warnings
  let result ← plan.job.carryOut host plan.settings
  pure (result.mapError (.run plan.job.asset.name))

end Plan

end BatchRun
