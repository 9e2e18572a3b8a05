import BatchRun.CommandLine.Environment
import BatchRun.Machine.Disk
import BatchRun.Machine.Network
import BatchRun.Uuid
import Std.Async.Signal
import Std.Time

/-!
# The Program

A command as it is run on a machine.

Everything is decided elsewhere. Here the machine is asked for arguments,
variables, the time and random bits, and is a host for the run: it sends
requests, sleeps, and prints. An interrupt from the keyboard cancels the run,
which then cleans up before it ends.

## Main definitions

* `Machine.host`: The machine as a host.
* `main`: The program.
-/

namespace BatchRun

namespace Machine

/-- The variables with some names. -/
def environment (names : List String) : IO (Table String String) := do
  let found ← names.mapM fun name => do
    pure ((← IO.getEnv name).map fun value => (name, value))
  pure (Table.ofList found.reduceOption)

/-- All variables that a command can depend on. -/
def environmentOf (arguments : List String) : IO (Table String String) := do
  let fixed ← environment Environment.fixedNames
  let texts := arguments ++ fixed.map (·.2)
  let more ← environment (texts.flatMap fun text => Environment.namesIn text.toList)
  pure (Table.ofList (fixed ++ more))

/-- Some random bytes. -/
def randomBytes (count : USize) : IO Bytes := do
  pure (← IO.getRandomBytes count).toList

/-- Sleeps until a moment, in nanoseconds, and tells whether something happened
    before. -/
partial def sleepUntil (moment : Nat) (happened : IO Bool) : IO Bool := do
  if ← happened then pure true
  else
    let now ← IO.monoNanosNow
    if moment ≤ now then pure false
    else
      IO.sleep (UInt32.ofNat (min 20 ((moment - now) / 1000000 + 1)))
      sleepUntil moment happened

/-- Sleeps for a span, and tells whether something happened before. -/
def sleepFor (span : Span) (happened : IO Bool) : IO Bool := do
  sleepUntil ((← IO.monoNanosNow) + span.nanos) happened

/-- Sleeps without end. -/
partial def sleepOn {α : Type} : IO α := do
  IO.sleep 1000
  sleepOn

/-- Does something for a span at most, and tells whether it came to its end. -/
def within (limit : Span) (action : IO Unit) : IO Bool := do
  let task ← IO.asTask action
  let done ← sleepFor limit (IO.hasFinished task)
  unless done do IO.cancel task
  pure done

/-- Asks a service. -/
def ask (client : Client) (call : Call) : IO (Except ServiceError call.Answer) := do
  let now := Instant.ofEpoch (← Std.Time.Timestamp.now).toSecondsSinceUnixEpoch.val
  match client.request now call with
  | .error error => pure (.error error)
  | .ok request => pure (call.conclude (← Network.deliver request))

/-- Prints a line. A reader who has gone away is no reason to
    end a run. -/
def say (print : String → IO Unit) (line : String) : IO Unit := do
  try print line catch _ => pure ()

/-- The machine as a host. -/
def host (client : Client) (interrupted : IO Bool) : Host IO :=
  { call := ask client
    pause := fun span => sleepFor span interrupted
    within
    wait := sleepOn
    emit := say IO.println
    warn := fun warning => say IO.eprintln ("WARN " ++ warning.message)
    files := Disk.files
    rounds := Whole.bound64 }

/-- Whether the program has been interrupted from the keyboard, to be asked at
    any time. -/
def interrupts : IO (IO Bool) := do
  let waiter ← Std.Async.Signal.Waiter.mk .sigint false
  let signal ← waiter.wait
  pure (IO.hasFinished signal)

/-- Carries out a plan on this machine. -/
def carryOut (plan : Plan) : IO (Except CommandFault Unit) := do
  plan.carryOut (host plan.client (← interrupts))

/-- Carries out what a user typed. -/
def run (arguments : List String) : IO (Except CommandFault Unit) := do
  let environment ← environmentOf arguments
  let moment := (← Std.Time.Timestamp.now).toMillisecondsSinceUnixEpoch.val.toNat
  let runId := Uuid.timed moment (← randomBytes 10)
  let token := Uuid.random (← randomBytes 16)
  match Plan.make environment.get? runId token arguments with
  | .error fault => pure (.error fault)
  | .ok plan => carryOut plan

end Machine

end BatchRun

/-- Carries out what a user typed, and says why if that did not succeed. Help that
    was asked for is no failure. -/
def main (arguments : List String) : IO UInt32 := do
  match ← BatchRun.Machine.run arguments with
  | .ok _ => pure 0
  | .error fault =>
    if fault.exitCode = 0 then IO.println fault.report else IO.eprintln fault.report
    pure fault.exitCode.toUInt32
