import BatchRun.PollTimer
import BatchRun.Text.Blank
import BatchRun.Text.Whole

/-!
# Settings

The tuning of the supervision, read from named texts.

Intervals are given in milliseconds and timeouts in seconds. A blank setting is
as good as none. Reading stops at the first setting that is no number, and
checking at the first rule that is broken, both in the order given here.

## Main definitions

* `Settings`: Intervals, timeouts and service addresses.
* `Settings.read`: The settings among some named texts.
* `Settings.validate`: The first rule that some settings break.
* `Settings.timer`: The poll timer at the start of a run.
-/

namespace BatchRun

/-- The tuning of the supervision. -/
structure Settings where
  pollInterval : Span
  maxPollInterval : Span
  cleanupTimeout : Span
  cancelTimeout : Span
  controlPlaneEndpoint : Option String
  objectStoreEndpoint : Option String
  deriving DecidableEq, Repr

namespace Settings

/-- The settings of a run for which nothing was set. -/
def standard : Settings :=
  { pollInterval := Span.ofSeconds 2
    maxPollInterval := Span.ofSeconds 60
    cleanupTimeout := Span.ofSeconds 120
    cancelTimeout := Span.ofSeconds 30
    controlPlaneEndpoint := none
    objectStoreEndpoint := none }

/-- Why settings cannot be used. -/
inductive Fault where
  | notWhole (name : String) (fault : Whole.Fault)
  | zeroPollInterval
  | capBelowBase
  | zeroCleanupTimeout
  | zeroCancelTimeout
  | endpointScheme (endpoint : String)
  deriving DecidableEq, Repr

/-- The complaint about settings. -/
def Fault.message : Fault → String
  | .notWhole name fault => s!"{name} must be a whole number: {fault.message}"
  | .zeroPollInterval => "poll_interval must be greater than 0"
  | .capBelowBase => "max_poll_interval must not be smaller than poll_interval"
  | .zeroCleanupTimeout => "cleanup_timeout must be greater than 0"
  | .zeroCancelTimeout => "cancel_timeout must be greater than 0"
  | .endpointScheme endpoint => s!"endpoint {endpoint} must start with http:// or https://"

/-- The span in a setting, or the one that holds without it. -/
def readSpan (lookup : String → Option String) (name : String) (ofNumber : Nat → Span)
    (otherwise : Span) : Except Fault Span :=
  match (lookup name).bind Text.given with
  | none => .ok otherwise
  | some text =>
    match Whole.read Whole.bound64 text with
    | .ok n => .ok (ofNumber n)
    | .error fault => .error (.notWhole name fault)

/-- The settings among some named texts. -/
def read (lookup : String → Option String) : Except Fault Settings :=
  (readSpan lookup "SLUICE_POLL_INTERVAL_MS" Span.ofMillis standard.pollInterval).bind
    fun pollInterval =>
  (readSpan lookup "SLUICE_POLL_MAX_INTERVAL_MS" Span.ofMillis standard.maxPollInterval).bind
    fun maxPollInterval =>
  (readSpan lookup "SLUICE_CLEANUP_TIMEOUT" Span.ofSeconds standard.cleanupTimeout).bind
    fun cleanupTimeout =>
  (readSpan lookup "SLUICE_CANCEL_TIMEOUT" Span.ofSeconds standard.cancelTimeout).bind
    fun cancelTimeout =>
  .ok
    { pollInterval, maxPollInterval, cleanupTimeout, cancelTimeout
      controlPlaneEndpoint := (lookup "SLUICE_CONTROL_PLANE_ENDPOINT").bind Text.given
      objectStoreEndpoint := (lookup "SLUICE_OBJECT_STORE_ENDPOINT").bind Text.given }

/-- Whether an address is one of the web. -/
def isWebAddress (endpoint : String) : Bool :=
  endpoint.startsWith "http://" || endpoint.startsWith "https://"

/-- The first rule that some settings break. -/
def validate (settings : Settings) : Option Fault :=
  if settings.pollInterval.isZero then some .zeroPollInterval
  else if settings.maxPollInterval < settings.pollInterval then some .capBelowBase
  else if settings.cleanupTimeout.isZero then some .zeroCleanupTimeout
  else if settings.cancelTimeout.isZero then some .zeroCancelTimeout
  else
    (settings.controlPlaneEndpoint.toList ++ settings.objectStoreEndpoint.toList).findSome?
      fun endpoint => if isWebAddress endpoint then none else some (.endpointScheme endpoint)

/-- The poll timer at the start of a run. -/
def timer (settings : Settings) : PollTimer :=
  PollTimer.make settings.pollInterval settings.maxPollInterval

end Settings

end BatchRun
