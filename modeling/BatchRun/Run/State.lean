import BatchRun.Text.Blank

/-!
# Run States

What the control plane says about an attempt.

The service names a state by a word, and the set of words is open: one that is
not known here is kept as it came and never ends a run. A known word is
recognised whatever its case and the white space around it.

## Main definitions

* `RunState`: The nine known states, and any other word.
* `RunState.ofText`: The state that a word names.
* `RunState.wire`: The word for a state.
* `RunState.isTerminal`: Whether a state ends the run.
-/

namespace BatchRun

/-- The state of an attempt. -/
inductive RunState where
  | submitted
  | pending
  | scheduled
  | queued
  | running
  | success
  | failed
  | cancelling
  | cancelled
  | other (word : String)
  deriving DecidableEq, Repr

namespace RunState

/-- The word for a state. -/
def wire : RunState → String
  | submitted => "SUBMITTED"
  | pending => "PENDING"
  | scheduled => "SCHEDULED"
  | queued => "QUEUED"
  | running => "RUNNING"
  | success => "SUCCESS"
  | failed => "FAILED"
  | cancelling => "CANCELLING"
  | cancelled => "CANCELLED"
  | other word => word

/-- The states that have a word of their own. -/
def known : List RunState :=
  [submitted, pending, scheduled, queued, running, success, failed, cancelling, cancelled]

/-- A word as it is compared: trimmed, with its ASCII letters in capitals. -/
def compared (word : String) : String :=
  String.ofList ((Text.trim word).toList.map Char.toUpper)

/-- The state that a word names. -/
def ofText (word : String) : RunState :=
  (known.find? fun state => state.wire = compared word).getD (other word)

/-- Whether a state ends the run. -/
def isTerminal : RunState → Bool
  | success => true
  | failed => true
  | cancelled => true
  | _ => false

/-- Whether a state has a word of its own. -/
def isRecognized : RunState → Bool
  | other _ => false
  | _ => true

end RunState

end BatchRun
