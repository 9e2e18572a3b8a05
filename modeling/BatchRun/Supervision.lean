import BatchRun.Host
import BatchRun.Logs.Line
import BatchRun.Outcome
import BatchRun.PollTimer

/-!
# Supervision

Following a run until it stops.

One poll asks for the attempts at the run. Its answer is decisive if it says
that the run has stopped, or if it makes no sense to go on: the service said no,
or knows of no attempt. An answer that asks for patience only makes the next
wait longer. Any other answer is digested and the polling goes on.

To digest a page is to put out a line if the state is a new one, then the lines
that the run has logged. Logs are read for the last time when the run has
stopped. The cursor of the page is kept for the next poll; a page without one
leaves the cursor as it was.

Cancellation is noticed while waiting for the next poll and nowhere else.

## Main definitions

* `Watch`: What is carried from one poll to the next.
* `Supervision.digest`: What a page makes of it.
* `Supervision.poll`: One poll.
* `Supervision.supervise`: Polls until one is decisive.
-/

namespace BatchRun

/-- What is carried from one poll to the next: how long to wait, the state that
    was last reported, the cursor, and how far logs have been read. -/
structure Watch (κ : Type) where
  timer : PollTimer
  reported : Option RunState
  token : Option String
  logs : κ
  deriving DecidableEq, Repr

namespace Watch

variable {κ : Type}

/-- A watch before the first poll. -/
def start (timer : PollTimer) (logs : κ) : Watch κ :=
  { timer, reported := none, token := none, logs }

end Watch

namespace Supervision

variable {m : Type → Type} [Monad m] {κ : Type}

/-- The line about an attempt. -/
def stateLine (runId : String) (attempt : Attempt) : String :=
  s!"{runId} | {attempt.state.wire} | {attempt.details}"

/-- Puts out the line about an attempt if its state is a new one, behind a
    warning if the state is not known. -/
def report (host : Host m) (runId : String) (reported : Option RunState) (attempt : Attempt) :
    m Unit := do
  if reported ≠ some attempt.state then
    if !attempt.state.isRecognized then
      host.warn (.unrecognizedState runId attempt.state)
    host.emit (stateLine runId attempt)

/-- Puts out some lines. -/
def emitAll (host : Host m) : List LogLine → m Unit
  | [] => pure ()
  | line :: rest => do
    host.emit line.text
    emitAll host rest

/-- What a page of attempts makes of a watch, and the outcome if it decides
    one. `read` gives the new lines of the logs. -/
def digest (host : Host m) (read : Bool → κ → m (List LogLine × κ)) (runId : String)
    (watch : Watch κ) (page : AttemptPage) : m (Option Outcome × Watch κ) :=
  match page.latest with
  | none => pure (some (.localError (.noAttempts runId)), watch)
  | some attempt => do
    report host runId watch.reported attempt
    let (lines, logs) ← read attempt.state.isTerminal watch.logs
    emitAll host lines
    pure (Outcome.ofAttempt? runId attempt,
      { watch with
        logs
        reported := some attempt.state
        token := page.nextToken.or watch.token })

/-- One poll: what its answer makes of a watch, and the outcome if it decides
    one. -/
def poll (host : Host m) (read : Bool → κ → m (List LogLine × κ)) (handle : RunHandle)
    (watch : Watch κ) : m (Option Outcome × Watch κ) := do
  match ← host.call (.attempts handle watch.token) with
  | .ok page => digest host read handle.runId { watch with timer := watch.timer.reset } page
  | .error error =>
    if error.isThrottling then pure (none, { watch with timer := watch.timer.increase })
    else pure (some (.localError (.listing error)), watch)

/-- Polls until one is decisive, or until the run is cancelled between two of
    them. -/
def supervise (host : Host m) (read : Bool → κ → m (List LogLine × κ)) (handle : RunHandle) :
    Nat → Watch κ → m (Outcome × Watch κ)
  | 0, _ => host.wait
  | rounds + 1, watch => do
    if ← host.pause watch.timer.wait then pure (.abandoned, watch)
    else
      match ← poll host read handle watch with
      | (some outcome, watch) => pure (outcome, watch)
      | (none, watch) => supervise host read handle rounds watch

end Supervision

end BatchRun
