import BatchRun.Run.State

/-!
# Runs and Their Attempts

A submitted run, and what is known of its attempts.

A run is addressed by its application and its own id. The service may try it
several times and lists the attempts in pages, oldest first, each page but the
last with a cursor for the next.

## Main definitions

* `RunHandle`: The address of a run.
* `Attempt`: One attempt.
* `AttemptPage`: Some attempts, and the cursor for more.
* `AttemptPage.latest`: The newest attempt of a page.
-/

namespace BatchRun

/-- The address of a submitted run. -/
structure RunHandle where
  applicationId : String
  runId : String
  deriving DecidableEq, Repr

/-- One attempt at a run. -/
structure Attempt where
  number : Nat
  state : RunState
  details : String
  deriving DecidableEq, Repr

/-- A page of attempts, oldest first. -/
structure AttemptPage where
  attempts : List Attempt
  nextToken : Option String
  deriving DecidableEq, Repr

/-- The newest attempt of a page. -/
def AttemptPage.latest (page : AttemptPage) : Option Attempt :=
  page.attempts.getLast?

end BatchRun
