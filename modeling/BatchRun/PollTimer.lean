import BatchRun.Span.Basic

/-!
# Poll Timer

How long to wait between two status polls.

The wait starts at a base interval. A throttled poll doubles it, or lengthens it
by a millisecond where that is more, up to a cap; a poll that gets through
brings it back to the base. The cap is never below the base.

## Main definitions

* `PollTimer`: Base, cap and the wait at hand.
* `PollTimer.make`: A timer at its base.
* `PollTimer.increase`, `PollTimer.reset`: After a throttled poll, and after
  one that got through.
-/

namespace BatchRun

/-- How long to wait before the next poll. -/
structure PollTimer where
  base : Span
  cap : Span
  wait : Span
  deriving DecidableEq, Repr

namespace PollTimer

/-- A timer at its base. A cap below the base is raised to it. -/
def make (base cap : Span) : PollTimer :=
  { base, cap := cap.longer base, wait := base }

/-- The wait after a throttled poll. -/
def increase (timer : PollTimer) : PollTimer :=
  { timer with
    wait := (timer.wait.double.longer (timer.wait.add (Span.ofMillis 1))).shorter timer.cap }

/-- The wait after a poll that got through. -/
def reset (timer : PollTimer) : PollTimer :=
  { timer with wait := timer.base }

end PollTimer

end BatchRun
