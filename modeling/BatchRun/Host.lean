import BatchRun.Files.Basic
import BatchRun.Service.Call
import BatchRun.Warning

/-!
# Hosts

What a run needs from the world.

A run calls services, waits, and says what happens. A host does these things
for it: on a machine with real services and a real clock, or in memory with a
clock that only counts. The steps of a run are written once, over any host, so
what holds of them in memory holds of them everywhere.

A run can be cancelled from outside, and notices it only when it pauses: a call
under way is never broken off by it. A limit does break off what it is set for,
in the middle of a call if need be. The loops of a run have no end of their own,
since a service may always have more to say; a host grants them a number of
rounds, beyond which a run waits without end.

## Main definitions

* `Host`: What a run needs from the world.
-/

namespace BatchRun

/-- What a run needs from the world. -/
structure Host (m : Type → Type) where
  /-- Ask a service. -/
  call : (call : Call) → m (Except ServiceError call.Answer)
  /-- Wait for a span, and tell whether the run was cancelled instead. -/
  pause : Span → m Bool
  /-- Do something for a span at most, and tell whether it came to its end. -/
  within : Span → m Unit → m Bool
  /-- Wait without end. -/
  wait : {α : Type} → m α
  /-- Put out a line. -/
  emit : String → m Unit
  /-- Put out a warning. -/
  warn : Warning → m Unit
  /-- The files of the machine. -/
  files : Files m
  /-- How often a loop may go round. -/
  rounds : Nat

end BatchRun
