import BatchRun.Proofs.Session.Action
import BatchRun.Supervision

/-!
# Quiet Sessions

Sessions in which nothing gets in the way.

In a quiet session there is no limit and nobody has cancelled the run. A pause
then lasts as long as it should, and an answer that comes at all is received.
Saying something only adds to what has happened.

## Main definitions

* `Session.Quiet`: No limit is set and no cancellation is due.

## Theorems

* `Session.pause_of_quiet`: A pause in a quiet session.
* `Session.ask_of_quiet`: A call in a quiet session.
* `Supervision.report_says`, `Supervision.emitAll_says`: What only says
  something.
-/

namespace BatchRun

namespace Session

variable {σ : Type}

/-- No limit is set and no cancellation is due. -/
structure Quiet (session : Session σ) : Prop where
  deadline : session.deadline = none
  cancelAt : session.cancelAt = none

/-- A pause in a quiet session only takes its time. -/
theorem pause_of_quiet {session : Session σ} (h : session.Quiet) (span : Span) :
    pause span session = (some false, { session with now := session.now + span.nanos }) := by
  rcases pause_cases span h.deadline with ⟨moment, hmoment, _⟩ | ⟨_, hpause⟩
  · rw [h.cancelAt] at hmoment
    exact absurd hmoment (by simp only [reduceCtorEq, not_false_eq_true])
  · exact hpause

/-- A call in a quiet session is answered if it is answered at all, and the
    session stays quiet unless the run is cancelled meanwhile. -/
theorem ask_of_quiet {service : Service σ} {call : Call} {session : Session σ}
    (h : session.Quiet) (hdelay : (service.reply call session.state).delay ≠ none)
    (hcancels : (service.reply call session.state).cancels = false) :
    ∃ next, ask service call session =
        (some (service.reply call session.state).answer, next) ∧
      next.Quiet ∧ next.state = (service.reply call session.state).settled := by
  rcases Option.ne_none_iff_exists'.mp hdelay with ⟨span, hspan⟩
  refine ⟨_, ask_of_delay h.deadline hspan, ⟨h.deadline, ?_⟩, rfl⟩
  simp only [settle, hcancels, Bool.false_eq_true, if_false]
  exact h.cancelAt

/-- Nothing ends waiting without end in a quiet session. -/
theorem wait_of_quiet {α : Type} (service : Service σ) (tree : FileTree) (limit : Nat)
    {session : Session σ} (h : session.Quiet) :
    ((host service tree limit).wait : Action σ α) session = (none, session) := by
  simp only [host, Action.andThen, elapse, h.deadline]

theorem quiet_of_events {session : Session σ} (h : session.Quiet) (events : List (Nat × Event)) :
    { session with events }.Quiet :=
  ⟨h.deadline, h.cancelAt⟩

end Session

namespace Supervision

variable {σ : Type}

/-- Putting out lines only says something. -/
theorem emitAll_says (service : Service σ) (tree : FileTree) (limit : Nat) (lines : List LogLine)
    (session : Session σ) :
    ∃ events, emitAll (Session.host service tree limit) lines session =
      (some (), { session with events }) := by
  induction lines generalizing session with
  | nil => exact ⟨session.events, rfl⟩
  | cons line rest ih =>
      rcases ih (session.record (.line line.text)) with ⟨events, hrest⟩
      exact ⟨events, hrest⟩

/-- So does the line about an attempt, with the warning before it. -/
theorem report_says (service : Service σ) (tree : FileTree) (limit : Nat) (runId : String)
    (reported : Option RunState) (attempt : Attempt) (session : Session σ) :
    ∃ events, report (Session.host service tree limit) runId reported attempt session =
      (some (), { session with events }) := by
  unfold report
  by_cases hnew : reported ≠ some attempt.state
  · rw [if_pos hnew]
    by_cases hknown : (!attempt.state.isRecognized) = true
    · rw [if_pos hknown]
      exact ⟨_, rfl⟩
    · rw [if_neg hknown]
      exact ⟨_, rfl⟩
  · rw [if_neg hnew]
    exact ⟨session.events, rfl⟩

end Supervision

end BatchRun
