import BatchRun.Proofs.Session.Dialogue

/-!
# Answered Calls

What is said when every call is answered.

An action that comes to its end has had an answer to each of its calls, unless
part of it was within a limit. So its calls alone tell what was said and to which
state the service has come, if it is known where the service was before.

## Main definitions

* `Service.after`: The state of a service behind some answered calls.
* `Service.exchanges`: These calls with their answers.

## Theorems

* `Service.after_append`, `Service.exchanges_append`: One sequence of calls
  behind the other.
* `Session.answered_of_ask`, `Session.answered_of_delay`: A call that is answered.
* `Session.eq_of_within`: What is done within a limit, and whether it was in time.
-/

namespace BatchRun

variable {σ : Type}

/-- The state of a service behind some calls that are all answered. -/
def Service.after (service : Service σ) : List Call → σ → σ
  | [], state => state
  | call :: rest, state => after service rest (service.reply call state).settled

/-- Some calls with their answers, if all are answered. -/
def Service.exchanges (service : Service σ) : List Call → σ → List Exchange
  | [], _ => []
  | call :: rest, state =>
    ⟨call, some (service.reply call state).answer⟩ ::
      exchanges service rest (service.reply call state).settled

namespace Service

variable {service : Service σ}

theorem after_append (front back : List Call) (state : σ) :
    service.after (front ++ back) state = service.after back (service.after front state) := by
  induction front generalizing state with
  | nil => rfl
  | cons call rest ih => exact ih _

theorem exchanges_append (front back : List Call) (state : σ) :
    service.exchanges (front ++ back) state =
      service.exchanges front state ++ service.exchanges back (service.after front state) := by
  induction front generalizing state with
  | nil => rfl
  | cons call rest ih =>
      rw [List.cons_append, exchanges, ih]
      rfl

/-- Every call has its answer among the exchanges. -/
theorem exists_mem_exchanges (service : Service σ) {calls : List Call} {call : Call}
    (h : call ∈ calls) (state : σ) :
    ∃ answer, ⟨call, some answer⟩ ∈ service.exchanges calls state := by
  induction calls generalizing state with
  | nil => exact absurd h List.not_mem_nil
  | cons first rest ih =>
      rcases List.mem_cons.mp h with rfl | hrest
      · exact ⟨_, List.mem_cons_self⟩
      · rcases ih hrest (service.reply first state).settled with ⟨answer, hmem⟩
        exact ⟨answer, List.mem_cons_of_mem _ hmem⟩

/-- No call stands among the exchanges that was not made. -/
theorem mem_of_mem_exchanges {calls : List Call} {exchange : Exchange} {state : σ}
    (h : exchange ∈ service.exchanges calls state) : exchange.call ∈ calls := by
  induction calls generalizing state with
  | nil => exact absurd h List.not_mem_nil
  | cons first rest ih =>
      rcases List.mem_cons.mp h with rfl | hrest
      · exact List.mem_cons_self
      · exact List.mem_cons_of_mem _ (ih hrest)

end Service

/-- A call that is answered leaves the service in the state behind it. -/
theorem Session.answered_of_ask {service : Service σ} {call : Call} {session next : Session σ}
    {answer : Except ServiceError call.Answer}
    (h : ask service call session = (some answer, next)) :
    next.calls = session.calls ++ [call] ∧ next.state = service.after [call] session.state ∧
      (service.reply call session.state).answer = answer := by
  have hcalls := calls_ask service call session
  rw [h] at hcalls
  rcases eq_of_ask h with ⟨hanswer, hstate⟩
  exact ⟨hcalls, hstate.symm, hanswer⟩

/-- Without a limit a call is answered if its answer comes at all. -/
theorem Session.answered_of_delay {service : Service σ} {call : Call} {session : Session σ}
    (hlimit : session.deadline = none)
    (hdelay : (service.reply call session.state).delay ≠ none) :
    ∃ next, ask service call session = (some (service.reply call session.state).answer, next) ∧
      next.deadline = none ∧ next.calls = session.calls ++ [call] ∧
      next.state = service.after [call] session.state := by
  rcases Option.ne_none_iff_exists'.mp hdelay with ⟨span, hspan⟩
  have hasked := ask_of_delay hlimit hspan
  rcases answered_of_ask hasked with ⟨hcalls, hstate, _⟩
  exact ⟨_, hasked, hlimit, hcalls, hstate⟩

/-- What is done within a limit is in time exactly if it comes to its end before
    the limit does. -/
theorem Session.eq_of_within {limit : Span} {action : Action σ Unit} {session next : Session σ}
    {done : Bool} (h : within limit action session = (some done, next)) :
    ∃ result after, action { session with deadline := some (session.now + limit.nanos) } =
        (result, after) ∧
      done = result.isSome ∧ next = { after with deadline := session.deadline } := by
  simp only [within, Prod.mk.injEq, Option.some.injEq] at h
  exact ⟨_, _, rfl, h.1.symm, h.2.symm⟩

theorem Session.mem_warnings_record (session : Session σ) (warning : Warning) :
    warning ∈ (session.record (.warned warning)).warnings := by
  simp only [warnings, record, List.filterMap_append, List.filterMap_cons, List.filterMap_nil,
    List.mem_append, List.mem_singleton, or_true]

end BatchRun
