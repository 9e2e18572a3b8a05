import BatchRun.Session.Basic

/-!
# Steps of an Action

How an action that is put together of others comes to its end.

An action comes to its end if the first of its parts does and the rest does from
there. Taking one apart gives the session between the two, so what is known of
each part can be chained through these sessions. An answer that has come is the
one of the service in the state in which it was asked.

## Theorems

* `Action.bind_of_some`, `Action.bind_of_none`: What the first part leads to.
* `Action.eq_of_bind`: Taking an action apart.
* `Action.eq_of_pure`: An action that does nothing.
* `Session.elapse_passes`, `Session.pause_passes`, `Session.wait_passes`: What
  time does to a session.
* `Session.wait_ne_some`: Waiting without end.
* `Session.ask_cases`, `Session.pause_cases`: What a call does to it, and a pause
  without a limit.
* `Session.eq_of_ask`, `Session.ask_of_delay`: An answer that has come, and one
  that will.
-/

namespace BatchRun

namespace Action

variable {σ α β : Type}

theorem bind_of_some {action : Action σ α} {next : α → Action σ β} {session middle : Session σ}
    {a : α} (h : action session = (some a, middle)) :
    (action >>= next) session = next a middle := by
  change andThen action next session = _
  rw [andThen, h]

theorem bind_of_none {action : Action σ α} {next : α → Action σ β} {session middle : Session σ}
    (h : action session = (none, middle)) : (action >>= next) session = (none, middle) := by
  change andThen action next session = _
  rw [andThen, h]

/-- If two actions come to their end, the first did, and the second did from
    there. -/
theorem eq_of_bind {action : Action σ α} {next : α → Action σ β} {session final : Session σ}
    {b : β} (h : (action >>= next) session = (some b, final)) :
    ∃ a middle, action session = (some a, middle) ∧ next a middle = (some b, final) := by
  rcases hfirst : action session with ⟨_ | a, middle⟩
  · rw [bind_of_none hfirst] at h
    exact absurd h (by simp only [Prod.mk.injEq, reduceCtorEq, false_and, not_false_eq_true])
  · exact ⟨a, middle, rfl, by rwa [bind_of_some hfirst] at h⟩

theorem eq_of_pure {a b : α} {session final : Session σ}
    (h : (pure a : Action σ α) session = (some b, final)) : a = b ∧ session = final := by
  change (some a, session) = _ at h
  simpa only [Prod.mk.injEq, Option.some.injEq] using h

end Action

namespace Session

variable {σ : Type}

/-- Time that passes does not go back, does not pass a limit that is set, and
    changes nothing else. -/
theorem elapse_passes (span : Option Span) (session : Session σ) :
    ∃ now, (elapse span session).2 = { session with now } ∧ session.now ≤ now ∧
      ∀ limit, session.deadline = some limit → session.now ≤ limit → now ≤ limit := by
  cases span with
  | none =>
      cases hlimit : session.deadline with
      | none =>
          have hstuck : elapse none session = (none, session) := by simp only [elapse, hlimit]
          refine ⟨session.now, by rw [hstuck, ← hlimit], Nat.le_refl _, fun limit hno => ?_⟩
          exact absurd hno (by simp only [reduceCtorEq, not_false_eq_true])
      | some limit =>
          refine ⟨max session.now limit, ?_, Nat.le_max_left _ _, fun other hother hle => ?_⟩
          · simp only [elapse, hlimit]
          · rw [Option.some.injEq] at hother
            rw [hother]
            exact Nat.max_le.mpr ⟨hle, Nat.le_refl _⟩
  | some span =>
      cases hlimit : session.deadline with
      | none =>
          refine ⟨session.now + span.nanos, ?_, Nat.le_add_right _ _, fun limit hno => ?_⟩
          · simp only [elapse, hlimit]
          · exact absurd hno (by simp only [reduceCtorEq, not_false_eq_true])
      | some limit =>
          -- A span of no time is over at once, even behind the limit.
          by_cases hdue : (span.isZero || session.now + span.nanos ≤ limit) = true
          · refine ⟨session.now + span.nanos, ?_, Nat.le_add_right _ _, fun other hother hle => ?_⟩
            · simp only [elapse, hlimit, hdue, if_true]
            · rw [Option.some.injEq] at hother
              rw [Bool.or_eq_true, decide_eq_true_eq, Span.isZero, beq_iff_eq] at hdue
              rcases hdue with hzero | hdue
              · rwa [hzero]
              · rwa [← hother]
          · refine ⟨max session.now limit, ?_, Nat.le_max_left _ _, fun other hother hle => ?_⟩
            · simp only [elapse, hlimit, hdue, Bool.false_eq_true, if_false]
            · rw [Option.some.injEq] at hother
              rw [hother]
              exact Nat.max_le.mpr ⟨hle, Nat.le_refl _⟩

/-- A call is answered by the service or broken off, at some moment that is not
    past a limit that is set. -/
theorem ask_cases (service : Service σ) (call : Call) (session : Session σ) :
    ∃ now, session.now ≤ now ∧
      (∀ limit, session.deadline = some limit → session.now ≤ limit → now ≤ limit) ∧
      (ask service call session = (some (service.reply call session.state).answer,
          settle (service.reply call session.state)
            { session.record (.asked call) with now }) ∨
        ask service call session = (none,
          { session.record (.asked call) with
            now, state := (service.reply call session.state).abandoned })) := by
  rcases elapse_passes (service.reply call session.state).delay (session.record (.asked call)) with
    ⟨now, hafter, hle, hlimit⟩
  refine ⟨now, hle, hlimit, ?_⟩
  rcases hdone : elapse (service.reply call session.state).delay (session.record (.asked call)) with
    ⟨_ | _, after⟩
  · rw [hdone] at hafter
    simp only at hafter
    exact Or.inr (by simp only [ask, hdone]; rw [hafter])
  · rw [hdone] at hafter
    simp only at hafter
    exact Or.inl (by simp only [ask, hdone]; rw [hafter])

/-- A pause only lets time pass. -/
theorem pause_passes (span : Span) (session : Session σ) :
    ∃ now, (pause span session).2 = { session with now } ∧ session.now ≤ now := by
  -- Unless a cancellation comes in time, only time passes.
  have hslept : ∃ now, ((elapse (some span)).andThen (fun _ session => (some false, session))
      session).2 = { session with now } ∧ session.now ≤ now := by
    rcases elapse_passes (some span) session with ⟨now, hafter, hle, _⟩
    refine ⟨now, ?_, hle⟩
    rcases hdone : elapse (some span) session with ⟨_ | _, after⟩
    · rw [hdone] at hafter
      simp only [Action.andThen, hdone, hafter]
    · rw [hdone] at hafter
      simp only [Action.andThen, hdone, hafter]
  unfold pause
  split
  · exact hslept
  · next moment _ =>
    by_cases hsoon : moment ≤ session.now + span.nanos
    · rw [if_pos hsoon]
      exact ⟨max session.now moment, rfl, Nat.le_max_left _ _⟩
    · rw [if_neg hsoon]
      exact hslept

/-- Without a limit a pause ends with the cancellation, if that comes in time, or
    else when it is over. -/
theorem pause_cases (span : Span) {session : Session σ} (hlimit : session.deadline = none) :
    (∃ moment, session.cancelAt = some moment ∧ moment ≤ session.now + span.nanos ∧
      pause span session = (some true, { session with now := max session.now moment })) ∨
    ((∀ moment, session.cancelAt = some moment → session.now + span.nanos < moment) ∧
      pause span session = (some false, { session with now := session.now + span.nanos })) := by
  have hslept : (elapse (some span)).andThen (fun _ session => (some false, session)) session =
      (some false, { session with now := session.now + span.nanos }) := by
    simp only [Action.andThen, elapse, hlimit]
  unfold pause
  split
  · next hnone =>
    refine Or.inr ⟨fun moment hmoment => ?_, hslept⟩
    rw [hnone] at hmoment
    exact absurd hmoment (by simp only [reduceCtorEq, not_false_eq_true])
  · next moment hmoment =>
    by_cases hsoon : moment ≤ session.now + span.nanos
    · rw [if_pos hsoon]
      exact Or.inl ⟨moment, hmoment, hsoon, rfl⟩
    · rw [if_neg hsoon]
      refine Or.inr ⟨fun other hother => ?_, hslept⟩
      rw [hmoment, Option.some.injEq] at hother
      rw [← hother]
      exact Nat.lt_of_not_le hsoon

/-- Waiting without end only lets time pass, and has no result. -/
theorem wait_passes {α : Type} (service : Service σ) (tree : FileTree) (rounds : Nat)
    (session : Session σ) :
    ∃ now, ((host service tree rounds).wait : Action σ α) session = (none, { session with now }) ∧
      session.now ≤ now ∧
      ∀ limit, session.deadline = some limit → session.now ≤ limit → now ≤ limit := by
  rcases elapse_passes none session with ⟨now, hafter, hle, hlimit⟩
  refine ⟨now, ?_, hle, hlimit⟩
  rw [← hafter]
  rcases hdone : elapse none session with ⟨_ | _, after⟩
  · simp only [host, Action.andThen, hdone]
  · simp only [host, Action.andThen, hdone]

/-- Waiting without end does not come to its end. -/
theorem wait_ne_some {α : Type} (service : Service σ) (tree : FileTree) (rounds : Nat)
    (session next : Session σ) (a : α) :
    ((host service tree rounds).wait : Action σ α) session ≠ (some a, next) := by
  intro hended
  rcases wait_passes service tree rounds session with ⟨now, hstuck, _⟩
  rw [hstuck, Prod.mk.injEq] at hended
  exact absurd hended.1 (by simp only [reduceCtorEq, not_false_eq_true])

/-- An answer that has come is the one of the service in the state in which it
    was asked, and leaves the state that the service says. -/
theorem eq_of_ask {service : Service σ} {call : Call} {session final : Session σ}
    {answer : Except ServiceError call.Answer}
    (h : ask service call session = (some answer, final)) :
    (service.reply call session.state).answer = answer ∧
      (service.reply call session.state).settled = final.state := by
  rcases ask_cases service call session with ⟨now, _, _, hasked | hasked⟩
  · rw [hasked, Prod.mk.injEq, Option.some.injEq] at h
    rw [← h.2]
    exact ⟨h.1, rfl⟩
  · rw [hasked, Prod.mk.injEq] at h
    exact absurd h.1 (by simp only [reduceCtorEq, not_false_eq_true])

/-- Without a limit an answer that comes at all comes when it is due. -/
theorem ask_of_delay {service : Service σ} {call : Call} {session : Session σ} {span : Span}
    (hlimit : session.deadline = none)
    (hdelay : (service.reply call session.state).delay = some span) :
    ask service call session = (some (service.reply call session.state).answer,
      settle (service.reply call session.state)
        { session.record (.asked call) with now := session.now + span.nanos }) := by
  have helapse : elapse (service.reply call session.state).delay (session.record (.asked call)) =
      (some (), { session.record (.asked call) with now := session.now + span.nanos }) := by
    rw [hdelay]
    simp only [elapse, record, hlimit]
  simp only [ask, helapse]

end Session

end BatchRun
