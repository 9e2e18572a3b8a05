import BatchRun.Proofs.Session.Dialogue

/-!
# Sessions Abreast

Two runs that cannot be told from each other.

Two services agree on a sequence of calls if they answer each of them alike, at
the same time, whatever their states are. Sessions with such services stay
abreast as long as the run makes those calls and is cancelled in both at the same
time, or in neither. What the services do with later calls, and when a run is
cancelled later on, makes no difference to what has happened by then.

## Main definitions

* `Service.AgreeOn`: Two services answer some calls alike.
* `Session.Abreast`: Two sessions are equally far.
* `KeepAbreast`: Two actions keep sessions abreast.

## Theorems

* `keepAbreast_ask`, `keepAbreast_pause`: Calls and pauses do.
* `Alike.keepAbreast`: So do all actions that are alike.
-/

namespace BatchRun

variable {σ τ : Type}

/-- Two services answer some calls alike and at the same time. -/
def Service.AgreeOn (first : Service σ) (second : Service τ) : List Call → σ → τ → Prop
  | [], _, _ => True
  | call :: rest, state, other =>
    (first.reply call state).delay = (second.reply call other).delay ∧
    (first.reply call state).answer = (second.reply call other).answer ∧
    (first.reply call state).cancels = (second.reply call other).cancels ∧
    AgreeOn first second rest (first.reply call state).settled (second.reply call other).settled

/-- Two sessions without a limit are equally far, and their cancellations up to
    some moment are the same. -/
structure Session.Abreast (horizon : Nat) (session : Session σ) (other : Session τ) : Prop where
  now : session.now = other.now
  deadline : session.deadline = none
  otherDeadline : other.deadline = none
  cancelAt : ∀ moment ≤ horizon, session.cancelAt = some moment ↔ other.cancelAt = some moment

theorem Session.earlier_of_ahead {cancelAt : Option Nat} {now : Nat}
    (h : ∀ moment ≤ now, cancelAt ≠ some moment) : earlier cancelAt now = now := by
  cases cancelAt with
  | none => rfl
  | some moment => exact Nat.min_eq_right (Nat.le_of_not_le fun hle => h moment hle rfl)

/-- The earlier of now and a cancellation does not depend on what lies ahead. -/
theorem Session.earlier_eq {horizon now : Nat} (hnow : now ≤ horizon)
    {cancelAt other : Option Nat}
    (h : ∀ moment ≤ horizon, cancelAt = some moment ↔ other = some moment) :
    earlier cancelAt now = earlier other now := by
  by_cases hpast : ∃ moment ≤ now, cancelAt = some moment
  · rcases hpast with ⟨moment, hle, hsome⟩
    rw [hsome, (h moment (Nat.le_trans hle hnow)).mp hsome]
  · have hahead : ∀ moment ≤ now, cancelAt ≠ some moment :=
      fun moment hle hsome => hpast ⟨moment, hle, hsome⟩
    rw [earlier_of_ahead hahead, earlier_of_ahead fun moment hle hsome =>
      hahead moment hle ((h moment (Nat.le_trans hle hnow)).mpr hsome)]

/-- An answer that cancels a run in both sessions or in neither leaves them
    abreast. -/
theorem Session.Abreast.settle {horizon : Nat} {session : Session σ} {other : Session τ}
    (h : session.Abreast horizon other) (hnow : session.now ≤ horizon) {call : Call}
    {reply : Reply σ call} {reply' : Reply τ call} (hcancels : reply.cancels = reply'.cancels) :
    (Session.settle reply session).Abreast horizon (Session.settle reply' other) := by
  refine ⟨h.now, h.deadline, h.otherDeadline, fun moment hmoment => ?_⟩
  simp only [Session.settle, ← hcancels, ← h.now]
  split
  · rw [Session.earlier_eq hnow h.cancelAt]
  · exact h.cancelAt moment hmoment

variable {α : Type} {first : Service σ} {second : Service τ} {P : Call → Prop} {R : α → Prop}

/-- Two actions keep sessions abreast up to some moment: where the first comes to
    its end by then, so does the second, if the services agree on the calls that
    are made. On any further calls they agree as much as before. -/
def KeepAbreast (first : Service σ) (second : Service τ) (horizon : Nat) (a : Action σ α)
    (b : Action τ α) : Prop :=
  ∀ session next x, a session = (some x, next) → next.now ≤ horizon →
    ∃ made, next.calls = session.calls ++ made ∧ ∀ (other : Session τ) rest,
      session.Abreast horizon other →
      first.AgreeOn second (made ++ rest) session.state other.state →
      ∃ after, b other = (some x, after) ∧ next.Abreast horizon after ∧
        first.AgreeOn second rest next.state after.state

theorem keepAbreast_ask (call : Call) (horizon : Nat) :
    KeepAbreast first second horizon (Session.ask first call) (Session.ask second call) := by
  intro session next answer hrun hnow
  have hcalls := Session.calls_ask first call session
  rw [hrun] at hcalls
  refine ⟨[call], hcalls, fun other rest habreast hagree => ?_⟩
  rcases hagree with ⟨hdelay, hanswer, hcancels, hrest⟩
  cases hspan : (first.reply call session.state).delay with
  | none =>
      -- Without an answer and without a limit the call never comes to its end.
      simp only [Session.ask, hspan, Session.elapse, Session.record, habreast.deadline,
        Prod.mk.injEq, reduceCtorEq, false_and] at hrun
  | some span =>
      rw [Session.ask_of_delay habreast.deadline hspan, Prod.mk.injEq, Option.some.injEq] at hrun
      rw [← hrun.2] at hnow ⊢
      have hother := Session.ask_of_delay habreast.otherDeadline (hdelay.symm.trans hspan)
      rw [← hanswer, hrun.1] at hother
      have hwaited : Session.Abreast horizon
          { session.record (.asked call) with now := session.now + span.nanos }
          { other.record (.asked call) with now := other.now + span.nanos } :=
        ⟨by rw [habreast.now], habreast.deadline, habreast.otherDeadline, habreast.cancelAt⟩
      exact ⟨_, hother, hwaited.settle hnow hcancels, hrest⟩

theorem keepAbreast_pause (span : Span) (horizon : Nat) :
    KeepAbreast first second horizon (Session.pause span) (Session.pause span) := by
  intro session next cancelled hrun hnow
  have hcalls := Session.calls_pause span session
  rw [hrun, ← List.append_nil session.calls] at hcalls
  refine ⟨[], hcalls, fun other rest habreast hagree => ?_⟩
  rcases Session.pause_cases span habreast.deadline with ⟨moment, hmoment, hsoon, hpause⟩ |
    ⟨hahead, hpause⟩
  · -- The cancellation is not ahead of where the pause ends, so it comes in both.
    rw [hpause, Prod.mk.injEq] at hrun
    rw [← hrun.2] at hnow ⊢
    have hle : moment ≤ horizon := Nat.le_trans (Nat.le_max_right _ _) hnow
    rcases Session.pause_cases span habreast.otherDeadline with ⟨same, hsame, _, hother⟩ |
      ⟨hlater, _⟩
    · rw [(habreast.cancelAt moment hle).mp hmoment, Option.some.injEq] at hsame
      rw [← hsame, ← habreast.now, hrun.1] at hother
      exact ⟨_, hother,
        ⟨rfl, habreast.deadline, habreast.otherDeadline, habreast.cancelAt⟩, hagree⟩
    · have hlate := hlater moment ((habreast.cancelAt moment hle).mp hmoment)
      rw [← habreast.now] at hlate
      exact absurd hsoon (Nat.not_le_of_lt hlate)
  · rw [hpause, Prod.mk.injEq] at hrun
    rw [← hrun.2] at hnow ⊢
    -- Nor can a cancellation end the other pause, since it would have come in both.
    rcases Session.pause_cases span habreast.otherDeadline with ⟨moment, hmoment, hsoon, _⟩ |
      ⟨_, hother⟩
    · rw [← habreast.now] at hsoon
      have hlate := hahead moment
        ((habreast.cancelAt moment (Nat.le_trans hsoon hnow)).mpr hmoment)
      exact absurd hsoon (Nat.not_le_of_lt hlate)
    · rw [← habreast.now, hrun.1] at hother
      exact ⟨_, hother,
        ⟨rfl, habreast.deadline, habreast.otherDeadline, habreast.cancelAt⟩, hagree⟩

/-- Alike actions keep sessions abreast. -/
theorem Alike.keepAbreast {a : Action σ α} {b : Action τ α} (h : Alike first second P R a b)
    (horizon : Nat) : KeepAbreast first second horizon a b := by
  induction h with
  | pure a _ =>
      intro session next x hrun _
      rcases Action.eq_of_pure hrun with ⟨rfl, rfl⟩
      exact ⟨[], by rw [List.append_nil], fun other rest habreast hagree =>
        ⟨other, rfl, habreast, hagree⟩⟩
  | bind h hnext ih ihnext =>
      intro session next x hrun hnow
      -- The whole ends by the horizon, and time does not go back, so the first part does as well.
      rcases Action.eq_of_bind hrun with ⟨y, middle, hfirst, hrest⟩
      have hmiddle := (hnext y (h.result hfirst)).now_le middle
      rw [hrest] at hmiddle
      rcases ih session middle y hfirst (Nat.le_trans hmiddle hnow) with ⟨front, hfront, hkeep⟩
      rcases ihnext y (h.result hfirst) middle next x hrest hnow with ⟨back, hback, hkeep'⟩
      refine ⟨front ++ back, by rw [hback, hfront, List.append_assoc], ?_⟩
      intro other rest habreast hagree
      rw [List.append_assoc] at hagree
      rcases hkeep other (back ++ rest) habreast hagree with ⟨between, hb, habreast', hagree'⟩
      rcases hkeep' between rest habreast' hagree' with ⟨after, hafter, habreast'', hagree''⟩
      exact ⟨after, by rw [Action.bind_of_some hb, hafter], habreast'', hagree''⟩
  | ask call _ => exact keepAbreast_ask call horizon
  | pause span => exact keepAbreast_pause span horizon
  | say event h =>
      intro session next x hrun _
      change (some (), session.record event) = _ at hrun
      rw [Prod.mk.injEq] at hrun
      rw [← hrun.2, ← hrun.1]
      refine ⟨[], by rw [Session.calls_record h, List.append_nil], ?_⟩
      intro other rest habreast hagree
      exact ⟨other.record event, rfl,
        ⟨habreast.now, habreast.deadline, habreast.otherDeadline, habreast.cancelAt⟩, hagree⟩
  | wait tree limit =>
      intro session next x hrun _
      exact absurd hrun (Session.wait_ne_some first tree limit session next x)

end BatchRun
