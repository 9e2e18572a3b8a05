import BatchRun.Proofs.Session.Action

/-!
# Limited Actions

What is done within a limit, whatever the services do and whoever cancels.

An action is punctual if it is over when a limit is reached that was set before
it, and heedless if it does the same whether or not the run is cancelled. It is
steady if it is both. Calls and waiting are, and so is all that is put together
of them, while a pause is not heedless. A steady action within a limit of its own
comes to its end by then in any session.

## Main definitions

* `Action.Punctual`, `Action.Heedless`, `Action.Steady`: Actions that keep to a
  limit, that take no notice of a cancellation, and both.
* `Action.Limited`: A heedless action that comes to its end in time.

## Theorems

* `Action.steady_ask`, `Action.steady_wait`, `Action.steady_bind`: What is steady.
* `Action.limited_within`: What is done within a limit.
* `Action.limited_bind`: One limited action after the other.
-/

namespace BatchRun

namespace Action

variable {σ α β : Type}

/-- An action that keeps a limit and is over when it is reached. -/
def Punctual (action : Action σ α) : Prop :=
  ∀ session limit, session.deadline = some limit → session.now ≤ limit →
    (action session).2.deadline = some limit ∧ (action session).2.now ≤ limit

/-- An action that does the same whenever the run is cancelled. -/
def Heedless (action : Action σ α) : Prop :=
  ∀ session cancelAt, ∃ after, action { session with cancelAt } =
    ((action session).1, { (action session).2 with cancelAt := after })

/-- An action that keeps to limits and takes no notice of a cancellation. -/
structure Steady (action : Action σ α) : Prop where
  punctual : action.Punctual
  heedless : action.Heedless

/-- A heedless action that comes to its end within a time. -/
structure Limited (action : Action σ Unit) (time : Nat) : Prop where
  arrives : ∀ session, ∃ next, action session = (some (), next) ∧
    next.now ≤ session.now + time
  heedless : action.Heedless

theorem punctual_pure (a : α) : Punctual (pure a : Action σ α) :=
  fun _ _ hlimit hnow => ⟨hlimit, hnow⟩

theorem punctual_bind {action : Action σ α} {next : α → Action σ β} (h : action.Punctual)
    (hnext : ∀ a, (next a).Punctual) : (action >>= next).Punctual := by
  intro session limit hlimit hnow
  have hmiddle := h session limit hlimit hnow
  rcases hfirst : action session with ⟨_ | a, middle⟩
  · rw [hfirst] at hmiddle
    rw [bind_of_none hfirst]
    exact hmiddle
  · rw [hfirst] at hmiddle
    rw [bind_of_some hfirst]
    exact hnext a middle limit hmiddle.1 hmiddle.2

theorem punctual_ask (service : Service σ) (call : Call) :
    Punctual (Session.ask service call) := by
  intro session limit hlimit hnow
  rcases Session.ask_cases service call session with ⟨now, _, hpast, hasked | hasked⟩
  · rw [hasked]
    exact ⟨hlimit, hpast limit hlimit hnow⟩
  · rw [hasked]
    exact ⟨hlimit, hpast limit hlimit hnow⟩

theorem punctual_wait (service : Service σ) (tree : FileTree) (rounds : Nat) :
    Punctual ((Session.host service tree rounds).wait : Action σ α) := by
  intro session limit hlimit hnow
  rcases Session.wait_passes service tree rounds session with ⟨now, hstuck, _, hpast⟩
  rw [hstuck]
  exact ⟨hlimit, hpast limit hlimit hnow⟩

theorem heedless_pure (a : α) : Heedless (pure a : Action σ α) :=
  fun _ cancelAt => ⟨cancelAt, rfl⟩

theorem heedless_bind {action : Action σ α} {next : α → Action σ β} (h : action.Heedless)
    (hnext : ∀ a, (next a).Heedless) : (action >>= next).Heedless := by
  intro session cancelAt
  rcases h session cancelAt with ⟨between, hother⟩
  rcases hfirst : action session with ⟨_ | a, middle⟩
  · rw [hfirst] at hother
    rw [bind_of_none hfirst, bind_of_none hother]
    exact ⟨between, rfl⟩
  · rw [hfirst] at hother
    rw [bind_of_some hfirst, bind_of_some hother]
    exact hnext a middle between

/-- Time passes whatever the moment of a cancellation is. -/
theorem elapse_heedless (span : Option Span) (session : Session σ) (cancelAt : Option Nat) :
    Session.elapse span { session with cancelAt } =
      ((Session.elapse span session).1, { (Session.elapse span session).2 with cancelAt }) := by
  cases span with
  | none =>
      simp only [Session.elapse]
      split
      · rfl
      · rfl
  | some span =>
      simp only [Session.elapse]
      split
      · rfl
      · split
        · rfl
        · rfl

/-- A call takes as long and is answered alike. Only whether its answer comes
    before a cancellation may differ. -/
theorem heedless_ask (service : Service σ) (call : Call) :
    Heedless (Session.ask service call) := by
  intro session cancelAt
  have hother : Session.elapse (service.reply call session.state).delay
      (Session.record { session with cancelAt } (.asked call)) = _ :=
    elapse_heedless (service.reply call session.state).delay (session.record (.asked call)) cancelAt
  rcases hdone : Session.elapse (service.reply call session.state).delay
    (session.record (.asked call)) with ⟨_ | done, middle⟩
  · rw [hdone] at hother
    refine ⟨cancelAt, ?_⟩
    simp only [Session.ask, hdone, hother]
  · rw [hdone] at hother
    refine ⟨(Session.settle (service.reply call session.state)
      { middle with cancelAt }).cancelAt, ?_⟩
    simp only [Session.ask, hdone, hother, Session.settle]

theorem heedless_wait (service : Service σ) (tree : FileTree) (rounds : Nat) :
    Heedless ((Session.host service tree rounds).wait : Action σ α) := by
  intro session cancelAt
  have hother := elapse_heedless none session cancelAt
  refine ⟨cancelAt, ?_⟩
  rcases hdone : Session.elapse none session with ⟨_ | done, middle⟩
  · rw [hdone] at hother
    simp only [Session.host, andThen, hdone, hother]
  · rw [hdone] at hother
    simp only [Session.host, andThen, hdone, hother]

theorem steady_pure (a : α) : Steady (pure a : Action σ α) :=
  ⟨punctual_pure a, heedless_pure a⟩

theorem steady_bind {action : Action σ α} {next : α → Action σ β} (h : action.Steady)
    (hnext : ∀ a, (next a).Steady) : (action >>= next).Steady :=
  ⟨punctual_bind h.punctual fun a => (hnext a).punctual,
    heedless_bind h.heedless fun a => (hnext a).heedless⟩

theorem steady_ask (service : Service σ) (call : Call) : Steady (Session.ask service call) :=
  ⟨punctual_ask service call, heedless_ask service call⟩

theorem steady_wait (service : Service σ) (tree : FileTree) (rounds : Nat) :
    Steady ((Session.host service tree rounds).wait : Action σ α) :=
  ⟨punctual_wait service tree rounds, heedless_wait service tree rounds⟩

theorem heedless_note (event : Event) : Heedless (Session.note event : Action σ Unit) :=
  fun _ cancelAt => ⟨cancelAt, rfl⟩

theorem heedless_within {action : Action σ Unit} (h : action.Heedless) (limit : Span) :
    Heedless (Session.within limit action) := by
  intro session cancelAt
  rcases h { session with deadline := some (session.now + limit.nanos) } cancelAt with
    ⟨after, hother⟩
  refine ⟨after, ?_⟩
  simp only [Session.within, hother]

theorem limited_pure (time : Nat) : Limited (pure () : Action σ Unit) time :=
  ⟨fun session => ⟨session, rfl, Nat.le_add_right _ _⟩, heedless_pure ()⟩

theorem Limited.mono {action : Action σ Unit} {time more : Nat} (h : action.Limited time)
    (hle : time ≤ more) : action.Limited more := by
  refine ⟨fun session => ?_, h.heedless⟩
  rcases h.arrives session with ⟨next, hrun, hnext⟩
  exact ⟨next, hrun, Nat.le_trans hnext (Nat.add_le_add_left hle _)⟩

theorem limited_bind {first second : Action σ Unit} {time more : Nat} (hfirst : first.Limited time)
    (hsecond : second.Limited more) : (first >>= fun _ => second).Limited (time + more) := by
  refine ⟨fun session => ?_, heedless_bind hfirst.heedless fun _ => hsecond.heedless⟩
  rcases hfirst.arrives session with ⟨middle, hrun, hmiddle⟩
  rcases hsecond.arrives middle with ⟨next, hrest, hnext⟩
  refine ⟨next, by rw [bind_of_some hrun, hrest], ?_⟩
  omega

/-- What is done within a limit is over by then, be there a warning or not. -/
theorem limited_within (service : Service σ) (tree : FileTree) (rounds : Nat)
    {action : Action σ Unit} (h : action.Steady) (limit : Span) (warning : Warning) :
    Limited (do
      let done ← (Session.host service tree rounds).within limit action
      if !done then (Session.host service tree rounds).warn warning) limit.nanos := by
  refine ⟨fun session => ?_, heedless_bind (heedless_within h.heedless limit) fun done => ?_⟩
  · have hover := (h.punctual { session with deadline := some (session.now + limit.nanos) }
      (session.now + limit.nanos) rfl (Nat.le_add_right _ _)).2
    rcases hrun : action { session with deadline := some (session.now + limit.nanos) } with
      ⟨done, after⟩
    rw [hrun] at hover
    have hwithin : (Session.host service tree rounds).within limit action session =
        (some done.isSome, { after with deadline := session.deadline }) := by
      simp only [Session.host, Session.within, hrun]
    rw [bind_of_some hwithin]
    -- The limit ends with the action, and a warning takes no time.
    cases done with
    | none => exact ⟨_, rfl, hover⟩
    | some done => exact ⟨_, rfl, hover⟩
  · cases done with
    | true => exact heedless_pure ()
    | false => exact heedless_note (.warned warning)

end Action

end BatchRun
