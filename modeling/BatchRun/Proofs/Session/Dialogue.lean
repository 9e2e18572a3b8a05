import BatchRun.Proofs.Session.Alike

/-!
# Dialogues

What a run and a service say to each other.

Each call of a run has an answer, unless it was broken off or never answered. The
answers are those of the service, in the state to which the calls before have
brought it. An action talks in a certain way if, wherever it starts, the calls it
adds to the session are those of a dialogue of that kind. Which kind may depend
on its result, or on its having none.

## Main definitions

* `Exchange`: A call with its answer.
* `Dialogue`: Exchanges that lead a service from one state to another.
* `Action.Talks`: The kind of dialogue that an action has.

## Theorems

* `Session.calls_ask`, `Session.calls_pause`: Which calls are on record.
* `Action.talks_bind`, `Action.talks_map`: One dialogue behind the other, and a
  result in another form.
* `Action.talks_ask`, `Action.talks_limited`: Calls, and what is done within a
  limit.
* `Alike.talks`: Alike actions only make calls that they may make.
-/

namespace BatchRun

/-- A call and its answer, if that was received. -/
structure Exchange where
  call : Call
  answer : Option (Except ServiceError call.Answer)

/-- Exchanges that lead a service from one state to another. -/
inductive Dialogue {σ : Type} (service : Service σ) : σ → List Exchange → σ → Prop
  | done (state : σ) : Dialogue service state [] state
  | answered {state final : σ} {rest : List Exchange} (call : Call)
      (h : Dialogue service (service.reply call state).settled rest final) :
      Dialogue service state (⟨call, some (service.reply call state).answer⟩ :: rest) final
  | brokenOff {state final : σ} {rest : List Exchange} (call : Call)
      (h : Dialogue service (service.reply call state).abandoned rest final) :
      Dialogue service state (⟨call, none⟩ :: rest) final

/-- Without an exchange nothing changes. -/
theorem Dialogue.of_nil {σ : Type} {service : Service σ} {state final : σ}
    (h : Dialogue service state [] final) : final = state := by
  cases h with
  | done => rfl

/-- What the first answer of a dialogue is, and where it goes on. -/
theorem Dialogue.of_cons {σ : Type} {service : Service σ} {state final : σ} {call : Call}
    {answer : Except ServiceError call.Answer} {rest : List Exchange}
    (h : Dialogue service state (⟨call, some answer⟩ :: rest) final) :
    (service.reply call state).answer = answer ∧
      Dialogue service (service.reply call state).settled rest final := by
  cases h with
  | answered _ h => exact ⟨rfl, h⟩

theorem Dialogue.append {σ : Type} {service : Service σ} {state middle final : σ}
    {front back : List Exchange} (hfront : Dialogue service state front middle)
    (hback : Dialogue service middle back final) :
    Dialogue service state (front ++ back) final := by
  induction hfront with
  | done => exact hback
  | answered call _ ih => exact .answered call (ih hback)
  | brokenOff call _ ih => exact .brokenOff call (ih hback)

namespace Session

variable {σ : Type}

theorem calls_record_asked (session : Session σ) (call : Call) :
    (session.record (.asked call)).calls = session.calls ++ [call] := by
  simp only [calls, record, List.filterMap_append, List.filterMap_cons, List.filterMap_nil]

theorem calls_record {event : Event} (h : ∀ call, event ≠ .asked call) (session : Session σ) :
    (session.record event).calls = session.calls := by
  cases event with
  | asked call => exact absurd rfl (h call)
  | line text => simp only [calls, record, List.filterMap_append, List.filterMap_cons,
      List.filterMap_nil, List.append_nil]
  | warned warning => simp only [calls, record, List.filterMap_append, List.filterMap_cons,
      List.filterMap_nil, List.append_nil]

/-- A call is on record whether it is answered or not. -/
theorem calls_ask (service : Service σ) (call : Call) (session : Session σ) :
    (ask service call session).2.calls = session.calls ++ [call] := by
  rcases ask_cases service call session with ⟨now, _, _, hasked | hasked⟩
  · rw [hasked]
    exact calls_record_asked session call
  · rw [hasked]
    exact calls_record_asked session call

theorem calls_pause (span : Span) (session : Session σ) :
    (pause span session).2.calls = session.calls := by
  rcases pause_passes span session with ⟨now, hafter, _⟩
  rw [hafter]
  rfl

end Session

namespace Action

variable {σ α β : Type} {service : Service σ}

/-- The dialogue that an action has is of a kind that may depend on its
    result. -/
def Talks (service : Service σ) (action : Action σ α)
    (kind : Option α → List Exchange → Prop) : Prop :=
  ∀ session, ∃ talk, (action session).2.calls = session.calls ++ talk.map (·.call) ∧
    Dialogue service session.state talk (action session).2.state ∧ kind (action session).1 talk

theorem Talks.mono {action : Action σ α} {kind other : Option α → List Exchange → Prop}
    (h : Talks service action kind) (hkind : ∀ result talk, kind result talk → other result talk) :
    Talks service action other := by
  intro session
  rcases h session with ⟨talk, hcalls, hdialogue, htalk⟩
  exact ⟨talk, hcalls, hdialogue, hkind _ _ htalk⟩

/-- An action that leaves calls and state as they are. -/
theorem talks_silently {action : Action σ α} {kind : Option α → List Exchange → Prop}
    (hcalls : ∀ session, (action session).2.calls = session.calls)
    (hstate : ∀ session, (action session).2.state = session.state)
    (hkind : ∀ session, kind (action session).1 []) : Talks service action kind := by
  intro session
  refine ⟨[], ?_, ?_, hkind session⟩
  · rw [hcalls session, List.map_nil, List.append_nil]
  · rw [hstate session]
    exact .done _

theorem talks_pure {kind : Option α → List Exchange → Prop} {a : α} (h : kind (some a) []) :
    Talks service (pure a) kind :=
  talks_silently (fun _ => rfl) (fun _ => rfl) fun _ => h

/-- One dialogue behind the other, of a kind that the first result decides. -/
theorem talks_bind {action : Action σ α} {next : α → Action σ β}
    {first : Option α → List Exchange → Prop} {kind : Option β → List Exchange → Prop}
    (h : Talks service action first) (hstuck : ∀ talk, first none talk → kind none talk)
    (hnext : ∀ a front, first (some a) front →
      Talks service (next a) fun result back => kind result (front ++ back)) :
    Talks service (action >>= next) kind := by
  intro session
  rcases h session with ⟨front, hcalls, hdialogue, hfront⟩
  rcases hrun : action session with ⟨_ | a, middle⟩
  · rw [hrun] at hcalls hdialogue hfront
    rw [bind_of_none hrun]
    exact ⟨front, hcalls, hdialogue, hstuck _ hfront⟩
  · rw [hrun] at hcalls hdialogue hfront
    rcases hnext a front hfront middle with ⟨back, hmore, hrest, hback⟩
    rw [bind_of_some hrun]
    refine ⟨front ++ back, ?_, hdialogue.append hrest, hback⟩
    rw [hmore, hcalls, List.map_append, List.append_assoc]

/-- A call is one exchange. -/
theorem talks_ask (call : Call) :
    Talks service (Session.ask service call) fun result talk => talk = [⟨call, result⟩] := by
  intro session
  refine ⟨[⟨call, _⟩], Session.calls_ask service call session, ?_, rfl⟩
  rcases Session.ask_cases service call session with ⟨now, _, _, hasked | hasked⟩
  · rw [hasked]
    exact .answered call (.done _)
  · rw [hasked]
    exact .brokenOff call (.done _)

theorem talks_warn (tree : FileTree) (limit : Nat) (warning : Warning) :
    Talks service ((Session.host service tree limit).warn warning)
      fun result talk => talk = [] ∧ result = some () :=
  talks_silently (Session.calls_record fun _ => by simp only [ne_eq, reduceCtorEq,
    not_false_eq_true]) (fun _ => rfl) fun _ => ⟨rfl, rfl⟩

/-- What is done within a limit, with a warning if it took too long, comes to an
    end in any case. -/
theorem talks_limited (tree : FileTree) (rounds : Nat) {action : Action σ Unit}
    {kind : List Exchange → Prop} (h : Talks service action fun _ talk => kind talk) (limit : Span)
    (warning : Warning) :
    Talks service (do
      let done ← (Session.host service tree rounds).within limit action
      if !done then (Session.host service tree rounds).warn warning)
      fun result talk => kind talk ∧ result = some () := by
  -- The limit is part of the session only as long as the action lasts.
  have hwithin : Talks service (Session.within limit action) fun result talk =>
      kind talk ∧ result ≠ none := by
    intro session
    rcases h { session with deadline := some (session.now + limit.nanos) } with
      ⟨talk, hcalls, hdialogue, htalk⟩
    exact ⟨talk, hcalls, hdialogue, htalk, by simp only [Session.within, ne_eq, reduceCtorEq,
      not_false_eq_true]⟩
  refine talks_bind hwithin (fun _ htalk => absurd rfl htalk.2) fun done front hfront => ?_
  cases done with
  | true =>
      refine talks_pure ?_
      rw [List.append_nil]
      exact ⟨hfront.1, rfl⟩
  | false =>
      refine (talks_warn tree rounds warning).mono ?_
      rintro result talk ⟨rfl, rfl⟩
      rw [List.append_nil]
      exact ⟨hfront.1, rfl⟩

end Action

/-- Alike actions only make calls that they may make. -/
theorem Alike.talks {σ τ α : Type} {first : Service σ} {second : Service τ} {P : Call → Prop}
    {R : α → Prop} {a : Action σ α} {b : Action τ α} (h : Alike first second P R a b) :
    Action.Talks first a fun result talk =>
      (∀ exchange ∈ talk, P exchange.call) ∧ ∀ x, result = some x → R x := by
  have hnone : ∀ exchange ∈ ([] : List Exchange), P exchange.call :=
    fun _ hno => absurd hno List.not_mem_nil
  induction h with
  | pure a h =>
      refine Action.talks_pure ⟨hnone, fun x hx => ?_⟩
      rw [Option.some.injEq] at hx
      rwa [← hx]
  | bind _ _ ih ihnext =>
      -- The second part is alike for every result that the first may come to.
      refine Action.talks_bind ih (fun talk htalk => ⟨htalk.1, fun _ hno => ?_⟩)
        fun x front hfront => ?_
      · exact absurd hno (by simp only [reduceCtorEq, not_false_eq_true])
      refine (ihnext x (hfront.2 x rfl)).mono fun result back hback => ⟨fun exchange hmem => ?_,
        hback.2⟩
      rcases List.mem_append.mp hmem with hmem | hmem
      · exact hfront.1 exchange hmem
      · exact hback.1 exchange hmem
  | ask call h =>
      refine (Action.talks_ask call).mono fun result talk htalk =>
        ⟨fun exchange hexchange => ?_, fun _ _ => trivial⟩
      rw [htalk, List.mem_singleton] at hexchange
      rw [hexchange]
      exact h
  | pause span =>
      refine Action.talks_silently (Session.calls_pause span) (fun session => ?_)
        fun _ => ⟨hnone, fun _ _ => trivial⟩
      rcases Session.pause_passes span session with ⟨now, hafter, _⟩
      rw [hafter]
  | say event h =>
      exact Action.talks_silently (Session.calls_record h) (fun _ => rfl)
        fun _ => ⟨hnone, fun _ _ => trivial⟩
  | wait tree limit =>
      refine Action.talks_silently (fun session => ?_) (fun session => ?_)
        fun session => ⟨hnone, fun _ hno => ?_⟩
      · rcases Session.wait_passes first tree limit session with ⟨now, hstuck, _⟩
        rw [hstuck]
        rfl
      · rcases Session.wait_passes first tree limit session with ⟨now, hstuck, _⟩
        rw [hstuck]
      · rcases Session.wait_passes first tree limit session with ⟨now, hstuck, _⟩
        rw [hstuck] at hno
        exact absurd hno (by simp only [reduceCtorEq, not_false_eq_true])

end BatchRun
