import BatchRun.Proofs.Supervision.Turn

/-!
# Turns of Supervision

Supervision as a chain of turns.

Each turn begins in the session and with the watch that the one before has left. The
chain ends with a turn that decides the outcome, with a cancellation that a pause
notices, with a turn that does not come to its end, or because the rounds are used
up. What holds of a run is what holds of one turn, by induction on the chain. What
is carried into a turn depends on nothing but the answers that came before.

## Main definitions

* `Supervised`: The turns of a run, and how it ends.
* `answersOf`: The answers of some turns.
* `Turn.GoesOn`, `Concludes`: How a run ends after some turns.

## Theorems

* `supervised_of_supervise`: Every run without a limit is a chain of turns.
* `Supervised.onward`, `Supervised.pairwise_onward`, `Supervised.begun_eq`: The
  session goes on from turn to turn.
* `Supervised.polledAt_eq`, `Supervised.transcript_eq`: What is on record.
* `Supervised.first`, `Supervised.rest`: Taking a chain apart.
* `Supervised.foldl_eq`, `Supervised.foldl_result`: What is carried into a turn, and
  what is left behind.
* `Supervised.concludes`: How the run ends.
-/

namespace BatchRun

variable {σ κ : Type}

/-- The turns of a run that is followed for so many rounds at most, and how it
    ends: with all rounds used up, cancelled in a pause, with a turn that does not
    come to its end, or with one that decides the outcome. -/
inductive Supervised (service : Service σ) (read : Bool → κ → Action σ (List LogLine × κ))
    (handle : RunHandle) : Nat → Watch κ → Session σ → List (Turn σ κ) →
      Option (Outcome × Watch κ) → Session σ → Prop
  | spent (watch : Watch κ) (session : Session σ) :
      Supervised service read handle 0 watch session [] none session
  | cancelled {rounds : Nat} {watch : Watch κ} {session final : Session σ}
      (hpause : Session.pause watch.timer.wait session = (some true, final)) :
      Supervised service read handle (rounds + 1) watch session [] (some (.abandoned, watch)) final
  | stuck {rounds : Nat} {watch : Watch κ} {session : Session σ} {turn : Turn σ κ}
      (hturn : turn.Takes service read handle watch session) (hresult : turn.result = none) :
      Supervised service read handle (rounds + 1) watch session [turn] none turn.ended
  | decided {rounds : Nat} {watch : Watch κ} {session : Session σ} {turn : Turn σ κ}
      {outcome : Outcome} {after : Watch κ} (hturn : turn.Takes service read handle watch session)
      (hresult : turn.result = some (some outcome, after)) :
      Supervised service read handle (rounds + 1) watch session [turn] (some (outcome, after))
        turn.ended
  | more {rounds : Nat} {watch : Watch κ} {session : Session σ} {turn : Turn σ κ}
      {after : Watch κ} {rest : List (Turn σ κ)} {result : Option (Outcome × Watch κ)}
      {final : Session σ} (hturn : turn.Takes service read handle watch session)
      (hresult : turn.result = some (none, after))
      (hrest : Supervised service read handle rounds after turn.ended rest result final) :
      Supervised service read handle (rounds + 1) watch session (turn :: rest) result final

/-- The answers of some turns, in order. -/
def answersOf (turns : List (Turn σ κ)) : List (Except ServiceError AttemptPage) :=
  turns.filterMap (·.answer)

/-- A turn that came to its end and leaves the end of the run open. -/
structure Turn.GoesOn (turn : Turn σ κ) : Prop where
  goes : ∃ after, turn.result = some (none, after)
  leavesOpen : ∃ answer, turn.answer = some answer ∧ LeavesOpen answer

/-- How a run of so many rounds at most ends, after some turns. -/
inductive Concludes (runId : String) (rounds : Nat) (final : Session σ) :
    List (Turn σ κ) → Option Outcome → Prop
  | decided {front : List (Turn σ κ)} {last : Turn σ κ} {answer : Except ServiceError AttemptPage}
      {outcome : Outcome} (hfront : ∀ turn ∈ front, turn.GoesOn)
      (hanswer : last.answer = some answer) (hdecides : Decides runId answer outcome) :
      Concludes runId rounds final (front ++ [last]) (some outcome)
  | abandoned {turns : List (Turn σ κ)} (hturns : ∀ turn ∈ turns, turn.GoesOn)
      (hcancelled : final.IsCancelled) : Concludes runId rounds final turns (some .abandoned)
  | stuck {front : List (Turn σ κ)} {last : Turn σ κ} (hfront : ∀ turn ∈ front, turn.GoesOn)
      (hlast : last.result = none) : Concludes runId rounds final (front ++ [last]) none
  | spent {turns : List (Turn σ κ)} (hturns : ∀ turn ∈ turns, turn.GoesOn)
      (hrounds : turns.length = rounds) : Concludes runId rounds final turns none

variable {service : Service σ} {read : Bool → κ → Action σ (List LogLine × κ)}
  {handle : RunHandle}

/-- What is reported after some answers is the last state that was seen, if there is
    one. -/
theorem foldl_observed (seen : Option RunState) (answers : List (Except ServiceError AttemptPage)) :
    answers.foldl (fun seen answer => (observed [answer]).getLast?.or seen) seen =
      (observed answers).getLast?.or seen := by
  induction answers generalizing seen with
  | nil => rfl
  | cons answer rest ih =>
      have hfirst : observed (answer :: rest) = observed [answer] ++ observed rest :=
        observed_append [answer] rest
      rw [List.foldl_cons, ih, hfirst, List.getLast?_append, Option.or_assoc]

/-- Every run without a limit is a chain of turns. -/
theorem supervised_of_supervise (service : Service σ) (handle : RunHandle)
    (hread : ∀ flush logs, (read flush logs).Discreet) (tree : FileTree)
    (limit rounds : Nat) (watch : Watch κ) {session : Session σ}
    (hlimit : session.deadline = none) :
    ∃ turns, Supervised service read handle rounds watch session turns
      (Supervision.supervise (Session.host service tree limit) read handle rounds watch session).1
      (Supervision.supervise (Session.host service tree limit) read handle rounds watch
        session).2 := by
  induction rounds generalizing watch session with
  | zero =>
      have hstuck : Supervision.supervise (Session.host service tree limit) read handle 0 watch
          session = (none, session) := by
        simp only [Supervision.supervise, Session.host, Action.andThen, Session.elapse, hlimit]
      rw [hstuck]
      exact ⟨[], .spent watch session⟩
  | succ rounds ih =>
      unfold Supervision.supervise
      rcases Session.pause_cases watch.timer.wait hlimit with
        ⟨moment, _, _, hpause⟩ | ⟨_, hpause⟩
      · have hcancelled : (Session.host service tree limit).pause watch.timer.wait session = _ :=
          hpause
        rw [Action.bind_of_some hcancelled]
        exact ⟨[], .cancelled hpause⟩
      · have hwaited : (Session.host service tree limit).pause watch.timer.wait session = _ :=
          hpause
        rw [Action.bind_of_some hwaited]
        simp only [Bool.false_eq_true, if_false]
        rcases polled_of_poll tree limit watch
          { session with now := session.now + watch.timer.wait.nanos } with ⟨answer, batch, hpolled⟩
        rcases hpoll : Supervision.poll (Session.host service tree limit) read handle watch
          { session with now := session.now + watch.timer.wait.nanos } with ⟨result, next⟩
        rw [hpoll] at hpolled
        have hturn : Turn.Takes service read handle
            ⟨watch, session, _, answer, batch, result, next⟩ watch session :=
          ⟨rfl, rfl, hpause, hpolled⟩
        rcases result with _ | ⟨_ | outcome, after⟩
        · rw [Action.bind_of_none hpoll]
          exact ⟨_, .stuck hturn rfl⟩
        · -- Nothing is decided, so the next turn begins where this one is over.
          have hnext : next.deadline = none :=
            ((hturn.onward hread).2.deadline_eq.trans (hturn.onward hread).1.deadline_eq).trans
              hlimit
          rcases ih after hnext with ⟨turns, hrest⟩
          rw [Action.bind_of_some hpoll]
          exact ⟨_, .more hturn rfl hrest⟩
        · rw [Action.bind_of_some hpoll]
          exact ⟨_, .decided hturn rfl⟩

namespace Supervised

variable {rounds : Nat} {watch : Watch κ} {session final : Session σ} {turns : List (Turn σ κ)}
  {result : Option (Outcome × Watch κ)}

/-- The session goes on, from one turn to the next. -/
theorem onward (hread : ∀ flush logs, (read flush logs).Discreet)
    (hlimit : session.deadline = none)
    (h : Supervised service read handle rounds watch session turns result final) :
    session.Onward final ∧ ∀ turn ∈ turns, session.Onward turn.begun ∧
      turn.Takes service read handle turn.watch turn.begun ∧ turn.ended.Onward final := by
  induction h with
  | spent => exact ⟨.refl _, fun _ hno => absurd hno List.not_mem_nil⟩
  | cancelled hpause =>
      refine ⟨?_, fun _ hno => absurd hno List.not_mem_nil⟩
      rcases Session.passes_of_pause hpause with ⟨now, hnow, rfl⟩
      exact .passes hnow
  | @stuck rounds watch session turn hturn _ | @decided rounds watch session turn _ _ hturn _ =>
      have hgone := hturn.onward hread
      refine ⟨hgone.1.trans hgone.2, fun other hother => ?_⟩
      rw [List.mem_singleton] at hother
      rw [hother]
      refine ⟨hturn.begun_eq ▸ .refl _, ⟨rfl, rfl, hturn.paused, hturn.polls⟩, .refl _⟩
  | @more rounds watch session turn after rest result final hturn _ _ ih =>
      have hgone := (hturn.onward hread).1.trans (hturn.onward hread).2
      have hrest := ih (hgone.deadline_eq.trans hlimit)
      refine ⟨hgone.trans hrest.1, fun other hother => ?_⟩
      rcases List.mem_cons.mp hother with rfl | hother
      · exact ⟨hturn.begun_eq ▸ .refl _, ⟨rfl, rfl, hturn.paused, hturn.polls⟩, hrest.1⟩
      · exact ⟨hgone.trans (hrest.2 other hother).1, (hrest.2 other hother).2⟩

/-- The polls on record are those of the turns, one each. -/
theorem polledAt_eq (hread : ∀ flush logs, (read flush logs).Discreet)
    (h : Supervised service read handle rounds watch session turns result final) :
    final.polledAt = session.polledAt ++ turns.map fun turn => turn.polled.now := by
  induction h with
  | spent => exact (List.append_nil _).symm
  | cancelled hpause =>
      rcases Session.passes_of_pause hpause with ⟨now, _, rfl⟩
      exact (List.append_nil _).symm
  | stuck hturn _ | decided hturn _ => exact hturn.polledAt_eq hread
  | more hturn _ _ ih =>
      rw [ih, hturn.polledAt_eq hread, List.append_assoc, List.map_cons, List.singleton_append]

/-- The transcript of a run is that of its turns, one behind the other. -/
theorem transcript_eq (hread : ∀ flush logs, (read flush logs).Discreet)
    (h : Supervised service read handle rounds watch session turns result final) :
    final.transcript = session.transcript ++ turns.flatMap fun turn =>
      .asked (.attempts handle turn.watch.token) ::
        turn.utterances handle.runId turn.watch.reported := by
  induction h with
  | spent => exact (List.append_nil _).symm
  | cancelled hpause =>
      rcases Session.passes_of_pause hpause with ⟨now, _, rfl⟩
      exact (List.append_nil _).symm
  | stuck hturn _ | decided hturn _ =>
      rw [hturn.transcript_eq hread, List.flatMap_singleton]
  | more hturn _ _ ih =>
      rw [ih, hturn.transcript_eq hread, List.append_assoc, List.flatMap_cons]

/-- The first turn begins where supervision does. -/
theorem first {turn : Turn σ κ} {later : List (Turn σ κ)}
    (h : Supervised service read handle rounds watch session (turn :: later) result final) :
    turn.Takes service read handle watch session := by
  cases h with
  | stuck hturn _ => exact hturn
  | decided hturn _ => exact hturn
  | more hturn _ _ => exact hturn

/-- If there is another turn, supervision goes on with what the first one left. -/
theorem rest {turn : Turn σ κ} {later : List (Turn σ κ)} (hlater : later ≠ [])
    (h : Supervised service read handle rounds watch session (turn :: later) result final) :
    ∃ left after, turn.result = some (none, after) ∧
      Supervised service read handle left after turn.ended later result final := by
  cases h with
  | stuck _ _ => exact absurd rfl hlater
  | decided _ _ => exact absurd rfl hlater
  | more _ hresult hrest => exact ⟨_, _, hresult, hrest⟩

/-- What is left of a chain is a chain. -/
theorem suffix {earlier : List (Turn σ κ)} {turn : Turn σ κ} {later : List (Turn σ κ)}
    (h : Supervised service read handle rounds watch session (earlier ++ turn :: later) result
      final) :
    ∃ left, Supervised service read handle left turn.watch turn.begun (turn :: later) result
      final := by
  induction earlier generalizing rounds watch session with
  | nil =>
      rw [h.first.watch_eq, h.first.begun_eq]
      exact ⟨rounds, h⟩
  | cons head front ih =>
      rcases h.rest (List.append_ne_nil_of_right_ne_nil _ (List.cons_ne_nil _ _)) with
        ⟨_, _, _, hrest⟩
      exact ih hrest

/-- What is carried into a turn is what the answers before have made of it. -/
theorem foldl_eq {α : Type} {f : Watch κ → α}
    {g : α → Except ServiceError AttemptPage → α}
    (hstep : ∀ (turn : Turn σ κ) watch session answer decided after,
      turn.Takes service read handle watch session → turn.answer = some answer →
      turn.result = some (decided, after) → f after = g (f watch) answer)
    {earlier : List (Turn σ κ)} {turn : Turn σ κ} {later : List (Turn σ κ)}
    (h : Supervised service read handle rounds watch session (earlier ++ turn :: later) result
      final) : f turn.watch = (answersOf earlier).foldl g (f watch) := by
  induction earlier generalizing rounds watch session with
  | nil =>
      rw [h.first.watch_eq]
      rfl
  | cons head front ih =>
      rcases h.rest (List.append_ne_nil_of_right_ne_nil _ (List.cons_ne_nil _ _)) with
        ⟨left, after, hresult, hrest⟩
      rcases h.first.exists_answer hresult with ⟨answer, hanswer⟩
      rw [ih hrest, hstep head watch session answer none after h.first hanswer hresult]
      simp only [answersOf, List.filterMap_cons, hanswer, List.foldl_cons]

/-- So is what supervision leaves when it ends. -/
theorem foldl_result {α : Type} {f : Watch κ → α}
    {g : α → Except ServiceError AttemptPage → α}
    (hstep : ∀ (turn : Turn σ κ) watch session answer decided after,
      turn.Takes service read handle watch session → turn.answer = some answer →
      turn.result = some (decided, after) → f after = g (f watch) answer)
    {outcome : Outcome} {after : Watch κ}
    (h : Supervised service read handle rounds watch session turns (some (outcome, after)) final) :
    f after = (answersOf turns).foldl g (f watch) := by
  generalize hended : some (outcome, after) = result at h
  induction h with
  | spent | stuck => exact absurd hended (by simp only [reduceCtorEq, not_false_eq_true])
  | cancelled _ =>
      rw [Option.some.injEq, Prod.mk.injEq] at hended
      rw [hended.2]
      rfl
  | @decided _ watch session turn _ _ hturn hresult =>
      rw [Option.some.injEq, Prod.mk.injEq] at hended
      rcases hturn.exists_answer hresult with ⟨answer, hanswer⟩
      rw [hended.2, hstep turn watch session answer _ _ hturn hanswer hresult]
      simp only [answersOf, List.filterMap_cons, hanswer, List.filterMap_nil, List.foldl_cons,
        List.foldl_nil]
  | @more _ watch session turn next _ _ _ hturn hresult _ ih =>
      rcases hturn.exists_answer hresult with ⟨answer, hanswer⟩
      rw [ih hended, hstep turn watch session answer none next hturn hanswer hresult]
      simp only [answersOf, List.filterMap_cons, hanswer, List.foldl_cons]

/-- Of any two turns, the later one begins where the session has gone on from the
    end of the earlier one. -/
theorem pairwise_onward (hread : ∀ flush logs, (read flush logs).Discreet)
    (hlimit : session.deadline = none)
    (h : Supervised service read handle rounds watch session turns result final) :
    turns.Pairwise fun earlier later => earlier.ended.Onward later.begun := by
  induction h with
  | spent | cancelled => exact .nil
  | stuck | decided => exact List.pairwise_singleton _ _
  | more hturn _ hrest ih =>
      have hgone := (hturn.onward hread).1.trans (hturn.onward hread).2
      have hnext := hgone.deadline_eq.trans hlimit
      exact .cons (fun other hother => ((hrest.onward hread hnext).2 other hother).1) (ih hnext)

/-- A turn begins at once when the one before is over. -/
theorem begun_eq {earlier : List (Turn σ κ)} {turn : Turn σ κ} {later : List (Turn σ κ)}
    (h : Supervised service read handle rounds watch session (earlier ++ turn :: later) result
      final) :
    turn.begun = (earlier.getLast?.map fun before => before.ended).getD session := by
  induction earlier generalizing rounds watch session with
  | nil => exact h.first.begun_eq
  | cons head front ih =>
      rcases h.rest (List.append_ne_nil_of_right_ne_nil _ (List.cons_ne_nil _ _)) with
        ⟨left, after, _, hrest⟩
      rw [ih hrest, List.getLast?_cons]
      cases front.getLast? with
      | none => rfl
      | some before => rfl

/-- A run ends with its last turn or with a cancellation in a pause, unless a turn
    does not come to its end or the rounds are used up. -/
theorem concludes (hlimit : session.deadline = none)
    (hread : ∀ flush logs, (read flush logs).Discreet)
    (h : Supervised service read handle rounds watch session turns result final) :
    Concludes handle.runId rounds final turns (result.map (·.1)) := by
  induction h with
  | spent => exact .spent (fun _ hno => absurd hno List.not_mem_nil) rfl
  | @cancelled rounds watch session final hpause =>
      refine .abandoned (fun _ hno => absurd hno List.not_mem_nil) ?_
      rcases Session.pause_cases watch.timer.wait hlimit with
        ⟨moment, hmoment, _, hended⟩ | ⟨_, hslept⟩
      · rw [hended, Prod.mk.injEq] at hpause
        rw [← hpause.2]
        exact ⟨moment, hmoment, Nat.le_max_right _ _⟩
      · rw [hslept, Prod.mk.injEq] at hpause
        exact absurd hpause.1 (by simp only [Option.some.injEq, Bool.false_eq_true,
          not_false_eq_true])
  | stuck hturn hresult =>
      rw [← List.nil_append [_]]
      exact .stuck (fun _ hno => absurd hno List.not_mem_nil) hresult
  | @decided _ _ _ turn outcome after hturn hresult =>
      rcases hturn.decides_of_result hresult with ⟨answer, hanswer, hdecides⟩
      rw [← List.nil_append [turn]]
      exact .decided (fun _ hno => absurd hno List.not_mem_nil) hanswer hdecides
  | @more rounds _ _ turn after rest result final hturn hresult _ ih =>
      have hgoes : turn.GoesOn := ⟨⟨after, hresult⟩, hturn.leavesOpen_of_result hresult⟩
      -- However the rest of the run ends, the whole ends so with one more turn in front.
      have hgone := (hturn.onward hread).1.trans (hturn.onward hread).2
      have hrest := ih (hgone.deadline_eq.trans hlimit)
      generalize result.map (·.1) = ended at hrest
      cases hrest with
      | decided hfront hanswer hdecides =>
          exact .decided (List.forall_mem_cons.mpr ⟨hgoes, hfront⟩) hanswer hdecides
      | abandoned hturns hcancelled =>
          exact .abandoned (List.forall_mem_cons.mpr ⟨hgoes, hturns⟩) hcancelled
      | stuck hfront hlast => exact .stuck (List.forall_mem_cons.mpr ⟨hgoes, hfront⟩) hlast
      | spent hturns hrounds =>
          exact .spent (List.forall_mem_cons.mpr ⟨hgoes, hturns⟩) (congrArg (· + 1) hrounds)

end Supervised

end BatchRun
