import BatchRun.Proofs.Supervision.Course

/-!
# Throttled Polls

What a service that asks for patience changes about supervision.

A throttled poll puts out nothing, does not look at the logs and leaves everything
that is carried on as it is, except for the time until the next poll. So rounds
between which the service asks for patience, wherever it does so and however
often, give the same lines, the same readings of the logs and the same outcome as
these rounds alone. The cursor that a poll has is the newest one that came before
it, and it stays over the throttled polls.

## Main definitions

* `Padded`: Rounds with throttled ones put between them.
* `newestCursor`, `CarriesNewest`: The cursor that a poll should have.
* `answered`: The cursors of the polls that are not throttled.
* `recorded`: A consumer that keeps which calls were made of it.

## Theorems

* `supervise_recorded`: Keeping the calls changes nothing else.
* `Padded.told_eq`, `Padded.foldl_leaves_eq`, `Padded.answered_eq`: What throttled
  rounds leave as it is.
* `carriesNewest_heard`: Every poll has the newest cursor.
* `LogFeed.throttling_only_delays`: Throttling changes nothing but the time.
-/

namespace BatchRun

variable {κ γ : Type}

/-- Whether a service asks for patience. -/
def Round.isThrottled (round : Round γ) : Bool :=
  match round.answer with
  | .error error => error.isThrottling
  | .ok _ => false

/-- Rounds with any number of throttled ones put between them. -/
inductive Padded : List (Round γ) → List (Round γ) → Prop
  | nil : Padded [] []
  | keep (round : Round γ) {script padded : List (Round γ)} (h : Padded script padded) :
      Padded (round :: script) (round :: padded)
  | insert {round : Round γ} (hthrottled : round.isThrottled = true)
      {script padded : List (Round γ)} (h : Padded script padded) :
      Padded script (round :: padded)

/-- The cursor of a page, if a round has one. -/
def Round.cursor? (round : Round γ) : Option String :=
  round.answer.toOption.bind (·.nextToken)

/-- The last cursor that came in some rounds. -/
def newestCursor (rounds : List (Round γ)) : Option String :=
  (rounds.filterMap Round.cursor?).getLast?

/-- Each poll has the newest cursor that came before it. -/
def CarriesNewest (rounds : List (Round γ)) (polls : List (Option String)) : Prop :=
  polls.length = rounds.length ∧
    ∀ i < rounds.length, polls[i]? = some (newestCursor (rounds.take i))

/-- The cursors of the polls that are not throttled. -/
def answered (rounds : List (Round γ)) (polls : List (Option String)) : List (Option String) :=
  ((rounds.zip polls).filter fun polled => !polled.1.isThrottled).map (·.2)

section Recorded

variable {m : Type → Type} [Monad m]

/-- A consumer of logs that keeps which calls were made of it. -/
def recorded (read : Bool → κ → m (List LogLine × κ)) :
    Bool → κ × List Bool → m (List LogLine × (κ × List Bool)) :=
  fun flush logs => do
    let (lines, after) ← read flush logs.1
    pure (lines, (after, logs.2 ++ [flush]))

/-- A watch without the calls that were kept. -/
def Watch.unrecorded (watch : Watch (κ × List Bool)) : Watch κ :=
  { timer := watch.timer
    reported := watch.reported
    token := watch.token
    logs := watch.logs.1 }

variable [LawfulMonad m] (host : Host m) (read : Bool → κ → m (List LogLine × κ))

theorem digest_recorded (runId : String) (watch : Watch (κ × List Bool)) (page : AttemptPage) :
    (do
      let (decided, after) ← Supervision.digest host (recorded read) runId watch page
      pure (decided, after.unrecorded)) =
    Supervision.digest host read runId watch.unrecorded page := by
  unfold Supervision.digest
  cases page.latest with
  | none => simp only [pure_bind]
  | some attempt => simp only [recorded, Watch.unrecorded, bind_assoc, pure_bind]

theorem poll_recorded (handle : RunHandle) (watch : Watch (κ × List Bool)) :
    (do
      let (decided, after) ← Supervision.poll host (recorded read) handle watch
      pure (decided, after.unrecorded)) =
    Supervision.poll host read handle watch.unrecorded := by
  unfold Supervision.poll
  rw [bind_assoc]
  congr 1
  funext answer
  cases answer with
  | ok page => exact digest_recorded host read handle.runId _ page
  | error error =>
      simp only
      by_cases hpatience : error.isThrottling = true
      · simp only [if_pos hpatience, pure_bind]
        rfl
      · simp only [if_neg hpatience, pure_bind]

end Recorded

/-- Keeping the calls of a consumer changes nothing else. -/
theorem supervise_recorded {σ : Type} (service : Service σ) (tree : FileTree) (limit : Nat)
    (read : Bool → κ → Action σ (List LogLine × κ)) (handle : RunHandle) (rounds : Nat)
    (watch : Watch (κ × List Bool)) :
    (do
      let (outcome, after) ← Supervision.supervise (Session.host service tree limit)
        (recorded read) handle rounds watch
      pure (outcome, after.unrecorded)) =
    Supervision.supervise (Session.host service tree limit) read handle rounds
      watch.unrecorded := by
  induction rounds generalizing watch with
  | zero =>
      funext session
      have hstuck : ∀ α : Type, ((Session.host service tree limit).wait : Action σ α) session =
          (none, (Session.elapse none session).2) := by
        intro α
        simp only [Session.host, Action.andThen]
        rcases Session.elapse none session with ⟨_ | _, _⟩
        · rfl
        · rfl
      exact (Action.bind_of_none (hstuck _)).trans (hstuck _).symm
  | succ rounds ih =>
      unfold Supervision.supervise
      rw [bind_assoc]
      congr 1
      funext cancelled
      cases cancelled with
      | true => rfl
      | false =>
          simp only [Bool.false_eq_true, if_false]
          rw [← poll_recorded, bind_assoc, bind_assoc]
          congr 1
          funext next
          rcases next with ⟨_ | outcome, after⟩
          · exact ih after
          · rfl

/-- What a recording consumer makes of what can be seen. -/
def recordedConsume (consume : Bool → κ → γ → List LogLine × κ) :
    Bool → κ × List Bool → γ → List LogLine × (κ × List Bool) :=
  fun flush logs seen =>
    ((consume flush logs.1 seen).1, ((consume flush logs.1 seen).2, logs.2 ++ [flush]))

theorem LogFeed.Consumes.recorded {σ : Type} {service : Service σ} {handle : RunHandle}
    {feed : LogFeed service handle γ} {read : Bool → κ → Action σ (List LogLine × κ)}
    {consume : Bool → κ → γ → List LogLine × κ} (h : feed.Consumes read consume) :
    feed.Consumes (BatchRun.recorded read) (recordedConsume consume) := by
  intro flush logs session hquiet
  rcases h flush logs.1 session hquiet with ⟨next, hread, hnext⟩
  exact ⟨next, Action.bind_of_some hread, hnext⟩

theorem answered_cons (round : Round γ) (rounds : List (Round γ)) (token : Option String)
    (polls : List (Option String)) :
    answered (round :: rounds) (token :: polls) =
      if round.isThrottled then answered rounds polls else token :: answered rounds polls := by
  by_cases hthrottled : round.isThrottled = true
  · simp only [answered, List.zip_cons_cons, List.filter_cons, hthrottled, Bool.not_true,
      Bool.false_eq_true, if_false, if_true]
  · rw [Bool.not_eq_true] at hthrottled
    simp only [answered, List.zip_cons_cons, List.filter_cons, hthrottled, Bool.not_false, if_true,
      Bool.false_eq_true, if_false, List.map_cons]

section Steps

variable {consume : Bool → κ → γ → List LogLine × κ} {runId : String} {round : Round γ}

theorem Round.verdict_of_throttled (h : round.isThrottled = true) :
    round.verdict runId = none := by
  rcases round with ⟨answer, visible⟩
  cases answer with
  | ok page => exact absurd h Bool.false_ne_true
  | error error => exact if_pos h

theorem Round.lines_of_throttled (h : round.isThrottled = true) (watch : Watch κ) :
    round.lines consume runId watch = [] := by
  rcases round with ⟨answer, visible⟩
  cases answer with
  | ok page => exact absurd h Bool.false_ne_true
  | error error => rfl

/-- A throttled round only makes the next wait longer. -/
theorem Round.leaves_of_throttled (h : round.isThrottled = true) (watch : Watch κ) :
    round.leaves consume watch = { watch with timer := watch.timer.increase } := by
  rcases round with ⟨answer, visible⟩
  cases answer with
  | ok page => exact absurd h Bool.false_ne_true
  | error error => exact if_pos h

/-- How long it was waited does not matter to what is carried on but the next
    wait. -/
theorem Round.leaves_timer (consume : Bool → κ → γ → List LogLine × κ) (round : Round γ)
    (watch : Watch κ) (timer : PollTimer) :
    ∃ other, round.leaves consume { watch with timer } =
      { round.leaves consume watch with timer := other } := by
  rcases round with ⟨answer, visible⟩
  cases answer with
  | ok page =>
      simp only [leaves]
      cases page.latest with
      | none => exact ⟨timer.reset, rfl⟩
      | some attempt => exact ⟨timer.reset, rfl⟩
  | error error =>
      simp only [leaves]
      by_cases hpatience : error.isThrottling = true
      · simp only [if_pos hpatience]
        exact ⟨timer.increase, rfl⟩
      · simp only [if_neg hpatience]
        exact ⟨timer, rfl⟩

/-- A round that decides nothing leaves the cursor that came with it, or the one
    before. -/
theorem Round.token_leaves (h : round.verdict runId = none) (watch : Watch κ) :
    (round.leaves consume watch).token = round.cursor?.or watch.token := by
  rcases round with ⟨answer, visible⟩
  cases answer with
  | ok page =>
      simp only [verdict] at h
      simp only [leaves, cursor?, Except.toOption, Option.bind_some]
      cases hlatest : page.latest with
      | none =>
          rw [hlatest] at h
          exact absurd h (by simp only [reduceCtorEq, not_false_eq_true])
      | some attempt => rfl
  | error error =>
      simp only [leaves, cursor?, Except.toOption, Option.bind_none, Option.none_or]
      by_cases hpatience : error.isThrottling = true
      · rw [if_pos hpatience]
      · rw [if_neg hpatience]

end Steps

namespace Padded

variable {script padded : List (Round γ)} (consume : Bool → κ → γ → List LogLine × κ)

/-- Throttled rounds put out nothing. -/
theorem told_eq (h : Padded script padded) (runId : String) (watch : Watch κ)
    (timer : PollTimer) :
    told consume runId { watch with timer } padded = told consume runId watch script := by
  induction h generalizing watch timer with
  | nil => rfl
  | keep round _ ih =>
      rcases Round.leaves_timer consume round watch timer with ⟨other, hleaves⟩
      rw [told, told, hleaves, ih]
      rfl
  | insert hthrottled _ ih =>
      rw [told, Round.lines_of_throttled hthrottled, Round.leaves_of_throttled hthrottled,
        List.nil_append]
      exact ih watch _

/-- Throttled rounds leave everything that is carried on as it is, but for the
    time until the next poll. -/
theorem foldl_leaves_eq (h : Padded script padded) (watch : Watch κ) (timer : PollTimer) :
    ∃ other, padded.foldl (Round.leaves consume) { watch with timer } =
      { script.foldl (Round.leaves consume) watch with timer := other } := by
  induction h generalizing watch timer with
  | nil => exact ⟨timer, rfl⟩
  | keep round _ ih =>
      rcases Round.leaves_timer consume round watch timer with ⟨other, hleaves⟩
      rw [List.foldl_cons, hleaves]
      exact ih _ other
  | insert hthrottled _ ih =>
      rw [List.foldl_cons, Round.leaves_of_throttled hthrottled]
      exact ih watch _

/-- The polls that are not throttled have the same cursors. -/
theorem answered_eq (h : Padded script padded) (watch : Watch κ) (timer : PollTimer) :
    answered padded (carried consume { watch with timer } padded) =
      answered script (carried consume watch script) := by
  induction h generalizing watch timer with
  | nil => rfl
  | keep round _ ih =>
      rcases Round.leaves_timer consume round watch timer with ⟨other, hleaves⟩
      rw [carried, carried, hleaves, answered_cons, answered_cons, ih]
  | insert hthrottled _ ih =>
      rw [carried, answered_cons, if_pos hthrottled, Round.leaves_of_throttled hthrottled]
      exact ih watch _

theorem findSome?_eq (h : Padded script padded) (runId : String) :
    padded.findSome? (Round.verdict runId) = script.findSome? (Round.verdict runId) := by
  induction h with
  | nil => rfl
  | keep round _ ih => rw [List.findSome?_cons, List.findSome?_cons, ih]
  | insert hthrottled _ ih =>
      rw [List.findSome?_cons, Round.verdict_of_throttled hthrottled]
      exact ih

end Padded

theorem length_carried (consume : Bool → κ → γ → List LogLine × κ) (watch : Watch κ)
    (rounds : List (Round γ)) : (carried consume watch rounds).length = rounds.length := by
  induction rounds generalizing watch with
  | nil => rfl
  | cons round rest ih => rw [carried, List.length_cons, List.length_cons, ih]

theorem newestCursor_cons (round : Round γ) (rest : List (Round γ)) :
    newestCursor (round :: rest) = (newestCursor rest).or round.cursor? := by
  unfold newestCursor
  cases hcursor : round.cursor? with
  | none => rw [List.filterMap_cons_none hcursor, Option.or_none]
  | some cursor =>
      rw [List.filterMap_cons_some hcursor, List.getLast?_cons]
      cases (rest.filterMap Round.cursor?).getLast? with
      | none => rfl
      | some other => rfl

/-- Up to the first decisive round, a poll has the newest cursor that came before
    it, or the one with which it all began. -/
theorem getElem?_carried (consume : Bool → κ → γ → List LogLine × κ) (runId : String)
    (watch : Watch κ) (script : List (Round γ)) {i : Nat} (hi : i < (heard runId script).length) :
    (carried consume watch (heard runId script))[i]? =
      some ((newestCursor ((heard runId script).take i)).or watch.token) := by
  induction script generalizing watch i with
  | nil => exact absurd hi (Nat.not_lt_zero i)
  | cons round rest ih =>
      cases hverdict : round.verdict runId with
      | some outcome =>
          rw [heard_of_decided hverdict] at hi ⊢
          rw [Nat.lt_one_iff.mp hi]
          rfl
      | none =>
          rw [heard_of_open hverdict] at hi ⊢
          rw [List.length_cons] at hi
          rw [carried]
          cases i with
          | zero => rfl
          | succ i =>
              rw [List.getElem?_cons_succ, ih _ (Nat.lt_of_succ_lt_succ hi), List.take_succ_cons,
                newestCursor_cons, Round.token_leaves hverdict, Option.or_assoc]

/-- Every poll has the newest cursor that came before it. -/
theorem carriesNewest_heard (consume : Bool → κ → γ → List LogLine × κ) (runId : String)
    (timer : PollTimer) (logs : κ) (script : List (Round γ)) :
    CarriesNewest (heard runId script)
      (carried consume (Watch.start timer logs) (heard runId script)) := by
  refine ⟨length_carried consume _ _, fun i hi => ?_⟩
  rw [getElem?_carried consume runId _ script hi]
  exact congrArg some (Option.or_none)

/-- What is decided is decided by then. -/
theorem findSome?_heard (runId : String) (script : List (Round γ)) :
    (heard runId script).findSome? (Round.verdict runId) =
      script.findSome? (Round.verdict runId) := by
  induction script with
  | nil => rfl
  | cons round rest ih =>
      rw [List.findSome?_cons]
      cases hverdict : round.verdict runId with
      | some outcome => rw [heard_of_decided hverdict, List.findSome?_cons, hverdict]
      | none => rw [heard_of_open hverdict, List.findSome?_cons, hverdict, ih]

/-- Throttling changes nothing but the time. Two services may differ in the times
    at which they ask for patience before the first decisive answer, but show the
    same to all other polls. Then supervision comes to the same outcome with both,
    puts out the same lines, makes the same calls of a consumer, which is as far
    afterwards, and polls with the same cursors where it is not throttled. In
    either case every poll has the newest cursor that came before it. -/
theorem LogFeed.throttling_only_delays {σ τ : Type} {service : Service σ} {other : Service τ}
    {handle : RunHandle} (feed : LogFeed service handle γ) (feed' : LogFeed other handle γ)
    {read : Bool → κ → Action σ (List LogLine × κ)} {read' : Bool → κ → Action τ (List LogLine × κ)}
    {consume : Bool → κ → γ → List LogLine × κ} (hread : feed.Consumes read consume)
    (hread' : feed'.Consumes read' consume) (tree tree' : FileTree) (limit limit' : Nat)
    (timer timer' : PollTimer) (logs : κ) {session : Session σ} {session' : Session τ}
    (hquiet : session.Quiet) (hquiet' : session'.Quiet) (count count' : Nat)
    {script padded : List (Round γ)}
    (hscript : heard handle.runId ((feed.rounds session.state).take count) = script)
    (hpolled : heard handle.runId ((feed'.rounds session'.state).take count') = padded)
    (hpadded : Padded script padded) :
    ∃ result final result' final' lines polls polls',
      Supervision.supervise (Session.host service tree limit) (recorded read) handle count
        (Watch.start timer (logs, [])) session = (result, final) ∧
      Supervision.supervise (Session.host other tree' limit') (recorded read') handle count'
        (Watch.start timer' (logs, [])) session' = (result', final') ∧
      result.map (·.1) = script.findSome? (Round.verdict handle.runId) ∧
      result'.map (fun ended => (ended.1, ended.2.logs)) =
        result.map (fun ended => (ended.1, ended.2.logs)) ∧
      final.lines = session.lines ++ lines ∧ final'.lines = session'.lines ++ lines ∧
      final.polls = session.polls ++ polls ∧ final'.polls = session'.polls ++ polls' ∧
      CarriesNewest script polls ∧ CarriesNewest padded polls' ∧
      answered padded polls' = answered script polls := by
  rcases feed.supervise_eq tree limit hread.recorded count
      (Watch.start timer (logs, [])) hquiet with
    ⟨final, hrun, hlines, hpolls⟩
  rcases feed'.supervise_eq tree' limit' hread'.recorded count' (Watch.start timer' (logs, []))
    hquiet' with ⟨final', hrun', hlines', hpolls'⟩
  rw [← findSome?_heard, hscript] at hrun
  rw [← findSome?_heard, hpolled, hpadded.findSome?_eq] at hrun'
  rw [hscript] at hlines hpolls
  rw [hpolled] at hlines' hpolls'
  -- The second run is the first one with another timer, wherever it is looked at.
  rcases hpadded.foldl_leaves_eq (recordedConsume consume) (Watch.start timer (logs, [])) timer'
    with ⟨_, hended⟩
  have htold := hpadded.told_eq (recordedConsume consume) handle.runId
    (Watch.start timer (logs, [])) timer'
  have hanswered := hpadded.answered_eq (recordedConsume consume)
    (Watch.start timer (logs, [])) timer'
  refine ⟨_, final, _, final', _, _, _, hrun, hrun', ?_, ?_, hlines, hlines'.trans ?_, hpolls,
    hpolls', ?_, ?_, hanswered⟩
  · cases script.findSome? (Round.verdict handle.runId) with
    | none => rfl
    | some outcome => rfl
  · cases script.findSome? (Round.verdict handle.runId) with
    | none => rfl
    | some outcome => exact congrArg (fun ended => some (outcome, ended.logs)) hended
  · exact congrArg (session'.lines ++ ·) htold
  · rw [← hscript]
    exact carriesNewest_heard _ _ _ _ _
  · rw [← hpolled]
    exact carriesNewest_heard _ _ _ _ _

/-- A service that has nothing but some rounds, and shows what can be seen. -/
def LogFeed.service : Service (Nat × Stream' (Round Nat)) where
  reply call state :=
    { delay := some (Span.ofMillis 1)
      abandoned := state
      settled := match call with
        | .attempts _ _ => (state.2.head.visible, state.2.tail)
        | _ => state
      answer := match call with
        | .attempts _ _ => state.2.head.answer
        | _ => .error (.invalidRequest "")
      cancels := false }

/-- Its rounds are a stream. -/
def LogFeed.whole (handle : RunHandle) : LogFeed LogFeed.service handle Nat where
  upcoming state := state.2.map (·.answer)
  answer_eq _ _ := rfl
  settled_eq _ _ := rfl
  delay_ne _ _ := by simp only [service, ne_eq, reduceCtorEq, not_false_eq_true]
  cancels_eq _ _ := rfl
  visible state := state.1
  sights state := state.2.map (·.visible)
  visible_eq _ _ := rfl
  sights_eq _ _ := rfl

/-- A reader that puts out what it sees, and counts how often it has looked. -/
def LogFeed.glance : Bool → Nat → Action (Nat × Stream' (Round Nat)) (List LogLine × Nat) :=
  fun _ count session =>
    (some ([⟨⟨"SPARK_DRIVER", "stdout"⟩, toString session.state.1⟩], count + 1), session)

/-- A session with some rounds, behind which there are only errors. -/
def LogFeed.session (rounds : List (Round Nat)) : Session (Nat × Stream' (Round Nat)) :=
  Session.start (0, rounds ++ₛ Stream'.const ⟨.error (.invalidRequest ""), 0⟩) none

/-- The rounds of a run that fails at its second poll. -/
def LogFeed.failing : List (Round Nat) :=
  [⟨.ok ⟨[⟨1, .running, ""⟩], some "more"⟩, 1⟩, ⟨.ok ⟨[⟨1, .failed, "gone"⟩], none⟩, 2⟩]

/-- The same with a service that asks for patience at first and in between. -/
def LogFeed.impatient : List (Round Nat) :=
  [⟨.error (.throttled "slow"), 0⟩, ⟨.ok ⟨[⟨1, .running, ""⟩], some "more"⟩, 1⟩,
    ⟨.error (.throttled "slow"), 0⟩, ⟨.error (.throttled "slow"), 0⟩,
    ⟨.ok ⟨[⟨1, .failed, "gone"⟩], none⟩, 2⟩]

/-- Both end alike, with the same lines and the same calls of the reader. -/
theorem LogFeed.throttling_only_delays_impatient :
    ∃ after final after' final',
      Supervision.supervise (Session.host LogFeed.service FileTree.empty 9) (recorded glance)
        ⟨"app", "run"⟩ 2 (Watch.start (PollTimer.make (.ofSeconds 1) (.ofSeconds 60)) (0, []))
        (session failing) = (some (.failed ⟨"run", .failed, "gone"⟩, after), final) ∧
      Supervision.supervise (Session.host LogFeed.service FileTree.empty 9) (recorded glance)
        ⟨"app", "run"⟩ 9 (Watch.start (PollTimer.make (.ofSeconds 1) (.ofSeconds 60)) (0, []))
        (session impatient) = (some (.failed ⟨"run", .failed, "gone"⟩, after'), final') ∧
      after'.logs = after.logs ∧ final'.lines = final.lines := by
  have hpadded : Padded failing impatient :=
    .insert rfl (.keep _ (.insert rfl (.insert rfl (.keep _ .nil))))
  have hglance : (LogFeed.whole ⟨"app", "run"⟩).Consumes glance
      (fun _ count seen => ([⟨⟨"SPARK_DRIVER", "stdout"⟩, toString seen⟩], count + 1)) :=
    fun flush count session hquiet => ⟨session, rfl, hquiet, rfl, rfl, rfl⟩
  have hquiet : ∀ rounds, (session rounds).Quiet := fun _ => ⟨rfl, rfl⟩
  rcases throttling_only_delays _ _ hglance hglance FileTree.empty FileTree.empty 9 9
    (PollTimer.make (.ofSeconds 1) (.ofSeconds 60)) (PollTimer.make (.ofSeconds 1) (.ofSeconds 60))
    0 (hquiet failing) (hquiet impatient) 2 9 rfl rfl hpadded with
    ⟨result, final, result', final', lines, polls, polls', hrun, hrun', hended, hsame, hlines,
      hlines', _⟩
  have hfailed : result.map (·.1) = some (.failed ⟨"run", .failed, "gone"⟩) := hended
  rcases Option.map_eq_some_iff.mp hfailed with ⟨⟨_, after⟩, rfl, rfl⟩
  rw [Option.map_some, Option.map_eq_some_iff] at hsame
  rcases hsame with ⟨⟨outcome, after'⟩, rfl, hboth⟩
  rcases Prod.mk.inj hboth with ⟨rfl, hlogs⟩
  exact ⟨after, final, after', final', hrun, hrun', hlogs, hlines'.trans hlines.symm⟩

end BatchRun
