import BatchRun.Proofs.Session.Dialogue
import BatchRun.Proofs.Supervision

/-!
# The Course of Supervision

What supervision makes of the answers to its polls and of the logs behind them.

A consumer of logs whose readings depend on nothing but how far it has come and
what there is to be seen is a function, and so are a poll and all polls together:
which lines are put out, what is carried on, and which cursor each poll has. A
session in which nothing gets in the way runs just like this, up to the first
answer that decides something.

## Main definitions

* `Round`: An answer, with what can be seen of the logs.
* `Round.verdict`, `Round.lines`, `Round.leaves`: What one poll makes of it.
* `heard`: The rounds up to the first decisive one.
* `told`, `carried`: The lines of some rounds, and the cursors of their polls.
* `LogFeed`: A service with a stream of rounds.
* `LogFeed.Consumes`: Reading logs is a function of what can be seen.

## Theorems

* `Supervision.report_emits`, `Supervision.emitAll_emits`: Which lines are put
  out.
* `LogFeed.poll_eq`: One poll.
* `LogFeed.supervise_eq`: All of them.
-/

namespace BatchRun

/-- The cursor of a poll. -/
def Call.cursor? : Call → Option (Option String)
  | attempts _ token => some token
  | _ => none

namespace Session

variable {σ : Type}

/-- The cursors of the polls of a session, in order. -/
def polls (session : Session σ) : List (Option String) :=
  session.calls.filterMap Call.cursor?

/-- A session in which nothing happens but that some lines are put out. -/
structure Emits (session next : Session σ) (lines : List String) : Prop where
  eq_events : ∃ events, next = { session with events }
  lines_eq : next.lines = session.lines ++ lines
  calls_eq : next.calls = session.calls

namespace Emits

variable {session middle next : Session σ} {front back : List String}

theorem nothing (session : Session σ) : session.Emits session [] :=
  ⟨⟨session.events, rfl⟩, (List.append_nil _).symm, rfl⟩

theorem line (session : Session σ) (text : String) :
    session.Emits (session.record (.line text)) [text] := by
  refine ⟨⟨_, rfl⟩, ?_, ?_⟩
  · simp only [lines, record, List.filterMap_append, List.filterMap_cons, List.filterMap_nil]
  · exact calls_record (fun _ => by simp only [ne_eq, reduceCtorEq, not_false_eq_true]) session

theorem warning (session : Session σ) (warning : Warning) :
    session.Emits (session.record (.warned warning)) [] := by
  refine ⟨⟨_, rfl⟩, ?_, ?_⟩
  · simp only [lines, record, List.filterMap_append, List.filterMap_cons, List.filterMap_nil]
  · exact calls_record (fun _ => by simp only [ne_eq, reduceCtorEq, not_false_eq_true]) session

theorem trans (hfront : session.Emits middle front) (hback : middle.Emits next back) :
    session.Emits next (front ++ back) := by
  rcases hfront.eq_events with ⟨events, rfl⟩
  rcases hback.eq_events with ⟨more, rfl⟩
  refine ⟨⟨more, rfl⟩, ?_, hback.calls_eq.trans hfront.calls_eq⟩
  rw [hback.lines_eq, hfront.lines_eq, List.append_assoc]

end Emits

/-- A call puts out no line. -/
theorem lines_ask (service : Service σ) (call : Call) (session : Session σ) :
    (ask service call session).2.lines = session.lines := by
  rcases ask_cases service call session with ⟨now, _, _, hasked | hasked⟩
  · rw [hasked]
    simp only [lines, settle, record, List.filterMap_append, List.filterMap_cons,
      List.filterMap_nil, List.append_nil]
  · rw [hasked]
    simp only [lines, record, List.filterMap_append, List.filterMap_cons, List.filterMap_nil,
      List.append_nil]

end Session

namespace Supervision

variable {σ : Type} (service : Service σ) (tree : FileTree) (limit : Nat)

/-- The line about an attempt is put out if its state is a new one. -/
theorem report_emits (runId : String) (reported : Option RunState) (attempt : Attempt)
    (session : Session σ) :
    ∃ next, report (Session.host service tree limit) runId reported attempt session =
        (some (), next) ∧
      session.Emits next (if reported = some attempt.state then [] else
        [stateLine runId attempt]) := by
  unfold report
  by_cases hold : reported = some attempt.state
  · rw [if_neg (not_not_intro hold), if_pos hold]
    exact ⟨session, rfl, .nothing session⟩
  · rw [if_pos hold, if_neg hold]
    by_cases hknown : (!attempt.state.isRecognized) = true
    · rw [if_pos hknown]
      exact ⟨_, rfl, (Session.Emits.warning session _).trans (.line _ _)⟩
    · rw [if_neg hknown]
      exact ⟨_, rfl, .line session _⟩

/-- The lines of the logs are put out. -/
theorem emitAll_emits (lines : List LogLine) (session : Session σ) :
    ∃ next, emitAll (Session.host service tree limit) lines session = (some (), next) ∧
      session.Emits next (lines.map (·.text)) := by
  induction lines generalizing session with
  | nil => exact ⟨session, rfl, .nothing session⟩
  | cons line rest ih =>
      rcases ih (session.record (.line line.text)) with ⟨next, hrest, hemits⟩
      exact ⟨next, hrest, (Session.Emits.line session line.text).trans hemits⟩

end Supervision

/-- An answer to a poll, with what can be seen of the logs by then. -/
structure Round (γ : Type) where
  answer : Except ServiceError AttemptPage
  visible : γ

variable {κ γ : Type}

namespace Round

/-- The outcome that an answer decides. -/
def verdict (runId : String) (round : Round γ) : Option Outcome :=
  match round.answer with
  | .error error =>
    if error.isThrottling then none else some (.localError (.listing error))
  | .ok page =>
    match page.latest with
    | none => some (.localError (.noAttempts runId))
    | some attempt => Outcome.ofAttempt? runId attempt

/-- The lines that are put out at a poll. -/
def lines (consume : Bool → κ → γ → List LogLine × κ) (runId : String) (watch : Watch κ)
    (round : Round γ) : List String :=
  match round.answer with
  | .error _ => []
  | .ok page =>
    match page.latest with
    | none => []
    | some attempt =>
      (if watch.reported = some attempt.state then [] else
        [Supervision.stateLine runId attempt]) ++
      (consume attempt.state.isTerminal watch.logs round.visible).1.map (·.text)

/-- What is carried from a poll to the next. -/
def leaves (consume : Bool → κ → γ → List LogLine × κ) (watch : Watch κ) (round : Round γ) :
    Watch κ :=
  match round.answer with
  | .error error =>
    if error.isThrottling then { watch with timer := watch.timer.increase } else watch
  | .ok page =>
    match page.latest with
    | none => { watch with timer := watch.timer.reset }
    | some attempt =>
      { timer := watch.timer.reset
        reported := some attempt.state
        token := page.nextToken.or watch.token
        logs := (consume attempt.state.isTerminal watch.logs round.visible).2 }

end Round

/-- The rounds up to the first decisive one. -/
def heard (runId : String) : List (Round γ) → List (Round γ)
  | [] => []
  | round :: rest =>
    if (round.verdict runId).isSome then [round] else round :: heard runId rest

theorem heard_of_decided {runId : String} {round : Round γ} {outcome : Outcome}
    (h : round.verdict runId = some outcome) (rest : List (Round γ)) :
    heard runId (round :: rest) = [round] := by
  rw [heard, h]
  rfl

theorem heard_of_open {runId : String} {round : Round γ} (h : round.verdict runId = none)
    (rest : List (Round γ)) : heard runId (round :: rest) = round :: heard runId rest := by
  rw [heard, h]
  rfl

/-- The lines that are put out in some rounds. -/
def told (consume : Bool → κ → γ → List LogLine × κ) (runId : String) :
    Watch κ → List (Round γ) → List String
  | _, [] => []
  | watch, round :: rest =>
    round.lines consume runId watch ++ told consume runId (round.leaves consume watch) rest

/-- The cursors of the polls of some rounds. -/
def carried (consume : Bool → κ → γ → List LogLine × κ) :
    Watch κ → List (Round γ) → List (Option String)
  | _, [] => []
  | watch, round :: rest => watch.token :: carried consume (round.leaves consume watch) rest

/-- A service whose polls go by a stream of rounds. What can be seen of the logs is
    part of its state, and changes with its answers. -/
structure LogFeed {σ : Type} (service : Service σ) (handle : RunHandle) (γ : Type) extends
    AttemptFeed service handle where
  /-- What can be seen now. -/
  visible : σ → γ
  /-- What will be seen at the polls that are still to come. -/
  sights : σ → Stream' γ
  visible_eq : ∀ token state,
    visible (service.reply (.attempts handle token) state).settled = (sights state).head
  sights_eq : ∀ token state,
    sights (service.reply (.attempts handle token) state).settled = (sights state).tail

namespace LogFeed

variable {σ : Type} {service : Service σ} {handle : RunHandle}

/-- The rounds that are still to come. -/
def rounds (feed : LogFeed service handle γ) (state : σ) : Stream' (Round γ) :=
  Stream'.zip Round.mk (feed.upcoming state) (feed.sights state)

/-- Reading logs gives what a function makes of what can be seen, and does nothing
    else that matters to supervision. -/
def Consumes (feed : LogFeed service handle γ) (read : Bool → κ → Action σ (List LogLine × κ))
    (consume : Bool → κ → γ → List LogLine × κ) : Prop :=
  ∀ flush logs (session : Session σ), session.Quiet →
    ∃ next, read flush logs session =
        (some (consume flush logs (feed.visible session.state)), next) ∧ next.Quiet ∧
      feed.rounds next.state = feed.rounds session.state ∧ next.lines = session.lines ∧
      next.polls = session.polls

/-- A session that has come further: the lines and polls by then, and the rounds
    that are left. -/
structure Leads (feed : LogFeed service handle γ) (session next : Session σ)
    (lines : List String) (polls : List (Option String)) (rest : Stream' (Round γ)) : Prop where
  quiet : next.Quiet
  rounds_eq : feed.rounds next.state = rest
  lines_eq : next.lines = session.lines ++ lines
  polls_eq : next.polls = session.polls ++ polls

variable (feed : LogFeed service handle γ) {read : Bool → κ → Action σ (List LogLine × κ)}
  {consume : Bool → κ → γ → List LogLine × κ} (tree : FileTree) (limit : Nat)

theorem rounds_settled (token : Option String) (state : σ) :
    feed.rounds (service.reply (.attempts handle token) state).settled =
      (feed.rounds state).tail := by
  rw [rounds, feed.settled_eq, feed.sights_eq]
  rfl

/-- A call for attempts takes one round. -/
theorem ask_leads (token : Option String) {session : Session σ} (hquiet : session.Quiet) :
    ∃ next, Session.ask service (.attempts handle token) session =
        (some (feed.rounds session.state).head.answer, next) ∧
      feed.visible next.state = (feed.rounds session.state).head.visible ∧
      feed.Leads session next [] [token] (feed.rounds session.state).tail := by
  rcases Session.ask_of_quiet hquiet (feed.delay_ne token session.state)
    (feed.cancels_eq token session.state) with ⟨next, hasked, hnext, hstate⟩
  have hlines := Session.lines_ask service (.attempts handle token) session
  have hcalls := Session.calls_ask service (.attempts handle token) session
  rw [hasked] at hlines hcalls
  rw [feed.answer_eq] at hasked
  refine ⟨next, hasked, ?_, hnext, ?_, ?_, ?_⟩
  · rw [hstate, feed.visible_eq]
    rfl
  · rw [hstate, rounds_settled]
  · rw [hlines, List.append_nil]
  · rw [Session.polls, hcalls, List.filterMap_append]
    rfl

/-- Digesting a page puts out its lines and leaves what is carried on. -/
theorem digest_leads (hread : feed.Consumes read consume) (watch : Watch κ) (page : AttemptPage)
    {session : Session σ} (hquiet : session.Quiet) :
    ∃ next, Supervision.digest (Session.host service tree limit) read handle.runId
        { watch with timer := watch.timer.reset } page session =
        (some (Round.verdict handle.runId ⟨.ok page, feed.visible session.state⟩,
          Round.leaves consume watch ⟨.ok page, feed.visible session.state⟩), next) ∧
      feed.Leads session next (Round.lines consume handle.runId watch
        ⟨.ok page, feed.visible session.state⟩) [] (feed.rounds session.state) := by
  cases hlatest : page.latest with
  | none =>
      simp only [Supervision.digest, Round.verdict, Round.leaves, Round.lines, hlatest]
      exact ⟨session, rfl, hquiet, rfl, (List.append_nil _).symm, (List.append_nil _).symm⟩
  | some attempt =>
      simp only [Supervision.digest, Round.verdict, Round.leaves, Round.lines, hlatest]
      rcases Supervision.report_emits service tree limit handle.runId watch.reported attempt session
        with ⟨reported, hreport, hemits⟩
      rcases hemits.eq_events with ⟨events, rfl⟩
      rcases hread attempt.state.isTerminal watch.logs _ (Session.quiet_of_events hquiet events)
        with ⟨middle, hlines, hmiddle, hrounds, hsilent, hpolls⟩
      simp only at hlines
      rcases hconsumed : consume attempt.state.isTerminal watch.logs (feed.visible session.state)
        with ⟨lines, logs⟩
      rw [hconsumed] at hlines
      rcases Supervision.emitAll_emits service tree limit lines middle with ⟨next, hemit, hmore⟩
      refine ⟨next, (Action.bind_of_some hreport).trans ((Action.bind_of_some hlines).trans
        (Action.bind_of_some hemit)), ?_, ?_, ?_, ?_⟩
      · rcases hmore.eq_events with ⟨events, rfl⟩
        exact Session.quiet_of_events hmiddle events
      · rcases hmore.eq_events with ⟨events, rfl⟩
        exact hrounds
      · rw [hmore.lines_eq, hsilent, hemits.lines_eq, List.append_assoc]
      · rw [Session.polls, hmore.calls_eq, ← Session.polls, hpolls, Session.polls,
          hemits.calls_eq, List.append_nil]
        rfl

/-- One poll takes one round and goes by it. -/
theorem poll_eq (hread : feed.Consumes read consume) (watch : Watch κ) {session : Session σ}
    (hquiet : session.Quiet) :
    ∃ next, Supervision.poll (Session.host service tree limit) read handle watch session =
        (some ((feed.rounds session.state).head.verdict handle.runId,
          (feed.rounds session.state).head.leaves consume watch), next) ∧
      feed.Leads session next ((feed.rounds session.state).head.lines consume handle.runId watch)
        [watch.token] (feed.rounds session.state).tail := by
  rcases feed.ask_leads watch.token hquiet with ⟨asked, hasked, hvisible, hleads⟩
  have hcall : (Session.host service tree limit).call (.attempts handle watch.token) session =
      (some (feed.rounds session.state).head.answer, asked) := hasked
  unfold Supervision.poll
  rw [Action.bind_of_some hcall]
  rcases hround : (feed.rounds session.state).head with ⟨answer, visible⟩
  rw [hround] at hvisible
  simp only at hvisible
  cases answer with
  | ok page =>
      rcases feed.digest_leads tree limit hread watch page hleads.quiet with
        ⟨next, hdigest, hnext⟩
      rw [hvisible] at hdigest hnext
      refine ⟨next, hdigest, hnext.quiet, ?_, ?_, ?_⟩
      · rw [hnext.rounds_eq, hleads.rounds_eq]
      · rw [hnext.lines_eq, hleads.lines_eq, List.append_nil]
      · rw [hnext.polls_eq, hleads.polls_eq, List.append_nil]
  | error error =>
      simp only [Round.verdict, Round.leaves, Round.lines]
      by_cases hpatience : error.isThrottling = true
      · simp only [if_pos hpatience]
        exact ⟨asked, rfl, hleads⟩
      · simp only [if_neg hpatience]
        exact ⟨asked, rfl, hleads⟩

/-- As many polls as there may be go by as many rounds, up to the first decisive
    one. -/
theorem supervise_eq (hread : feed.Consumes read consume) (count : Nat) (watch : Watch κ)
    {session : Session σ} (hquiet : session.Quiet) :
    ∃ next, Supervision.supervise (Session.host service tree limit) read
        handle count watch session =
        ((((feed.rounds session.state).take count).findSome? (Round.verdict handle.runId)).map
          fun outcome => (outcome,
            (heard handle.runId ((feed.rounds session.state).take count)).foldl
            (Round.leaves consume) watch), next) ∧
      next.lines = session.lines ++ told consume handle.runId watch
        (heard handle.runId ((feed.rounds session.state).take count)) ∧
      next.polls = session.polls ++ carried consume watch
        (heard handle.runId ((feed.rounds session.state).take count)) := by
  induction count generalizing watch session with
  | zero =>
      exact ⟨session, Session.wait_of_quiet service tree limit hquiet, (List.append_nil _).symm,
        (List.append_nil _).symm⟩
  | succ count ih =>
      -- A wait only moves the clock, and the poll behind it takes the first round.
      have hpause := Session.pause_of_quiet hquiet watch.timer.wait
      have hwaited : { session with now := session.now + watch.timer.wait.nanos }.Quiet :=
        ⟨hquiet.deadline, hquiet.cancelAt⟩
      rcases feed.poll_eq tree limit hread watch hwaited with ⟨polled, hpoll, hleads⟩
      simp only at hpoll hleads
      rw [Stream'.take_succ, List.findSome?_cons]
      cases hverdict : (feed.rounds session.state).head.verdict handle.runId with
      | some outcome =>
          rw [hverdict] at hpoll
          rw [heard_of_decided hverdict]
          refine ⟨polled, (Action.bind_of_some hpause).trans (Action.bind_of_some hpoll), ?_, ?_⟩
          · rw [hleads.lines_eq, told, told, List.append_nil]
            rfl
          · rw [hleads.polls_eq]
            rfl
      | none =>
          rw [hverdict] at hpoll
          rw [heard_of_open hverdict]
          rcases ih ((feed.rounds session.state).head.leaves consume watch) hleads.quiet with
            ⟨next, hrest, hlines, hpolls⟩
          rw [hleads.rounds_eq] at hrest hlines hpolls
          refine ⟨next, ((Action.bind_of_some hpause).trans
            (Action.bind_of_some hpoll)).trans hrest, ?_, ?_⟩
          · rw [hlines, hleads.lines_eq, List.append_assoc]
            rfl
          · rw [hpolls, hleads.polls_eq, List.append_assoc]
            rfl

end LogFeed

end BatchRun
