import BatchRun.Proofs.Session.Record
import BatchRun.Proofs.Supervision

/-!
# A Turn of Supervision

A pause, a poll, and what its answer makes of the watch.

A turn that comes to its end does so in one of a few ways: the answer is an error,
or an empty page, or a page that is digested with one batch of the logs. A turn
that does not come to its end waits for an answer, or for its logs, without end.

The service, the consumer of logs and the moment of a cancellation are arbitrary.
All that is asked of the consumer is that it is discreet: it gives its lines to
supervision and puts out none itself.

## Main definitions

* `Supervision.announcement`, `Supervision.spoken`: What is said about a state, and
  the lines of a batch.
* `Polled`: The ways a poll may go.
* `Turn`, `Turn.Takes`: What happens in a turn.
* `Turn.utterances`: What is said in a turn.
* `PollTimer.heed`: What an answer makes of the timer.

## Theorems

* `Supervision.report_eq`, `Supervision.emitAll_eq`: What is said is said at once.
* `polled_of_poll`: Every poll goes in one of those ways.
* `Turn.Takes.onward`, `Turn.Takes.polled_eq`, `Turn.Takes.awaited`: When a turn
  polls, and that it awaits the answer.
* `Turn.Takes.polledAt_eq`, `Turn.Takes.transcript_eq`: What it adds to the record.
* `Turn.Takes.result_cases`, `Turn.Takes.heeds`, `Turn.Takes.batch_eq`: What its
  answer makes of the end, of the watch and of the logs.
-/

namespace BatchRun

variable {σ κ : Type}

namespace Supervision

/-- What is said about an attempt: nothing if its state was reported before, and
    otherwise a line, behind a warning if the state is not known. -/
def announcement (runId : String) (reported : Option RunState) (attempt : Attempt) : List Event :=
  if reported = some attempt.state then []
  else
    (if attempt.state.isRecognized then [] else
      [.warned (.unrecognizedState runId attempt.state)]) ++
    [.line (stateLine runId attempt)]

/-- The lines of a batch of the logs, as they are put out. -/
def spoken (lines : List LogLine) : List Event :=
  lines.map fun line => .line line.text

variable (service : Service σ) (tree : FileTree) (limit : Nat)

theorem report_eq (runId : String) (reported : Option RunState) (attempt : Attempt)
    (session : Session σ) :
    report (Session.host service tree limit) runId reported attempt session =
      (some (), session.say (announcement runId reported attempt)) := by
  unfold report announcement
  by_cases hold : reported = some attempt.state
  · rw [if_neg (not_not_intro hold), if_pos hold, Session.say_nil]
    rfl
  · rw [if_pos hold, if_neg hold]
    by_cases hknown : attempt.state.isRecognized = true
    · rw [hknown]
      rfl
    · rw [Bool.not_eq_true] at hknown
      rw [hknown]
      -- The warning and the line are said at once, one behind the other.
      have hboth := Session.say_say session [.warned (.unrecognizedState runId attempt.state)]
        [.line (stateLine runId attempt)]
      exact congrArg (Prod.mk (some ())) hboth

theorem emitAll_eq (lines : List LogLine) (session : Session σ) :
    emitAll (Session.host service tree limit) lines session =
      (some (), session.say (spoken lines)) := by
  induction lines generalizing session with
  | nil => rw [spoken, List.map_nil, Session.say_nil]; rfl
  | cons line rest ih =>
      have hboth := Session.say_say session [.line line.text] (spoken rest)
      exact (ih (session.say [.line line.text])).trans (congrArg (Prod.mk (some ())) hboth)

theorem isOwn_of_mem_announcement {runId : String} {reported : Option RunState}
    {attempt : Attempt} {event : Event} (h : event ∈ announcement runId reported attempt) :
    event.isOwn = true ∧ event.isPoll = false := by
  unfold announcement at h
  by_cases hold : reported = some attempt.state
  · rw [if_pos hold] at h
    exact absurd h List.not_mem_nil
  · rw [if_neg hold, List.mem_append] at h
    rcases h with hwarned | hline
    · by_cases hknown : attempt.state.isRecognized = true
      · rw [if_pos hknown] at hwarned
        exact absurd hwarned List.not_mem_nil
      · rw [if_neg hknown, List.mem_singleton] at hwarned
        rw [hwarned]
        exact ⟨rfl, rfl⟩
    · rw [List.mem_singleton] at hline
      rw [hline]
      exact ⟨rfl, rfl⟩

theorem isOwn_of_mem_spoken {lines : List LogLine} {event : Event} (h : event ∈ spoken lines) :
    event.isOwn = true ∧ event.isPoll = false := by
  rcases List.mem_map.mp h with ⟨line, _, rfl⟩
  exact ⟨rfl, rfl⟩

end Supervision

/-- The ways a poll may go: its answer, the batch of the logs with whether it is
    the last one, what both make of the watch, and the session afterwards. -/
inductive Polled (service : Service σ) (read : Bool → κ → Action σ (List LogLine × κ))
    (handle : RunHandle) (watch : Watch κ) (session : Session σ) :
    Option (Except ServiceError AttemptPage) → Option (Bool × List LogLine) →
      Option (Option Outcome × Watch κ) → Session σ → Prop
  | unanswered {next : Session σ}
      (hasked : Session.ask service (.attempts handle watch.token) session = (none, next)) :
      Polled service read handle watch session none none none next
  | throttled {error : ServiceError} {next : Session σ}
      (hasked : Session.ask service (.attempts handle watch.token) session =
        (some (.error error), next)) (hpatience : error.isThrottling = true) :
      Polled service read handle watch session (some (.error error)) none
        (some (none, { watch with timer := watch.timer.increase })) next
  | refused {error : ServiceError} {next : Session σ}
      (hasked : Session.ask service (.attempts handle watch.token) session =
        (some (.error error), next)) (hfinal : error.isThrottling = false) :
      Polled service read handle watch session (some (.error error)) none
        (some (some (.localError (.listing error)), watch)) next
  | empty {page : AttemptPage} {next : Session σ}
      (hasked : Session.ask service (.attempts handle watch.token) session =
        (some (.ok page), next)) (hlatest : page.latest = none) :
      Polled service read handle watch session (some (.ok page)) none
        (some (some (.localError (.noAttempts handle.runId)),
          { watch with timer := watch.timer.reset })) next
  | unread {page : AttemptPage} {attempt : Attempt} {answered next : Session σ}
      (hasked : Session.ask service (.attempts handle watch.token) session =
        (some (.ok page), answered)) (hlatest : page.latest = some attempt)
      (hstuck : read attempt.state.isTerminal watch.logs
        (answered.say (Supervision.announcement handle.runId watch.reported attempt)) =
        (none, next)) :
      Polled service read handle watch session (some (.ok page)) none none next
  | digested {page : AttemptPage} {attempt : Attempt} {answered middle : Session σ}
      {lines : List LogLine} {logs : κ}
      (hasked : Session.ask service (.attempts handle watch.token) session =
        (some (.ok page), answered)) (hlatest : page.latest = some attempt)
      (hread : read attempt.state.isTerminal watch.logs
        (answered.say (Supervision.announcement handle.runId watch.reported attempt)) =
        (some (lines, logs), middle)) :
      Polled service read handle watch session (some (.ok page))
        (some (attempt.state.isTerminal, lines))
        (some (Outcome.ofAttempt? handle.runId attempt,
          { timer := watch.timer.reset
            reported := some attempt.state
            token := page.nextToken.or watch.token
            logs }))
        (middle.say (Supervision.spoken lines))

/-- What happens in a turn of supervision. -/
structure Turn (σ κ : Type) where
  /-- What was carried into it. -/
  watch : Watch κ
  /-- The session in which its pause begins. -/
  begun : Session σ
  /-- The session in which it polls. -/
  polled : Session σ
  /-- The answer to its poll, if there is one. -/
  answer : Option (Except ServiceError AttemptPage)
  /-- The batch that was read of the logs, and whether it is the last one, if logs
      were read. -/
  batch : Option (Bool × List LogLine)
  /-- The outcome it decides, if it does, and what it leaves, if it comes to its
      end. -/
  result : Option (Option Outcome × Watch κ)
  /-- The session in which it is over. -/
  ended : Session σ

/-- A turn begins where supervision has come to. It waits as long as the timer says,
    without being cancelled, and polls then. -/
structure Turn.Takes (service : Service σ) (read : Bool → κ → Action σ (List LogLine × κ))
    (handle : RunHandle) (turn : Turn σ κ) (watch : Watch κ) (session : Session σ) : Prop where
  watch_eq : turn.watch = watch
  begun_eq : turn.begun = session
  paused : Session.pause turn.watch.timer.wait turn.begun = (some false, turn.polled)
  polls : Polled service read handle turn.watch turn.polled turn.answer turn.batch turn.result
    turn.ended

/-- What an answer makes of the timer. -/
def PollTimer.heed (timer : PollTimer) : Except ServiceError AttemptPage → PollTimer
  | .ok _ => timer.reset
  | .error error => if error.isThrottling then timer.increase else timer

/-- The attempt that a turn sees, if its answer is a page that shows one. -/
def Turn.attempt? (turn : Turn σ κ) : Option Attempt :=
  match turn.answer with
  | some (.ok page) => page.latest
  | _ => none

/-- What supervision says in a turn, behind its poll, if some state was reported
    before. -/
def Turn.utterances (runId : String) (reported : Option RunState) (turn : Turn σ κ) :
    List Event :=
  turn.attempt?.elim [] fun attempt =>
    Supervision.announcement runId reported attempt ++
      turn.batch.elim [] fun batch => Supervision.spoken batch.2

variable {service : Service σ} {read : Bool → κ → Action σ (List LogLine × κ)}
  {handle : RunHandle}

/-! ## One turn -/

namespace Supervision

variable (tree : FileTree) (limit : Nat) (watch : Watch κ) {page : AttemptPage}
  {session : Session σ}

theorem digest_of_none (runId : String) (hlatest : page.latest = none) :
    digest (Session.host service tree limit) read runId watch page session =
      (some (some (.localError (.noAttempts runId)), watch), session) := by
  unfold digest
  rw [hlatest]
  rfl

/-- The logs are read behind the line about the state. -/
theorem digest_of_unread {runId : String} {attempt : Attempt} {next : Session σ}
    (hlatest : page.latest = some attempt)
    (hstuck : read attempt.state.isTerminal watch.logs
      (session.say (announcement runId watch.reported attempt)) = (none, next)) :
    digest (Session.host service tree limit) read runId watch page session = (none, next) := by
  unfold digest
  rw [hlatest]
  exact (Action.bind_of_some (report_eq service tree limit runId watch.reported attempt
    session)).trans (Action.bind_of_none hstuck)

/-- The lines of a batch are put out at once when it is there. -/
theorem digest_of_read {runId : String} {attempt : Attempt} {middle : Session σ}
    {lines : List LogLine} {logs : κ} (hlatest : page.latest = some attempt)
    (hread : read attempt.state.isTerminal watch.logs
      (session.say (announcement runId watch.reported attempt)) = (some (lines, logs), middle)) :
    digest (Session.host service tree limit) read runId watch page session =
      (some (Outcome.ofAttempt? runId attempt,
        { watch with
          logs, reported := some attempt.state, token := page.nextToken.or watch.token }),
        middle.say (spoken lines)) := by
  unfold digest
  rw [hlatest]
  exact (Action.bind_of_some (report_eq service tree limit runId watch.reported attempt
    session)).trans ((Action.bind_of_some hread).trans
      (Action.bind_of_some (emitAll_eq service tree limit lines middle)))

end Supervision

/-- Every poll goes in one of these ways. -/
theorem polled_of_poll (tree : FileTree) (limit : Nat) (watch : Watch κ) (session : Session σ) :
    ∃ answer batch, Polled service read handle watch session answer batch
      (Supervision.poll (Session.host service tree limit) read handle watch session).1
      (Supervision.poll (Session.host service tree limit) read handle watch session).2 := by
  rcases hpoll : Supervision.poll (Session.host service tree limit) read handle watch session with
    ⟨result, next⟩
  unfold Supervision.poll at hpoll
  -- There is no answer, or an error, or a page, which may show an attempt.
  rcases hasked : Session.ask service (.attempts handle watch.token) session with
    ⟨_ | error | page, answered⟩
  · have hstuck := (Action.bind_of_none hasked).symm.trans hpoll
    rw [Prod.mk.injEq] at hstuck
    rw [← hstuck.1, ← hstuck.2]
    exact ⟨none, none, .unanswered hasked⟩
  · have hfailed := (Action.bind_of_some hasked).symm.trans hpoll
    simp only at hfailed
    by_cases hpatience : error.isThrottling = true
    · rw [if_pos hpatience] at hfailed
      rw [← congrArg Prod.fst hfailed, ← congrArg Prod.snd hfailed]
      exact ⟨some (.error error), none, .throttled hasked hpatience⟩
    · rw [if_neg hpatience] at hfailed
      rw [← congrArg Prod.fst hfailed, ← congrArg Prod.snd hfailed]
      exact ⟨some (.error error), none, .refused hasked (by rwa [Bool.not_eq_true] at hpatience)⟩
  · have hpage := (Action.bind_of_some hasked).symm.trans hpoll
    simp only at hpage
    cases hlatest : AttemptPage.latest page with
    | none =>
        have hempty :=
          (Supervision.digest_of_none tree limit _ handle.runId hlatest).symm.trans hpage
        rw [Prod.mk.injEq] at hempty
        rw [← hempty.1, ← hempty.2]
        exact ⟨some (.ok page), none, .empty hasked hlatest⟩
    | some attempt =>
        rcases hread : read attempt.state.isTerminal watch.logs
          (answered.say (Supervision.announcement handle.runId watch.reported attempt)) with
          ⟨_ | ⟨lines, logs⟩, middle⟩
        · have hunread := (Supervision.digest_of_unread tree limit
            { watch with timer := watch.timer.reset } hlatest hread).symm.trans hpage
          rw [Prod.mk.injEq] at hunread
          rw [← hunread.1, ← hunread.2]
          exact ⟨some (.ok page), none, .unread hasked hlatest hread⟩
        · have hdigested := (Supervision.digest_of_read tree limit
            { watch with timer := watch.timer.reset } hlatest hread).symm.trans hpage
          rw [Prod.mk.injEq] at hdigested
          rw [← hdigested.1, ← hdigested.2]
          exact ⟨some (.ok page), _, .digested hasked hlatest hread⟩

namespace Polled

variable {watch after : Watch κ} {session next : Session σ}
  {answer : Option (Except ServiceError AttemptPage)} {batch : Option (Bool × List LogLine)}
  {result : Option (Option Outcome × Watch κ)}

/-- The session goes on. -/
theorem onward (hread : ∀ flush logs, (read flush logs).Discreet)
    (h : Polled service read handle watch session answer batch result next) :
    session.Onward next := by
  have hcall := Session.onward_ask service (.attempts handle watch.token) session
  cases h with
  | unanswered hasked | throttled hasked _ | refused hasked _ | empty hasked _ =>
      rw [hasked] at hcall
      exact hcall
  | unread hasked hlatest hstuck =>
      rw [hasked] at hcall
      have hlogs := ((hread _ _).of_run hstuck).1
      exact hcall.trans ((Session.Onward.say _ _).trans hlogs)
  | digested hasked hlatest hdone =>
      rw [hasked] at hcall
      have hlogs := ((hread _ _).of_run hdone).1
      exact hcall.trans ((Session.Onward.say _ _).trans (hlogs.trans (Session.Onward.say _ _)))

end Polled

/-- A call for attempts goes on the account. -/
theorem Session.account_poll {token : Option String} {session next : Session σ}
    {answer : Option (Except ServiceError AttemptPage)}
    (hasked : Session.ask service (.attempts handle token) session = (answer, next)) :
    next.account = session.account ++ [(session.now, .asked (.attempts handle token))] := by
  have hcall := Session.account_ask service (.attempts handle token) session
  rw [hasked] at hcall
  have hown : ∀ event ∈ [Event.asked (.attempts handle token)], event.isOwn = true := by
    intro event hevent
    rw [List.mem_singleton.mp hevent]
    rfl
  exact hcall.trans (Session.account_say hown session)

namespace Turn.Takes

variable {turn : Turn σ κ} {watch : Watch κ} {session : Session σ}

/-- What a turn adds to the account: a poll at the moment at which it is made, and
    what is said about its answer later on. -/
theorem account_eq (hread : ∀ flush logs, (read flush logs).Discreet)
    (h : turn.Takes service read handle watch session) :
    ∃ later : List (Nat × Event),
      turn.ended.account = turn.polled.account ++
        (turn.polled.now, .asked (.attempts handle turn.watch.token)) :: later ∧
      later.map (·.2) = turn.utterances handle.runId turn.watch.reported := by
  rcases turn with ⟨carried, begun, polled, answer, batch, result, ended⟩
  have hpolls := h.polls
  simp only at hpolls ⊢
  cases hpolls with
  | unanswered hasked | throttled hasked _ | refused hasked _ =>
      exact ⟨[], Session.account_poll hasked, rfl⟩
  | empty hasked hlatest =>
      refine ⟨[], Session.account_poll hasked, ?_⟩
      simp only [utterances, attempt?, hlatest, Option.elim_none, List.map_nil, List.append_nil]
  | @unread page attempt answered _ hasked hlatest hstuck =>
      have hlogs := ((hread _ _).of_run hstuck).2
      rw [Session.account_say fun event hevent =>
        (Supervision.isOwn_of_mem_announcement hevent).1] at hlogs
      refine ⟨(Supervision.announcement handle.runId carried.reported attempt).map
        fun event => (answered.now, event), ?_, ?_⟩
      · rw [hlogs, Session.account_poll hasked, List.append_assoc, List.singleton_append]
      · simp only [utterances, attempt?, hlatest, Option.elim_some, Option.elim_none,
          List.append_nil, List.map_map, Function.comp_def, List.map_id_fun', id_eq]
  | @digested page attempt answered middle lines logs hasked hlatest hdone =>
      have hlogs := ((hread _ _).of_run hdone).2
      rw [Session.account_say fun event hevent =>
        (Supervision.isOwn_of_mem_announcement hevent).1] at hlogs
      refine ⟨((Supervision.announcement handle.runId carried.reported attempt).map
        fun event => (answered.now, event)) ++
        ((Supervision.spoken lines).map fun event => (middle.now, event)), ?_, ?_⟩
      · rw [Session.account_say fun event hevent => (Supervision.isOwn_of_mem_spoken hevent).1,
          hlogs, Session.account_poll hasked, List.append_assoc, List.append_assoc,
          List.singleton_append]
      · simp only [utterances, attempt?, hlatest, Option.elim_some, List.map_append, List.map_map,
          Function.comp_def, List.map_id_fun', id_eq]

/-- A session goes on in a turn. -/
theorem onward (hread : ∀ flush logs, (read flush logs).Discreet)
    (h : turn.Takes service read handle watch session) :
    session.Onward turn.polled ∧ turn.polled.Onward turn.ended := by
  refine ⟨?_, h.polls.onward hread⟩
  rcases Session.passes_of_pause h.paused with ⟨now, hnow, hpolled⟩
  rw [hpolled, ← h.begun_eq]
  exact .passes hnow

/-- Nothing happens in a pause. -/
theorem account_polled (h : turn.Takes service read handle watch session) :
    turn.polled.account = session.account := by
  rcases Session.passes_of_pause h.paused with ⟨now, _, hpolled⟩
  rw [hpolled, h.begun_eq]
  rfl

/-- Without a limit a turn polls when its wait is over, and is not cancelled by
    then. -/
theorem polled_eq (h : turn.Takes service read handle watch session)
    (hlimit : session.deadline = none) :
    turn.polled = { session with now := session.now + watch.timer.wait.nanos } ∧
      ¬ turn.polled.IsCancelled := by
  have hpaused := h.paused
  rw [h.watch_eq, h.begun_eq] at hpaused
  rcases Session.pause_cases watch.timer.wait hlimit with
    ⟨moment, _, _, hpause⟩ | ⟨hahead, hpause⟩
  · rw [hpause, Prod.mk.injEq] at hpaused
    exact absurd hpaused.1 (by simp only [Option.some.injEq, Bool.true_eq_false,
      not_false_eq_true])
  · rw [hpause, Prod.mk.injEq] at hpaused
    refine ⟨hpaused.2.symm, ?_⟩
    rintro ⟨moment, hmoment, hdue⟩
    rw [← hpaused.2] at hmoment hdue
    exact absurd hdue (Nat.not_le_of_lt (hahead moment hmoment))

/-- Without a limit an answer that comes at all is awaited, whatever happens
    meanwhile. -/
theorem awaited (hread : ∀ flush logs, (read flush logs).Discreet)
    (h : turn.Takes service read handle watch session) (hlimit : session.deadline = none)
    {span : Span} (hdelay :
      (service.reply (.attempts handle turn.watch.token) turn.polled.state).delay = some span) :
    turn.answer =
        some (service.reply (.attempts handle turn.watch.token) turn.polled.state).answer ∧
      turn.polled.now + span.nanos ≤ turn.ended.now := by
  have hgone := h.onward hread
  have hasked := Session.ask_of_delay (hgone.1.deadline_eq.trans hlimit) hdelay
  rcases turn with ⟨carried, begun, polled, answer, batch, result, ended⟩
  have hpolls := h.polls
  simp only at hpolls hasked ⊢
  have hlater : ∀ {answer next}, Session.ask service (.attempts handle carried.token) polled =
      (answer, next) →
      some (service.reply (.attempts handle carried.token) polled.state).answer = answer ∧
        polled.now + span.nanos = next.now := by
    intro answer next hother
    rw [hasked, Prod.mk.injEq] at hother
    exact ⟨hother.1, congrArg Session.now hother.2⟩
  cases hpolls with
  | unanswered hother =>
      exact absurd (hlater hother).1 (by simp only [reduceCtorEq, not_false_eq_true])
  | throttled hother _ | refused hother _ | empty hother _ =>
      exact ⟨(hlater hother).1.symm, Nat.le_of_eq (hlater hother).2⟩
  | unread hother hlatest hstuck =>
      have hlogs := ((hread _ _).of_run hstuck).1.now_le
      exact ⟨(hlater hother).1.symm, Nat.le_trans (Nat.le_of_eq (hlater hother).2) hlogs⟩
  | digested hother hlatest hdone =>
      have hlogs := ((hread _ _).of_run hdone).1.now_le
      exact ⟨(hlater hother).1.symm, Nat.le_trans (Nat.le_of_eq (hlater hother).2) hlogs⟩

/-- An answer that comes with a cancellation leaves a turn that ends cancelled. -/
theorem isCancelled_of_cancels (hread : ∀ flush logs, (read flush logs).Discreet)
    (h : turn.Takes service read handle watch session) (hanswer : turn.answer ≠ none)
    (hcancels :
      (service.reply (.attempts handle turn.watch.token) turn.polled.state).cancels = true) :
    turn.ended.IsCancelled := by
  rcases turn with ⟨carried, begun, polled, answer, batch, result, ended⟩
  have hpolls := h.polls
  simp only at hpolls hanswer hcancels ⊢
  cases hpolls with
  | unanswered => exact absurd rfl hanswer
  | throttled hasked _ | refused hasked _ | empty hasked _ =>
      exact Session.isCancelled_of_ask hasked hcancels
  | unread hasked hlatest hstuck =>
      have hlogs := ((hread _ _).of_run hstuck).1
      exact ((Session.Onward.say _ _).trans hlogs).isCancelled
        (Session.isCancelled_of_ask hasked hcancels)
  | digested hasked hlatest hdone =>
      have hlogs := ((hread _ _).of_run hdone).1
      exact ((Session.Onward.say _ _).trans (hlogs.trans (Session.Onward.say _ _))).isCancelled
        (Session.isCancelled_of_ask hasked hcancels)

/-- A turn that comes to its end has read one batch of the logs if it has seen an
    attempt, the last one if its state is terminal, and none otherwise. -/
theorem batch_eq (h : turn.Takes service read handle watch session) (hresult : turn.result ≠ none) :
    turn.batch.map (·.1) = turn.attempt?.map (·.state.isTerminal) := by
  rcases turn with ⟨carried, begun, polled, answer, batch, result, ended⟩
  have hpolls := h.polls
  simp only at hpolls hresult ⊢
  cases hpolls with
  | unanswered | unread => exact absurd rfl hresult
  | throttled | refused => rfl
  | empty hasked hlatest => simp only [attempt?, hlatest, Option.map_none]
  | digested hasked hlatest hdone => simp only [attempt?, hlatest, Option.map_some]

/-- Nothing that is said in a turn is a poll. -/
theorem isPoll_of_mem_utterances (h : turn.Takes service read handle watch session) {event : Event}
    (hevent : event ∈ turn.utterances handle.runId turn.watch.reported) : event.isPoll = false := by
  rcases turn with ⟨carried, begun, polled, answer, batch, result, ended⟩
  have hpolls := h.polls
  simp only at hpolls
  cases hpolls with
  | unanswered | throttled | refused => exact absurd hevent List.not_mem_nil
  | empty hasked hlatest =>
      simp only [utterances, attempt?, hlatest, Option.elim_none, List.append_nil] at hevent
      exact absurd hevent List.not_mem_nil
  | unread hasked hlatest hstuck =>
      simp only [utterances, attempt?, hlatest, Option.elim_some, Option.elim_none,
        List.append_nil] at hevent
      exact (Supervision.isOwn_of_mem_announcement hevent).2
  | digested hasked hlatest hdone =>
      simp only [utterances, attempt?, hlatest, Option.elim_some, List.mem_append] at hevent
      rcases hevent with hevent | hevent
      · exact (Supervision.isOwn_of_mem_announcement hevent).2
      · exact (Supervision.isOwn_of_mem_spoken hevent).2

/-- A turn polls once. -/
theorem polledAt_eq (hread : ∀ flush logs, (read flush logs).Discreet)
    (h : turn.Takes service read handle watch session) :
    turn.ended.polledAt = session.polledAt ++ [turn.polled.now] := by
  rcases h.account_eq hread with ⟨later, haccount, hlater⟩
  rw [h.account_polled] at haccount
  rw [Session.polledAt_eq, Session.polledAt_eq, haccount, List.filterMap_append]
  congr 1
  have hnone :
      later.filterMap (fun entry => if entry.2.isPoll then some entry.1 else none) = [] := by
    refine List.filterMap_eq_nil_iff.mpr fun entry hentry => if_neg fun hpoll => ?_
    have hsaid : entry.2 ∈ turn.utterances handle.runId turn.watch.reported := by
      rw [← hlater]
      exact List.mem_map_of_mem hentry
    rw [h.isPoll_of_mem_utterances hsaid] at hpoll
    exact absurd hpoll (by decide)
  rw [List.filterMap_cons, hnone]
  rfl

/-- A turn polls, and then says what it has to say. -/
theorem transcript_eq (hread : ∀ flush logs, (read flush logs).Discreet)
    (h : turn.Takes service read handle watch session) :
    turn.ended.transcript = session.transcript ++
      .asked (.attempts handle turn.watch.token) ::
        turn.utterances handle.runId turn.watch.reported := by
  rcases h.account_eq hread with ⟨later, haccount, hlater⟩
  rw [h.account_polled] at haccount
  rw [Session.transcript, haccount, List.map_append, List.map_cons, hlater]
  rfl

/-- A turn that comes to its end goes by its answer: it decides what the answer
    decides, or goes on if the answer leaves the end open. -/
theorem result_cases (h : turn.Takes service read handle watch session) :
    turn.result = none ∨ ∃ answer after, turn.answer = some answer ∧
      ((∃ outcome, turn.result = some (some outcome, after) ∧
          Decides handle.runId answer outcome) ∨
        (turn.result = some (none, after) ∧ LeavesOpen answer)) := by
  rcases turn with ⟨carried, begun, polled, answer, batch, result, ended⟩
  have hpolls := h.polls
  simp only at hpolls ⊢
  cases hpolls with
  | unanswered | unread => exact Or.inl rfl
  | @throttled error _ hasked hpatience =>
      refine Or.inr ⟨_, _, rfl, Or.inr ⟨rfl, ?_⟩⟩
      cases error with
      | throttled message => exact .throttled message
      | _ => exact absurd hpatience (by simp only [ServiceError.isThrottling,
          Bool.false_eq_true, not_false_eq_true])
  | @refused error _ hasked hfinal =>
      refine Or.inr ⟨_, _, rfl, Or.inl ⟨_, rfl, .refused fun message hthrottled => ?_⟩⟩
      rw [hthrottled] at hfinal
      exact absurd hfinal (by simp only [ServiceError.isThrottling, Bool.true_eq_false,
        not_false_eq_true])
  | @empty page _ hasked hlatest =>
      refine Or.inr ⟨_, _, rfl, Or.inl ⟨_, rfl, ?_⟩⟩
      rcases page with ⟨attempts, token⟩
      rw [AttemptPage.latest, List.getLast?_eq_none_iff] at hlatest
      rw [show attempts = [] from hlatest]
      exact .noAttempts token
  | @digested page attempt answered middle lines logs hasked hlatest hdone =>
      rcases ofAttempt?_decides handle.runId hlatest with
        ⟨outcome, hsome, hdecides⟩ | ⟨hnone, hopen⟩
      · exact Or.inr ⟨_, _, rfl, Or.inl ⟨outcome, by rw [hsome], hdecides⟩⟩
      · exact Or.inr ⟨_, _, rfl, Or.inr ⟨by rw [hnone], hopen⟩⟩

/-- Only with an answer does a turn come to its end. -/
theorem exists_answer (h : turn.Takes service read handle watch session)
    {ended : Option Outcome × Watch κ} (hresult : turn.result = some ended) :
    ∃ answer, turn.answer = some answer := by
  rcases h.result_cases with hnone | ⟨answer, _, hanswer, _⟩
  · rw [hnone] at hresult
    exact absurd hresult (by simp only [reduceCtorEq, not_false_eq_true])
  · exact ⟨answer, hanswer⟩

/-- The outcome of a turn is the one that its answer decides. -/
theorem decides_of_result (h : turn.Takes service read handle watch session) {outcome : Outcome}
    {after : Watch κ} (hresult : turn.result = some (some outcome, after)) :
    ∃ answer, turn.answer = some answer ∧ Decides handle.runId answer outcome := by
  rcases h.result_cases with hnone | ⟨answer, _, hanswer, ⟨other, hother, hdecides⟩ | ⟨hother, _⟩⟩
  · rw [hnone] at hresult
    exact absurd hresult (by simp only [reduceCtorEq, not_false_eq_true])
  · rw [hother, Option.some.injEq, Prod.mk.injEq, Option.some.injEq] at hresult
    rw [hresult.1] at hdecides
    exact ⟨answer, hanswer, hdecides⟩
  · rw [hother, Option.some.injEq, Prod.mk.injEq] at hresult
    exact absurd hresult.1 (by simp only [reduceCtorEq, not_false_eq_true])

/-- If there is none, the answer leaves the end open. -/
theorem leavesOpen_of_result (h : turn.Takes service read handle watch session) {after : Watch κ}
    (hresult : turn.result = some (none, after)) :
    ∃ answer, turn.answer = some answer ∧ LeavesOpen answer := by
  rcases h.result_cases with hnone | ⟨answer, _, hanswer, ⟨other, hother, _⟩ | ⟨_, hopen⟩⟩
  · rw [hnone] at hresult
    exact absurd hresult (by simp only [reduceCtorEq, not_false_eq_true])
  · rw [hother, Option.some.injEq, Prod.mk.injEq] at hresult
    exact absurd hresult.1 (by simp only [reduceCtorEq, not_false_eq_true])
  · exact ⟨answer, hanswer, hopen⟩

/-- What a turn leaves is what its answer makes of the timer and of the state that
    was reported. -/
theorem heeds {answer : Except ServiceError AttemptPage} {decided : Option Outcome}
    {after : Watch κ} (h : turn.Takes service read handle watch session)
    (hanswer : turn.answer = some answer)
    (hresult : turn.result = some (decided, after)) :
    after.timer = watch.timer.heed answer ∧
      after.reported = (observed [answer]).getLast?.or watch.reported := by
  rw [← h.watch_eq]
  rcases turn with ⟨carried, begun, polled, answer, batch, result, ended⟩
  have hpolls := h.polls
  simp only at hpolls hanswer hresult ⊢
  cases hpolls with
  | unanswered | unread => exact absurd hresult (by simp only [reduceCtorEq, not_false_eq_true])
  | throttled hasked hpatience =>
      cases hanswer
      cases hresult
      exact ⟨by simp only [PollTimer.heed, hpatience, if_true], rfl⟩
  | refused hasked hfinal =>
      cases hanswer
      cases hresult
      exact ⟨by simp only [PollTimer.heed, hfinal, Bool.false_eq_true, if_false], rfl⟩
  | empty hasked hlatest =>
      cases hanswer
      cases hresult
      refine ⟨rfl, ?_⟩
      simp only [observed, List.filterMap_cons, hlatest, Option.map_none, List.filterMap_nil,
        List.getLast?_nil, Option.none_or]
  | digested hasked hlatest hdone =>
      cases hanswer
      cases hresult
      refine ⟨rfl, ?_⟩
      simp only [observed, List.filterMap_cons, hlatest, Option.map_some, List.filterMap_nil,
        List.getLast?_singleton, Option.some_or]

end Turn.Takes

end BatchRun
