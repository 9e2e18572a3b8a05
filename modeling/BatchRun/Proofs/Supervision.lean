import BatchRun.Proofs.Session.Quiet
import Mathlib.Data.Stream.Init

/-!
# Verdicts of Supervision

Supervision ends with the first answer that decides something, and as it says.

The answers to the polls are a stream that nobody but supervision reads from.
Some of them decide how the run ends, and all others leave it open, among them
every page whose last attempt has a state that is not known. As long as nobody
cancels, the first decisive answer is waited for, through any number of the
others, whatever the logs are that are read meanwhile.

## Main definitions

* `Decides`, `LeavesOpen`: What an answer says about the run.
* `AttemptFeed`: A service whose answers to the polls are a stream.
* `AttemptFeed.Unobtrusive`: Reading logs without reading from that stream.
* `observed`: The states that were seen.

## Theorems

* `leavesOpen_iff`: Every answer is either decisive or not.
* `result_eq_ok_iff`: The result is good if success was seen last.
* `AttemptFeed.digest_decides`, `AttemptFeed.poll_decides`: One poll goes by its
  answer.
* `AttemptFeed.supervise_goes_on`: Polling goes on behind the other answers.
* `AttemptFeed.supervise_first_decisive`: Supervision goes by the first decisive
  answer.
-/

namespace BatchRun

/-- An answer that decides how a run ends, and what it decides. -/
inductive Decides (runId : String) : Except ServiceError AttemptPage → Outcome → Prop
  | refused {error : ServiceError} (h : ∀ message, error ≠ .throttled message) :
      Decides runId (.error error) (.localError (.listing error))
  | noAttempts (token : Option String) :
      Decides runId (.ok ⟨[], token⟩) (.localError (.noAttempts runId))
  | success (earlier : List Attempt) (number : Nat) (details : String) (token : Option String) :
      Decides runId (.ok ⟨earlier ++ [⟨number, .success, details⟩], token⟩) .succeeded
  | failed (earlier : List Attempt) (number : Nat) (details : String) (token : Option String) :
      Decides runId (.ok ⟨earlier ++ [⟨number, .failed, details⟩], token⟩)
        (.failed ⟨runId, .failed, details⟩)
  | cancelled (earlier : List Attempt) (number : Nat) (details : String)
      (token : Option String) :
      Decides runId (.ok ⟨earlier ++ [⟨number, .cancelled, details⟩], token⟩)
        (.cancelled ⟨runId, .cancelled, details⟩)

/-- An answer that leaves open how a run ends. -/
inductive LeavesOpen : Except ServiceError AttemptPage → Prop
  | throttled (message : String) : LeavesOpen (.error (.throttled message))
  | underWay (earlier : List Attempt) {attempt : Attempt} (token : Option String)
      (hsuccess : attempt.state ≠ .success) (hfailed : attempt.state ≠ .failed)
      (hcancelled : attempt.state ≠ .cancelled) :
      LeavesOpen (.ok ⟨earlier ++ [attempt], token⟩)

/-- The states that were seen, each as the latest one of a page. -/
def observed (answers : List (Except ServiceError AttemptPage)) : List RunState :=
  answers.filterMap fun answer =>
    match answer with
    | .ok page => page.latest.map (·.state)
    | .error _ => none

theorem latest_append (earlier : List Attempt) (attempt : Attempt) (token : Option String) :
    AttemptPage.latest ⟨earlier ++ [attempt], token⟩ = some attempt :=
  List.getLast?_concat

/-- The outcome that an attempt decides is the one that its page decides. -/
theorem ofAttempt?_decides (runId : String) {page : AttemptPage} {attempt : Attempt}
    (h : page.latest = some attempt) :
    (∃ outcome, Outcome.ofAttempt? runId attempt = some outcome ∧
        Decides runId (.ok page) outcome) ∨
      (Outcome.ofAttempt? runId attempt = none ∧ LeavesOpen (.ok page)) := by
  rcases List.getLast?_eq_some_iff.mp h with ⟨earlier, hearlier⟩
  rcases page with ⟨attempts, token⟩
  rcases attempt with ⟨number, state, details⟩
  simp only at hearlier
  rw [hearlier]
  cases state with
  | success => exact Or.inl ⟨_, rfl, .success earlier number details token⟩
  | failed => exact Or.inl ⟨_, rfl, .failed earlier number details token⟩
  | cancelled => exact Or.inl ⟨_, rfl, .cancelled earlier number details token⟩
  | _ =>
      exact Or.inr ⟨rfl, .underWay earlier token (by simp only [ne_eq, reduceCtorEq,
        not_false_eq_true]) (by simp only [ne_eq, reduceCtorEq, not_false_eq_true])
        (by simp only [ne_eq, reduceCtorEq, not_false_eq_true])⟩

/-- Every answer either decides something or leaves the end open. -/
theorem decides_or_leavesOpen (runId : String) (answer : Except ServiceError AttemptPage) :
    (∃ outcome, Decides runId answer outcome) ∨ LeavesOpen answer := by
  cases answer with
  | error error =>
      cases error with
      | throttled message => exact Or.inr (.throttled message)
      | _ => exact Or.inl ⟨_, .refused (by simp only [ne_eq, reduceCtorEq, not_false_eq_true,
          implies_true])⟩
  | ok page =>
      cases hlatest : page.latest with
      | none =>
          rcases page with ⟨attempts, token⟩
          rw [AttemptPage.latest, List.getLast?_eq_none_iff] at hlatest
          rw [show attempts = [] from hlatest]
          exact Or.inl ⟨_, .noAttempts token⟩
      | some attempt =>
          rcases ofAttempt?_decides runId hlatest with ⟨outcome, _, hdecides⟩ | ⟨_, hopen⟩
          · exact Or.inl ⟨outcome, hdecides⟩
          · exact Or.inr hopen

/-- What a decisive page decides can be told from its latest attempt. -/
theorem eq_of_decides {runId : String} {page : AttemptPage} {outcome : Outcome}
    (h : Decides runId (.ok page) outcome) :
    page.latest.elim (some (.localError (.noAttempts runId))) (Outcome.ofAttempt? runId) =
      some outcome := by
  cases h with
  | noAttempts token => rfl
  | success earlier number details token => rw [latest_append]; rfl
  | failed earlier number details token => rw [latest_append]; rfl
  | cancelled earlier number details token => rw [latest_append]; rfl

/-- No answer decides two things. -/
theorem decides_unique {runId : String} {answer : Except ServiceError AttemptPage}
    {first second : Outcome} (hfirst : Decides runId answer first)
    (hsecond : Decides runId answer second) : first = second := by
  cases answer with
  | error error =>
      cases hfirst with
      | refused _ =>
          cases hsecond with
          | refused _ => rfl
  | ok page => exact Option.some.inj ((eq_of_decides hfirst).symm.trans (eq_of_decides hsecond))

/-- No answer decides something and leaves the end open. -/
theorem not_decides_of_leavesOpen {runId : String} {answer : Except ServiceError AttemptPage}
    {outcome : Outcome} (hopen : LeavesOpen answer) : ¬ Decides runId answer outcome := by
  intro hdecides
  cases hopen with
  | throttled message =>
      cases hdecides with
      | refused h => exact h message rfl
  | @underWay earlier attempt token hsuccess hfailed hcancelled =>
      have hdecided := eq_of_decides hdecides
      rw [latest_append, Option.elim_some] at hdecided
      have hterminal := Outcome.isSome_ofAttempt? runId attempt
      rw [hdecided, Option.isSome_some] at hterminal
      cases hstate : attempt.state with
      | success => exact hsuccess hstate
      | failed => exact hfailed hstate
      | cancelled => exact hcancelled hstate
      | _ =>
          rw [hstate] at hterminal
          exact absurd (show true = false from hterminal) (by decide)

theorem leavesOpen_iff (runId : String) (answer : Except ServiceError AttemptPage) :
    LeavesOpen answer ↔ ¬ ∃ outcome, Decides runId answer outcome := by
  refine ⟨?_, (decides_or_leavesOpen runId answer).resolve_left⟩
  rintro hopen ⟨outcome, hdecides⟩
  exact not_decides_of_leavesOpen hopen hdecides

theorem observed_append (front back : List (Except ServiceError AttemptPage)) :
    observed (front ++ back) = observed front ++ observed back :=
  List.filterMap_append

theorem observed_latest (earlier : List Attempt) (attempt : Attempt) (token : Option String) :
    observed [.ok ⟨earlier ++ [attempt], token⟩] = [attempt.state] := by
  simp only [observed, List.filterMap_cons, latest_append, Option.map_some, List.filterMap_nil]

/-- An answer that leaves the end open does not show success. -/
theorem success_not_mem_observed {answer : Except ServiceError AttemptPage}
    (h : LeavesOpen answer) : RunState.success ∉ observed [answer] := by
  cases h with
  | throttled message => exact List.not_mem_nil
  | underWay earlier token hsuccess _ _ =>
      rw [observed_latest, List.mem_singleton]
      exact hsuccess.symm

/-- The result is good exactly if the last state that was seen is success. -/
theorem result_eq_ok_iff {runId : String} {answers : Stream' (Except ServiceError AttemptPage)}
    {n : Nat} {outcome : Outcome} (hopen : ∀ i < n, LeavesOpen (answers.get i))
    (hdecides : Decides runId (answers.get n) outcome) :
    outcome.result = .ok () ↔
      (observed (answers.take (n + 1))).getLast? = some RunState.success := by
  have hbefore : RunState.success ∉ observed (answers.take n) := by
    -- The decisive answer stays where it is and has no part in the induction.
    clear hdecides
    induction n with
    | zero => exact List.not_mem_nil
    | succ n ih =>
        rw [Stream'.take_succ', observed_append, List.mem_append, not_or]
        exact ⟨ih fun i hi => hopen i (Nat.lt_succ_of_lt hi),
          success_not_mem_observed (hopen n (Nat.lt_succ_self n))⟩
  have hlast : (observed (answers.take n)).getLast? ≠ some .success :=
    fun h => hbefore (List.mem_of_getLast? h)
  rw [Stream'.take_succ', observed_append]
  -- From here on only the kind of the decisive answer matters.
  generalize answers.get n = answer at hdecides
  cases hdecides with
  | refused _ =>
      rw [show ∀ error, observed [.error error] = [] from fun _ => rfl, List.append_nil]
      exact iff_of_false (by simp only [Outcome.result, reduceCtorEq, not_false_eq_true]) hlast
  | noAttempts token =>
      rw [show observed [.ok ⟨[], token⟩] = [] from rfl, List.append_nil]
      exact iff_of_false (by simp only [Outcome.result, reduceCtorEq, not_false_eq_true]) hlast
  | success earlier number details token =>
      rw [observed_latest, List.getLast?_concat]
      exact iff_of_true rfl rfl
  | failed earlier number details token =>
      rw [observed_latest, List.getLast?_concat]
      simp only [Outcome.result, Option.some.injEq, reduceCtorEq]
  | cancelled earlier number details token =>
      rw [observed_latest, List.getLast?_concat]
      simp only [Outcome.result, Option.some.injEq, reduceCtorEq]

/-- A service that answers polls by a stream, of which every state has the rest,
    and never cancels a run while it does. -/
structure AttemptFeed {σ : Type} (service : Service σ) (handle : RunHandle) where
  /-- The answers that are still to come. -/
  upcoming : σ → Stream' (Except ServiceError AttemptPage)
  answer_eq : ∀ token state,
    (service.reply (.attempts handle token) state).answer = (upcoming state).head
  settled_eq : ∀ token state,
    upcoming (service.reply (.attempts handle token) state).settled = (upcoming state).tail
  /-- Every poll is answered at some time. -/
  delay_ne : ∀ token state, (service.reply (.attempts handle token) state).delay ≠ none
  cancels_eq : ∀ token state, (service.reply (.attempts handle token) state).cancels = false

namespace AttemptFeed

variable {σ κ : Type} {service : Service σ} {handle : RunHandle}

/-- Reading logs comes to its end, takes none of the answers and does not cancel
    the run, whatever else it does. -/
def Unobtrusive (feed : AttemptFeed service handle)
    (read : Bool → κ → Action σ (List LogLine × κ)) : Prop :=
  ∀ flush logs (session : Session σ), session.Quiet →
    ∃ lines after next, read flush logs session = (some (lines, after), next) ∧ next.Quiet ∧
      feed.upcoming next.state = feed.upcoming session.state

/-- Digesting a page ends the supervision if the page is decisive, and then with
    what it decides. -/
theorem digest_decides (feed : AttemptFeed service handle)
    {read : Bool → κ → Action σ (List LogLine × κ)} (hread : feed.Unobtrusive read)
    (tree : FileTree) (limit : Nat) (watch : Watch κ) (page : AttemptPage) {session : Session σ}
    (hquiet : session.Quiet) :
    ∃ decided after next, Supervision.digest (Session.host service tree limit) read handle.runId
        watch page session = (some (decided, after), next) ∧
      next.Quiet ∧ feed.upcoming next.state = feed.upcoming session.state ∧
      ((∃ outcome, decided = some outcome ∧ Decides handle.runId (.ok page) outcome) ∨
        decided = none ∧ LeavesOpen (.ok page)) := by
  unfold Supervision.digest
  cases hlatest : page.latest with
  | none =>
      rcases page with ⟨attempts, token⟩
      rw [AttemptPage.latest, List.getLast?_eq_none_iff] at hlatest
      rw [show attempts = [] from hlatest]
      exact ⟨_, _, session, rfl, hquiet, rfl, Or.inl ⟨_, rfl, .noAttempts token⟩⟩
  | some attempt =>
      rcases Supervision.report_says service tree limit handle.runId watch.reported attempt session
        with ⟨told, hreport⟩
      rcases hread attempt.state.isTerminal watch.logs _ (Session.quiet_of_events hquiet told) with
        ⟨lines, logs, middle, hlines, hmiddle, hkept⟩
      rcases Supervision.emitAll_says service tree limit lines middle with ⟨events, hemit⟩
      refine ⟨_, _, _, (Action.bind_of_some hreport).trans ((Action.bind_of_some hlines).trans
        (Action.bind_of_some hemit)), Session.quiet_of_events hmiddle events, hkept, ?_⟩
      exact ofAttempt?_decides handle.runId hlatest

/-- One poll takes one answer, and ends the supervision if that is decisive, and
    then with what it decides. -/
theorem poll_decides (feed : AttemptFeed service handle)
    {read : Bool → κ → Action σ (List LogLine × κ)} (hread : feed.Unobtrusive read)
    (tree : FileTree) (limit : Nat) (watch : Watch κ) {session : Session σ}
    (hquiet : session.Quiet) :
    ∃ decided after next, Supervision.poll (Session.host service tree limit) read handle watch
        session = (some (decided, after), next) ∧
      next.Quiet ∧ feed.upcoming next.state = (feed.upcoming session.state).tail ∧
      ((∃ outcome, decided = some outcome ∧
          Decides handle.runId (feed.upcoming session.state).head outcome) ∨
        decided = none ∧ LeavesOpen (feed.upcoming session.state).head) := by
  rcases Session.ask_of_quiet hquiet (feed.delay_ne watch.token session.state)
    (feed.cancels_eq watch.token session.state) with ⟨middle, hcall, hmiddle, hstate⟩
  rw [feed.answer_eq] at hcall
  have hupcoming : feed.upcoming middle.state = (feed.upcoming session.state).tail := by
    rw [hstate, feed.settled_eq]
  have hasked : (Session.host service tree limit).call (.attempts handle watch.token) session =
      (some (feed.upcoming session.state).head, middle) := hcall
  unfold Supervision.poll
  rw [Action.bind_of_some hasked]
  cases (feed.upcoming session.state).head with
  | ok page =>
      rcases feed.digest_decides hread tree limit { watch with timer := watch.timer.reset } page
        hmiddle with ⟨decided, after, next, hdigest, hnext, hkept, hverdict⟩
      exact ⟨decided, after, next, hdigest, hnext, hkept.trans hupcoming, hverdict⟩
  | error error =>
      cases error with
      | throttled message =>
          exact ⟨_, _, middle, rfl, hmiddle, hupcoming, Or.inr ⟨rfl, .throttled message⟩⟩
      | _ =>
          exact ⟨_, _, middle, rfl, hmiddle, hupcoming, Or.inl ⟨_, rfl, .refused (by
            simp only [ne_eq, reduceCtorEq, not_false_eq_true, implies_true])⟩⟩

/-- Answers that leave the end open let the supervision go on. -/
theorem supervise_goes_on (feed : AttemptFeed service handle)
    {read : Bool → κ → Action σ (List LogLine × κ)} (hread : feed.Unobtrusive read)
    (tree : FileTree) (limit rounds more : Nat) (watch : Watch κ) {session : Session σ}
    (hquiet : session.Quiet)
    (hopen : ∀ i < rounds, LeavesOpen ((feed.upcoming session.state).get i)) :
    ∃ after next, next.Quiet ∧
      feed.upcoming next.state = (feed.upcoming session.state).drop rounds ∧
      Supervision.supervise (Session.host service tree limit) read handle (rounds + more) watch
        session =
      Supervision.supervise (Session.host service tree limit) read handle more after next := by
  induction rounds generalizing watch session with
  | zero => exact ⟨watch, session, hquiet, rfl, by rw [Nat.zero_add]⟩
  | succ rounds ih =>
      have hpause := Session.pause_of_quiet hquiet watch.timer.wait
      have hwaited : { session with now := session.now + watch.timer.wait.nanos }.Quiet :=
        ⟨hquiet.deadline, hquiet.cancelAt⟩
      rcases feed.poll_decides hread tree limit watch hwaited with
        ⟨decided, watched, middle, hpoll, hmiddle, hupcoming, ⟨outcome, _, hdecides⟩ | ⟨rfl, _⟩⟩
      · -- The first answer leaves the end open, so it decides nothing.
        exact absurd hdecides (not_decides_of_leavesOpen (hopen 0 (Nat.succ_pos _)))
      · rcases ih watched hmiddle (fun i hi => by
          rw [hupcoming]
          exact hopen (i + 1) (Nat.succ_lt_succ hi)) with ⟨after, next, hnext, hdrop, hrest⟩
        refine ⟨after, next, hnext, ?_, ?_⟩
        · rw [hdrop, hupcoming]
          rfl
        · rw [Nat.succ_add, ← hrest]
          exact (Action.bind_of_some hpause).trans (Action.bind_of_some hpoll)

/-- Supervision goes by the first decisive answer. As long as the answers leave
    the end open, it goes on polling. -/
theorem supervise_first_decisive (feed : AttemptFeed service handle)
    {read : Bool → κ → Action σ (List LogLine × κ)} (hread : feed.Unobtrusive read)
    (tree : FileTree) (limit rounds : Nat) (watch : Watch κ) {session : Session σ}
    (hquiet : session.Quiet) :
    (∀ answer, LeavesOpen answer ↔ ¬ ∃ outcome, Decides handle.runId answer outcome) ∧
    (∀ n outcome, n < rounds → (∀ i < n, LeavesOpen ((feed.upcoming session.state).get i)) →
      Decides handle.runId ((feed.upcoming session.state).get n) outcome →
      ∃ after final, Supervision.supervise (Session.host service tree limit) read handle rounds
          watch session = (some (outcome, after), final) ∧
        feed.upcoming final.state = (feed.upcoming session.state).drop (n + 1) ∧
        (outcome.result = .ok () ↔
          (observed ((feed.upcoming session.state).take (n + 1))).getLast? =
          some RunState.success)) ∧
    ((∀ i < rounds, LeavesOpen ((feed.upcoming session.state).get i)) →
      ∃ final, Supervision.supervise (Session.host service tree limit) read handle rounds watch
          session = (none, final) ∧
        feed.upcoming final.state = (feed.upcoming session.state).drop rounds) := by
  refine ⟨leavesOpen_iff handle.runId, ?_, ?_⟩
  · intro n outcome hn hopen hdecides
    -- Polling goes on up to the decisive answer, with a round to spare for it.
    rcases Nat.exists_eq_add_of_lt hn with ⟨spare, hrounds⟩
    rcases feed.supervise_goes_on hread tree limit n (spare + 1) watch hquiet hopen with
      ⟨watched, middle, hmiddle, hdrop, hrest⟩
    have hwaited : { middle with now := middle.now + watched.timer.wait.nanos }.Quiet :=
      ⟨hmiddle.deadline, hmiddle.cancelAt⟩
    have hpause := Session.pause_of_quiet hmiddle watched.timer.wait
    have hhead : (feed.upcoming middle.state).head = (feed.upcoming session.state).get n := by
      rw [hdrop, Stream'.head_drop]
    rcases feed.poll_decides hread tree limit watched hwaited with
      ⟨decided, after, final, hpoll, _, htail, ⟨other, rfl, hother⟩ | ⟨_, hundecided⟩⟩
    · rw [hhead] at hother
      refine ⟨after, final, ?_, ?_, result_eq_ok_iff hopen hdecides⟩
      · rw [hrounds, Nat.add_assoc, hrest, ← decides_unique hother hdecides]
        exact (Action.bind_of_some hpause).trans (Action.bind_of_some hpoll)
      · rw [htail, hdrop, Stream'.tail_drop']
    · rw [hhead] at hundecided
      exact absurd hdecides (not_decides_of_leavesOpen hundecided)
  · intro hopen
    rcases feed.supervise_goes_on hread tree limit rounds 0 watch hquiet hopen with
      ⟨after, final, hfinal, hdrop, hrest⟩
    exact ⟨final, hrest.trans (Session.wait_of_quiet service tree limit hfinal), hdrop⟩

end AttemptFeed

/-- A service that has nothing but the answers to the polls. -/
def AttemptFeed.service : Service (Stream' (Except ServiceError AttemptPage)) where
  reply call answers :=
    { delay := some (Span.ofMillis 1)
      abandoned := answers
      settled := match call with
        | .attempts _ _ => answers.tail
        | _ => answers
      answer := match call with
        | .attempts _ _ => answers.head
        | _ => .error (.invalidRequest "")
      cancels := false }

/-- Its answers are a stream. -/
def AttemptFeed.whole (handle : RunHandle) : AttemptFeed AttemptFeed.service handle where
  upcoming := id
  answer_eq _ _ := rfl
  settled_eq _ _ := rfl
  delay_ne _ _ := by simp only [service, ne_eq, reduceCtorEq, not_false_eq_true]
  cancels_eq _ _ := rfl

/-- The answers about a run that fails behind a throttled poll, a second attempt and
    a state that is not known. -/
def AttemptFeed.failing : Stream' (Except ServiceError AttemptPage) :=
  Stream'.cons (.error (.throttled "slow"))
    (Stream'.cons (.ok ⟨[⟨1, .failed, "lost"⟩, ⟨2, .running, ""⟩], some "more"⟩)
      (Stream'.cons (.ok ⟨[⟨2, .other "RESTARTING", ""⟩], none⟩)
        (Stream'.const (.ok ⟨[⟨2, .failed, "gone"⟩], none⟩))))

/-- The run fails as its fourth answer says, while its logs say something every
    time. -/
theorem AttemptFeed.supervise_first_decisive_failing :
    ∃ after final, Supervision.supervise (Session.host AttemptFeed.service FileTree.empty 9)
        (fun flush count => pure ([⟨⟨"SPARK_DRIVER", "stdout"⟩, toString flush⟩], count + 1))
        ⟨"app", "run"⟩ 9 (Watch.start (PollTimer.make (.ofSeconds 1) (.ofSeconds 60)) 0)
        (Session.start failing none) =
      (some (.failed ⟨"run", .failed, "gone"⟩, after), final) := by
  have hquiet : (Session.start failing none).Quiet := ⟨rfl, rfl⟩
  have hopen : ∀ i < 3, LeavesOpen (failing.get i) := fun i hi =>
    match i, hi with
    | 0, _ => .throttled "slow"
    | 1, _ => @LeavesOpen.underWay [⟨1, .failed, "lost"⟩] ⟨2, .running, ""⟩ _ (by decide)
        (by decide) (by decide)
    | 2, _ => @LeavesOpen.underWay [] ⟨2, .other "RESTARTING", ""⟩ _ (by decide) (by decide)
        (by decide)
  rcases (supervise_first_decisive (whole ⟨"app", "run"⟩)
      (fun flush count session hquiet => ⟨_, _, _, rfl, hquiet, rfl⟩) FileTree.empty 9 9 _
      hquiet).2.1 3 _ (by decide) hopen (.failed [] 2 "gone" none) with ⟨after, final, hrun, _⟩
  exact ⟨after, final, hrun⟩

end BatchRun
