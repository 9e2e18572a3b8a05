import BatchRun.Proofs.Supervision.Backoff

/-!
# Cancelling Supervision

What supervision does once the run is cancelled, whenever that is.

A cancellation may come from outside at a given moment, or along with an answer of
the service, to a poll or to a reader of logs. It may come before the first pause,
during a pause, or while a call is under way. In each case no poll is made at that
moment or later on. A poll that is under way is awaited, and its answer counts in
full: the timer heeds it, the line about the state and the lines of the logs are
put out, and if it decides the outcome, that is the outcome. Otherwise the pause
behind it notices the cancellation, and the run is abandoned.

A run that is cancelled does end. Each turn takes as long as the base interval at
least, so only so many of them come before the moment of the cancellation.

## Main definitions

* `HeedsCancellation`: What holds of a run that may be cancelled at any moment.

## Theorems

* `Supervised.not_isCancelled`, `Supervised.last_of_isCancelled`: No poll is made
  after a cancellation.
* `Supervised.paced`: How late a turn polls at least.
* `Supervised.verdict_of_isCancelled`: What a turn leads to in which the run is
  cancelled.
* `Supervised.abandoned_or_ended`: A run is abandoned, or over with its last turn.
* `supervise_heeds_cancellation`: Supervision heeds a cancellation at any moment.
-/

namespace BatchRun

section Heeding

variable {σ κ : Type}

/-- What holds of a run of so many rounds at most, with given turns, that may be
    cancelled at any moment. -/
structure HeedsCancellation (service : Service σ) (handle : RunHandle) (rounds : Nat)
    (watch : Watch κ) (session : Session σ) (turns : List (Turn σ κ))
    (result : Option (Outcome × Watch κ)) (final : Session σ) : Prop where
  /-- The polls on record are those of the turns, one each. -/
  polledAt_eq : final.polledAt = session.polledAt ++ turns.map fun turn => turn.polled.now
  /-- None of them is made when the moment of a cancellation has come. -/
  not_isCancelled : ∀ turn ∈ turns, ¬ turn.polled.IsCancelled ∧
    ∀ moment, session.cancelAt = some moment → turn.polled.now < moment
  /-- An answer that comes at all is awaited. -/
  awaited : ∀ turn ∈ turns, ∀ span,
    (service.reply (.attempts handle turn.watch.token) turn.polled.state).delay = some span →
    turn.answer =
        some (service.reply (.attempts handle turn.watch.token) turn.polled.state).answer ∧
      turn.polled.now + span.nanos ≤ turn.ended.now
  /-- All that is to be said about an answer is put out. -/
  transcript_eq : final.transcript = session.transcript ++ turns.flatMap fun turn =>
    .asked (.attempts handle turn.watch.token) :: turn.utterances handle.runId turn.watch.reported
  /-- One batch of the logs is read if it shows a state, the last one if that is
      terminal. -/
  batch_eq : ∀ turn ∈ turns, turn.result ≠ none →
    turn.batch.map (·.1) = turn.attempt?.map (·.state.isTerminal)
  /-- The timer and the state that was reported are what the answers make of them. -/
  carried : ∀ outcome after, result = some (outcome, after) →
    after.timer = (answersOf turns).foldl PollTimer.heed watch.timer ∧
      after.reported = (observed (answersOf turns)).getLast?.or watch.reported
  /-- A turn ends cancelled if the moment has come by then, or if its answer came with
      a cancellation. -/
  ended : ∀ turn ∈ turns,
    (∀ moment, session.cancelAt = some moment → moment ≤ turn.ended.now →
      turn.ended.IsCancelled) ∧
    ((service.reply (.attempts handle turn.watch.token) turn.polled.state).cancels = true →
      turn.answer ≠ none → turn.ended.IsCancelled)
  /-- A turn in which the run is cancelled is the last one. If it comes to its end, and
      there is a round left for the pause behind it, its own answer decides, or
      else the run is abandoned. -/
  underWay : ∀ earlier turn later, turns = earlier ++ turn :: later → turn.ended.IsCancelled →
    later = [] ∧ ∀ answer, turn.answer = some answer → turn.result ≠ none →
      earlier.length + 1 < rounds →
      (∃ outcome, Decides handle.runId answer outcome ∧ result.map (·.1) = some outcome) ∨
        LeavesOpen answer ∧ result.map (·.1) = some .abandoned
  /-- A run that is cancelled while no turn is under way is abandoned. -/
  inPause : final.IsCancelled → (∀ turn ∈ turns, ¬ turn.ended.IsCancelled) → result ≠ none →
    result.map (·.1) = some .abandoned
  /-- A run ends by an answer or by a cancellation, unless something is waited for
      without end or the rounds are used up. -/
  concludes : Concludes handle.runId rounds final turns (result.map (·.1))
  /-- Enough rounds for the time until the cancellation are not used up. -/
  inTime : ∀ moment, session.cancelAt = some moment → 0 < rounds →
    moment < session.now + rounds * watch.timer.base.nanos →
    (∀ turn ∈ turns, turn.result ≠ none) → result ≠ none
  /-- If the run is cancelled beforehand, nothing happens at all. -/
  beforehand : session.IsCancelled →
    turns = [] ∧ final = session ∧ (0 < rounds → result = some (.abandoned, watch))

variable {service : Service σ} {read : Bool → κ → Action σ (List LogLine × κ)}
  {handle : RunHandle}

/-- The base of a timer stays as it is, and its wait at the base at least, if the cap
    is there too. -/
theorem PollTimer.heed_floor {timer : PollTimer} (hcap : timer.base ≤ timer.cap)
    (hwait : timer.base ≤ timer.wait) (answer : Except ServiceError AttemptPage) :
    (timer.heed answer).base = timer.base ∧ (timer.heed answer).cap = timer.cap ∧
      timer.base ≤ (timer.heed answer).wait := by
  have hcap : timer.base.nanos ≤ timer.cap.nanos := hcap
  have hwait : timer.base.nanos ≤ timer.wait.nanos := hwait
  cases answer with
  | ok page => exact ⟨rfl, rfl, Nat.le_refl _⟩
  | error error =>
      by_cases hpatience : error.isThrottling = true
      · simp only [heed, hpatience, if_true]
        refine ⟨rfl, rfl, ?_⟩
        change timer.base.nanos ≤ timer.increase.wait.nanos
        have hbound : timer.base.nanos ≤ Span.bound - 1 := Nat.le_sub_one_of_lt timer.base.nanos_lt
        rw [increase, Span.nanos_shorter, Span.nanos_longer, Span.nanos_double]
        generalize Span.bound = bound at hbound ⊢
        omega
      · simp only [heed, hpatience, Bool.false_eq_true, if_false]
        exact ⟨trivial, trivial, hwait⟩

namespace Supervised

variable {rounds : Nat} {watch : Watch κ} {session final : Session σ} {turns : List (Turn σ κ)}
  {result : Option (Outcome × Watch κ)}

/-- No turn polls in a session that is cancelled by then. -/
theorem not_isCancelled (hread : ∀ flush logs, (read flush logs).Discreet)
    (hlimit : session.deadline = none)
    (h : Supervised service read handle rounds watch session turns result final)
    {turn : Turn σ κ} (hturn : turn ∈ turns) : ¬ turn.polled.IsCancelled := by
  rcases (h.onward hread hlimit).2 turn hturn with ⟨hfrom, htakes, _⟩
  exact (htakes.polled_eq (hfrom.deadline_eq.trans hlimit)).2

/-- So no turn polls at the moment of a cancellation or later. -/
theorem polled_lt (hread : ∀ flush logs, (read flush logs).Discreet)
    (hlimit : session.deadline = none)
    (h : Supervised service read handle rounds watch session turns result final)
    {turn : Turn σ κ} (hturn : turn ∈ turns) {moment : Nat}
    (hmoment : session.cancelAt = some moment) : turn.polled.now < moment := by
  rcases (h.onward hread hlimit).2 turn hturn with ⟨hfrom, htakes, _⟩
  have honward := hfrom.trans (htakes.onward hread).1
  refine Nat.lt_of_not_le fun hpast => h.not_isCancelled hread hlimit hturn ?_
  exact honward.isCancelled_of_le hmoment hpast

/-- A turn in which the run is cancelled is the last one. -/
theorem last_of_isCancelled (hread : ∀ flush logs, (read flush logs).Discreet)
    (hlimit : session.deadline = none) {earlier : List (Turn σ κ)} {turn : Turn σ κ}
    {later : List (Turn σ κ)}
    (h : Supervised service read handle rounds watch session (earlier ++ turn :: later) result
      final) (hcancelled : turn.ended.IsCancelled) : later = [] := by
  cases later with
  | nil => rfl
  | cons next rest =>
      -- The next turn would poll in a session that has gone on from there.
      have hbetween : turn.ended.Onward next.begun :=
        (List.pairwise_cons.mp (List.pairwise_append.mp (h.pairwise_onward hread hlimit)).2.1).1
          next (List.mem_cons_self ..)
      have hnext : next ∈ earlier ++ turn :: next :: rest :=
        List.mem_append_right _ (List.mem_cons_of_mem _ (List.mem_cons_self ..))
      have hpolled := ((h.onward hread hlimit).2 next hnext).2.1.onward hread
      exact absurd ((hbetween.trans hpolled.1).isCancelled hcancelled)
        (h.not_isCancelled hread hlimit hnext)

/-- Every turn polls later than the one before by the base interval at least. -/
theorem paced (hread : ∀ flush logs, (read flush logs).Discreet)
    (hlimit : session.deadline = none) (hcap : watch.timer.base ≤ watch.timer.cap)
    (hwait : watch.timer.base ≤ watch.timer.wait) {earlier : List (Turn σ κ)} {turn : Turn σ κ}
    {later : List (Turn σ κ)}
    (h : Supervised service read handle rounds watch session (earlier ++ turn :: later) result
      final) :
    session.now + (earlier.length + 1) * watch.timer.base.nanos ≤ turn.polled.now := by
  have hfloor : watch.timer.base.nanos ≤ watch.timer.wait.nanos := hwait
  induction earlier generalizing rounds watch session with
  | nil =>
      have hpolled := congrArg Session.now (h.first.polled_eq hlimit).1
      simp only at hpolled
      rw [List.length_nil, Nat.zero_add, Nat.one_mul, hpolled]
      omega
  | cons head front ih =>
      rcases h.rest (List.append_ne_nil_of_right_ne_nil _ (List.cons_ne_nil _ _)) with
        ⟨left, after, hresult, hrest⟩
      rcases h.first.exists_answer hresult with ⟨answer, hanswer⟩
      have hgone := h.first.onward hread
      have hpolled := congrArg Session.now (h.first.polled_eq hlimit).1
      simp only at hpolled
      -- What is left of the timer has the same base and waits no less.
      have htimer := (h.first.heeds hanswer hresult).1
      rcases PollTimer.heed_floor hcap hwait answer with ⟨hbase, hsame, hlong⟩
      rw [← htimer] at hbase hsame hlong
      have hnext := ih (hgone.2.deadline_eq.trans (hgone.1.deadline_eq.trans hlimit))
        (by rwa [hbase, hsame]) (by rwa [hbase]) hrest (by rw [hbase]; exact hlong)
      have hlater := hgone.2.now_le
      rw [hbase] at hnext
      rw [List.length_cons, Nat.succ_mul]
      omega

/-- A turn in which the run is cancelled ends it, by its answer or because the pause
    behind it notices. -/
theorem verdict_of_isCancelled {turn : Turn σ κ} {earlier : List (Turn σ κ)}
    {decided : Option Outcome} {answer : Except ServiceError AttemptPage}
    (h : Concludes handle.runId rounds final (earlier ++ [turn]) decided)
    (hanswer : turn.answer = some answer) (hended : turn.result ≠ none)
    (hrounds : earlier.length + 1 < rounds) :
    (∃ outcome, Decides handle.runId answer outcome ∧ decided = some outcome) ∨
      LeavesOpen answer ∧ decided = some .abandoned := by
  generalize hturns : earlier ++ [turn] = turns at h
  cases h with
  | @decided front last given outcome hfront hgiven hdecides =>
      have hlast : turn = last := List.singleton_inj.mp (List.append_inj' hturns rfl).2
      rw [← hlast, hanswer, Option.some.injEq] at hgiven
      rw [← hgiven] at hdecides
      exact Or.inl ⟨outcome, hdecides, rfl⟩
  | abandoned hopen _ =>
      rcases (hopen turn (hturns ▸ List.mem_append_right _ (List.mem_singleton_self _))).leavesOpen
        with ⟨given, hgiven, hleaves⟩
      rw [hanswer, Option.some.injEq] at hgiven
      rw [← hgiven] at hleaves
      exact Or.inr ⟨hleaves, rfl⟩
  | @stuck front last hfront hstuck =>
      have hlast : turn = last := List.singleton_inj.mp (List.append_inj' hturns rfl).2
      rw [← hlast] at hstuck
      exact absurd hstuck hended
  | spent _ hlength =>
      rw [← hturns, List.length_append, List.length_singleton] at hlength
      omega

/-- A run that is not abandoned is over with its last turn. -/
theorem abandoned_or_ended
    (h : Supervised service read handle rounds watch session turns result final)
    (hresult : result ≠ none) :
    result.map (·.1) = some .abandoned ∨ ∃ last ∈ turns, final = last.ended := by
  induction h with
  | spent | stuck => exact absurd rfl hresult
  | cancelled => exact Or.inl rfl
  | decided => exact Or.inr ⟨_, List.mem_singleton_self _, rfl⟩
  | more _ _ _ ih =>
      rcases ih hresult with habandoned | ⟨last, hlast, hfinal⟩
      · exact Or.inl habandoned
      · exact Or.inr ⟨last, List.mem_cons_of_mem _ hlast, hfinal⟩

/-- A run that is cancelled beforehand does not get to a poll. -/
theorem of_isCancelled (hread : ∀ flush logs, (read flush logs).Discreet)
    (hlimit : session.deadline = none)
    (h : Supervised service read handle rounds watch session turns result final)
    (hcancelled : session.IsCancelled) :
    turns = [] ∧ final = session ∧ (0 < rounds → result = some (.abandoned, watch)) := by
  have hnone : ∀ turn : Turn σ κ, ¬ turn.Takes service read handle watch session := by
    intro turn hturn
    exact (hturn.polled_eq hlimit).2 ((hturn.onward hread).1.isCancelled hcancelled)
  cases h with
  | spent => exact ⟨rfl, rfl, fun hno => absurd hno (Nat.lt_irrefl 0)⟩
  | cancelled hpause =>
      refine ⟨rfl, ?_, fun _ => rfl⟩
      rcases hcancelled with ⟨moment, hmoment, hdue⟩
      have hsoon : moment ≤ session.now + watch.timer.wait.nanos :=
        Nat.le_trans hdue (Nat.le_add_right _ _)
      simp only [Session.pause, hmoment, if_pos hsoon, Prod.mk.injEq, true_and,
        Nat.max_eq_left hdue] at hpause
      rw [← hpause, ← hmoment]
  | stuck hturn _ => exact absurd hturn (hnone _)
  | decided hturn _ => exact absurd hturn (hnone _)
  | more hturn _ _ => exact absurd hturn (hnone _)

/-- Enough rounds for the time until a cancellation are not used up. -/
theorem result_ne_none (hread : ∀ flush logs, (read flush logs).Discreet)
    (hlimit : session.deadline = none) (hcap : watch.timer.base ≤ watch.timer.cap)
    (hwait : watch.timer.base ≤ watch.timer.wait)
    (h : Supervised service read handle rounds watch session turns result final) {moment : Nat}
    (hmoment : session.cancelAt = some moment) (hrounds : 0 < rounds)
    (henough : moment < session.now + rounds * watch.timer.base.nanos)
    (hended : ∀ turn ∈ turns, turn.result ≠ none) : result ≠ none := by
  intro hnone
  have hconcludes := h.concludes hlimit hread
  rw [hnone, Option.map_none] at hconcludes
  cases hconcludes with
  | stuck hfront hlast =>
      exact hended _ (List.mem_append_right _ (List.mem_singleton_self _)) hlast
  | spent hopen hlength =>
      -- The last of so many turns would poll behind the cancellation.
      rcases List.eq_nil_or_concat turns with rfl | ⟨front, last, rfl⟩
      · rw [List.length_nil] at hlength
        omega
      · rw [List.concat_eq_append] at h hlength
        have hpast := h.paced hread hlimit hcap hwait
        have hbefore := h.polled_lt hread hlimit
          (List.mem_append_right _ (List.mem_singleton_self last)) hmoment
        rw [List.length_append, List.length_singleton] at hlength
        rw [hlength] at hpast
        omega

end Supervised

/-- Supervision heeds a cancellation, whatever the service answers and how long it
    takes, and at whatever moment the run is cancelled. -/
theorem supervise_heeds_cancellation (hread : ∀ flush logs, (read flush logs).Discreet)
    (tree : FileTree) (limit rounds : Nat) (base longest : Span) (logs : κ) {session : Session σ}
    (hlimit : session.deadline = none) :
    ∃ turns result final,
      Supervision.supervise (Session.host service tree limit) read handle rounds
        (Watch.start (PollTimer.make base longest) logs) session = (result, final) ∧
      Supervised service read handle rounds (Watch.start (PollTimer.make base longest) logs)
        session turns result final ∧
      HeedsCancellation service handle rounds (Watch.start (PollTimer.make base longest) logs)
        session turns result final := by
  rcases supervised_of_supervise service handle hread tree limit rounds
    (Watch.start (PollTimer.make base longest) logs) hlimit with ⟨turns, hrun⟩
  have hcap : base ≤ longest.longer base := Span.le_longer longest base
  have htakes := fun turn hturn => (hrun.onward hread hlimit).2 turn hturn
  refine ⟨turns, _, _, rfl, hrun, ?_⟩
  constructor
  · exact hrun.polledAt_eq hread
  · exact fun turn hturn => ⟨hrun.not_isCancelled hread hlimit hturn,
      fun moment hmoment => hrun.polled_lt hread hlimit hturn hmoment⟩
  · intro turn hturn span hdelay
    rcases htakes turn hturn with ⟨hfrom, hone, _⟩
    exact hone.awaited hread (hfrom.deadline_eq.trans hlimit) hdelay
  · exact hrun.transcript_eq hread
  · exact fun turn hturn hresult => (htakes turn hturn).2.1.batch_eq hresult
  · intro outcome after hresult
    rw [hresult] at hrun
    refine ⟨hrun.foldl_result fun _ _ _ _ _ _ hturn hanswer hended =>
      (hturn.heeds hanswer hended).1, ?_⟩
    rw [← foldl_observed]
    -- The state that is carried on is folded over the answers like the timer.
    exact hrun.foldl_result fun _ _ _ _ _ _ hturn hanswer hended =>
      (hturn.heeds hanswer hended).2
  · intro turn hturn
    rcases htakes turn hturn with ⟨hfrom, hone, _⟩
    have honward := hfrom.trans ((hone.onward hread).1.trans (hone.onward hread).2)
    exact ⟨fun moment hmoment hpast => honward.isCancelled_of_le hmoment hpast,
      fun hcancels hanswer => hone.isCancelled_of_cancels hread hanswer hcancels⟩
  · intro earlier turn later hturns hcancelled
    have hconcludes := hrun.concludes hlimit hread
    rw [hturns] at hrun hconcludes
    have hlast := hrun.last_of_isCancelled hread hlimit hcancelled
    rw [hlast] at hconcludes
    exact ⟨hlast, fun answer hanswer hended hrounds =>
      Supervised.verdict_of_isCancelled hconcludes hanswer hended hrounds⟩
  · intro hcancelled hturns hended
    rcases hrun.abandoned_or_ended hended with habandoned | ⟨last, hlast, hfinal⟩
    · exact habandoned
    · rw [hfinal] at hcancelled
      exact absurd hcancelled (hturns last hlast)
  · exact hrun.concludes hlimit hread
  · exact fun moment hmoment hrounds henough hended =>
      hrun.result_ne_none hread hlimit hcap (Nat.le_refl _) hmoment hrounds henough hended
  · exact hrun.of_isCancelled hread hlimit

end Heeding

/-- The answers about a run that is seen once before it fails. -/
def AttemptFeed.brief : Stream' (Except ServiceError AttemptPage) :=
  Stream'.cons (.ok ⟨[⟨1, .running, ""⟩], none⟩)
    (Stream'.const (.ok ⟨[⟨1, .failed, "gone"⟩], none⟩))

/-- A reader that puts out whether it reads for the last time. -/
def AttemptFeed.remark : Bool → Nat → Action (Stream' (Except ServiceError AttemptPage))
    (List LogLine × Nat) :=
  fun flush count => pure ([⟨⟨"SPARK_DRIVER", "stdout"⟩, toString flush⟩], count + 1)

/-- Supervision of that run, which is cancelled after three and a half milliseconds.
    Each answer takes a millisecond, and so does each wait. -/
def AttemptFeed.interrupted :
    Option (Outcome × Watch Nat) × Session (Stream' (Except ServiceError AttemptPage)) :=
  Supervision.supervise (Session.host service FileTree.empty 9) remark ⟨"app", "run"⟩ 9
    (Watch.start (PollTimer.make (.ofMillis 1) (.ofMillis 8)) 0)
    (Session.start brief (some 3500000))

/-- The run is cancelled while the poll is under way that shows its failure. That is
    the outcome all the same, and all of it is put out. -/
theorem AttemptFeed.supervise_heeds_cancellation_interrupted :
    ∃ turns, HeedsCancellation service ⟨"app", "run"⟩ 9
        (Watch.start (PollTimer.make (.ofMillis 1) (.ofMillis 8)) 0)
        (Session.start brief (some 3500000)) turns interrupted.1 interrupted.2 ∧
      interrupted.1.map (·.1) = some (.failed ⟨"run", .failed, "gone"⟩) ∧
      interrupted.2.polledAt = [1000000, 3000000] ∧
      interrupted.2.lines = ["run | RUNNING | ", "SPARK_DRIVER | stdout | false",
        "run | FAILED | gone", "SPARK_DRIVER | stdout | true"] := by
  have hread : ∀ flush count, (remark flush count).Discreet :=
    fun _ _ => Action.discreet_pure _
  have hlimit : (Session.start brief (some 3500000)).deadline = none := rfl
  rcases @supervise_heeds_cancellation _ _ service remark ⟨"app", "run"⟩ hread FileTree.empty 9 9
    (.ofMillis 1) (.ofMillis 8) 0 _ hlimit with ⟨turns, result, final, hrun, _, hheeds⟩
  have hinterrupted : interrupted = (result, final) := hrun
  refine ⟨turns, ?_, by decide +kernel⟩
  rw [hinterrupted]
  exact hheeds

end BatchRun
