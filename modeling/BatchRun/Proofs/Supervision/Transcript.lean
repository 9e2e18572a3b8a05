import BatchRun.Proofs.Supervision.Throttling
import BatchRun.Proofs.Supervision.Turns

/-!
# The Transcript of Supervision

Which lines and warnings supervision puts out, in which order, and how it reads the
logs.

What is put out in a turn depends on the attempt that it sees, on the batch that it
reads, and on the state that was seen last before it. The line about the attempt
comes first, unless that state is the same, and the lines of the batch come behind
it, as they were read. A turn that sees no attempt puts out nothing. A warning comes
just before each line about a state that is not known, and nowhere else.

The logs are read once in each turn that sees an attempt, for the last time if its
state is terminal. Nothing is read behind that. A consumer that keeps which calls
were made of it has kept just those.

## Main definitions

* `Turn.lines`, `Turn.warnings`: What a turn puts out.
* `alongTurns`: What some turns give, each with the state that was seen last.
* `Transcribes`: What is put out in a run, and how the logs are read.

## Theorems

* `Supervised.transcript_along`: The transcript of a run by the states that were seen.
* `Supervised.drained_last`: Nothing comes behind the last batch.
* `supervise_transcribes`: Supervision puts out just that.
-/

namespace BatchRun

section Transcripts

variable {σ κ : Type}

/-- The lines that a turn puts out, if some state was seen last before it. -/
def Turn.lines (runId : String) (seen : Option RunState) (turn : Turn σ κ) : List String :=
  turn.attempt?.elim [] fun attempt =>
    (if seen = some attempt.state then [] else [Supervision.stateLine runId attempt]) ++
      turn.batch.elim [] fun batch => batch.2.map (·.text)

/-- The warnings that it puts out. -/
def Turn.warnings (runId : String) (seen : Option RunState) (turn : Turn σ κ) : List Warning :=
  turn.attempt?.elim [] fun attempt =>
    if seen = some attempt.state ∨ attempt.state.isRecognized = true then []
    else [.unrecognizedState runId attempt.state]

/-- What some turns give, one behind the other, each with the state that was seen last
    before it. -/
def alongTurns {α : Type} (f : Option RunState → Turn σ κ → List α) :
    Option RunState → List (Turn σ κ) → List α
  | _, [] => []
  | seen, turn :: rest =>
    f seen turn ++ alongTurns f ((turn.attempt?.map (·.state)).or seen) rest

/-- What is put out in a run with given turns, and how its logs are read, by a consumer
    that keeps which calls were made of it. -/
structure Transcribes (handle : RunHandle) (session : Session σ)
    (turns : List (Turn σ (κ × List Bool))) (result : Option (Outcome × Watch (κ × List Bool)))
    (final : Session σ) : Prop where
  lines_eq : final.lines = session.lines ++ alongTurns (Turn.lines handle.runId) none turns
  warnings_eq : final.warnings =
    session.warnings ++ alongTurns (Turn.warnings handle.runId) none turns
  /-- Polls, warnings and lines, in their order. -/
  transcript_eq : final.transcript = session.transcript ++ alongTurns
    (fun seen turn => .asked (.attempts handle turn.watch.token) ::
      turn.utterances handle.runId seen) none turns
  /-- A turn that comes to its end has read one batch if it has seen an attempt, the
      last one if the state is terminal. -/
  batch_eq : ∀ turn ∈ turns, turn.result ≠ none →
    turn.batch.map (·.1) = turn.attempt?.map (·.state.isTerminal)
  /-- There is no turn behind the last batch. -/
  drained_last : ∀ earlier turn later lines, turns = earlier ++ turn :: later →
    turn.batch = some (true, lines) → later = []
  /-- Those are the calls that the consumer has kept. -/
  calls_eq : ∀ outcome after, result = some (outcome, after) →
    after.logs.2 = (observed (answersOf turns)).map (·.isTerminal)

variable {service : Service σ} {read : Bool → κ → Action σ (List LogLine × κ)}
  {handle : RunHandle}

/-! ## What is put out -/

theorem filterMap_alongTurns {α β : Type} (g : α → Option β)
    (f : Option RunState → Turn σ κ → List α) (seen : Option RunState) (turns : List (Turn σ κ)) :
    (alongTurns f seen turns).filterMap g =
      alongTurns (fun seen turn => (f seen turn).filterMap g) seen turns := by
  induction turns generalizing seen with
  | nil => rfl
  | cons turn rest ih => rw [alongTurns, List.filterMap_append, ih, alongTurns]

theorem Supervision.spoken_lines (lines : List LogLine) :
    (spoken lines).filterMap Event.line? = lines.map (·.text) := by
  rw [spoken, List.filterMap_map]
  exact congrFun List.filterMap_eq_map lines

theorem Supervision.spoken_warnings (lines : List LogLine) :
    (spoken lines).filterMap Event.warning? = [] := by
  rw [spoken, List.filterMap_map]
  exact List.filterMap_eq_nil_iff.mpr fun _ _ => rfl

/-- The lines among what a turn puts out. -/
theorem Turn.utterances_lines (runId : String) (seen : Option RunState) (turn : Turn σ κ) :
    (turn.utterances runId seen).filterMap Event.line? = turn.lines runId seen := by
  unfold utterances lines
  cases turn.attempt? with
  | none => rfl
  | some attempt =>
      simp only [Option.elim_some]
      rw [List.filterMap_append]
      congr 1
      · unfold Supervision.announcement
        by_cases hold : seen = some attempt.state
        · rw [if_pos hold, if_pos hold]
          rfl
        · rw [if_neg hold, if_neg hold, List.filterMap_append]
          by_cases hknown : attempt.state.isRecognized = true
          · rw [if_pos hknown]
            rfl
          · rw [if_neg hknown]
            rfl
      · cases turn.batch with
        | none => rfl
        | some batch => exact Supervision.spoken_lines batch.2

/-- The warnings among it. -/
theorem Turn.utterances_warnings (runId : String) (seen : Option RunState) (turn : Turn σ κ) :
    (turn.utterances runId seen).filterMap Event.warning? = turn.warnings runId seen := by
  unfold utterances warnings
  cases turn.attempt? with
  | none => rfl
  | some attempt =>
      simp only [Option.elim_some]
      have hbatch : (turn.batch.elim [] fun batch => Supervision.spoken batch.2).filterMap
          Event.warning? = [] := by
        cases turn.batch with
        | none => rfl
        | some batch => exact Supervision.spoken_warnings batch.2
      rw [List.filterMap_append, hbatch, List.append_nil]
      unfold Supervision.announcement
      by_cases hold : seen = some attempt.state
      · rw [if_pos hold, if_pos (Or.inl hold)]
        rfl
      · rw [if_neg hold, List.filterMap_append]
        by_cases hknown : attempt.state.isRecognized = true
        · rw [if_pos hknown, if_pos (Or.inr hknown)]
          rfl
        · rw [if_neg hknown, if_neg (not_or.mpr ⟨hold, hknown⟩)]
          rfl

/-- What is reported after a turn is the state that it has seen, or what was reported
    before. -/
theorem Turn.Takes.reported_eq {turn : Turn σ κ} {watch after : Watch κ} {session : Session σ}
    {decided : Option Outcome} (h : turn.Takes service read handle watch session)
    (hresult : turn.result = some (decided, after)) :
    after.reported = (turn.attempt?.map (·.state)).or watch.reported := by
  rcases h.exists_answer hresult with ⟨answer, hanswer⟩
  rw [(h.heeds hanswer hresult).2, attempt?, hanswer]
  cases answer with
  | error error => rfl
  | ok page =>
      simp only [observed, List.filterMap_cons, List.filterMap_nil]
      cases page.latest with
      | none => rfl
      | some attempt => rfl

/-- A turn that reads the last batch decides the outcome. -/
theorem Turn.Takes.decided_of_drained {turn : Turn σ κ} {watch : Watch κ} {session : Session σ}
    {lines : List LogLine} (h : turn.Takes service read handle watch session)
    (hbatch : turn.batch = some (true, lines)) :
    ∃ outcome after, turn.result = some (some outcome, after) := by
  rcases turn with ⟨carried, begun, polled, answer, batch, result, ended⟩
  have hpolls := h.polls
  simp only at hpolls hbatch ⊢
  cases hpolls with
  | unanswered | throttled | refused | empty | unread =>
      exact absurd hbatch (by simp only [reduceCtorEq, not_false_eq_true])
  | @digested page attempt _ _ _ _ hasked hlatest hdone =>
      rw [Option.some.injEq, Prod.mk.injEq] at hbatch
      have hdecided := Outcome.isSome_ofAttempt? handle.runId attempt
      rw [hbatch.1, Option.isSome_iff_exists] at hdecided
      rcases hdecided with ⟨outcome, houtcome⟩
      exact ⟨outcome, _, by rw [houtcome]⟩

namespace Supervised

variable {rounds : Nat} {watch : Watch κ} {session final : Session σ} {turns : List (Turn σ κ)}
  {result : Option (Outcome × Watch κ)}

/-- The transcript of a run depends on the watch only through the states that were
    seen. -/
theorem transcript_along (hread : ∀ flush logs, (read flush logs).Discreet)
    (h : Supervised service read handle rounds watch session turns result final) :
    final.transcript = session.transcript ++ alongTurns
      (fun seen turn => .asked (.attempts handle turn.watch.token) ::
        turn.utterances handle.runId seen) watch.reported turns := by
  induction h with
  | spent => exact (List.append_nil _).symm
  | cancelled hpause =>
      rcases Session.passes_of_pause hpause with ⟨now, _, rfl⟩
      exact (List.append_nil _).symm
  | stuck hturn _ | decided hturn _ =>
      rw [hturn.transcript_eq hread, hturn.watch_eq, alongTurns, alongTurns, List.append_nil,
        hturn.watch_eq]
  | more hturn hresult _ ih =>
      rw [ih, hturn.transcript_eq hread, hturn.reported_eq hresult, alongTurns, hturn.watch_eq,
        List.append_assoc]

/-- A turn that has read the last batch is the last one. -/
theorem drained_last {earlier : List (Turn σ κ)} {turn : Turn σ κ} {later : List (Turn σ κ)}
    {lines : List LogLine}
    (h : Supervised service read handle rounds watch session (earlier ++ turn :: later) result
      final) (hbatch : turn.batch = some (true, lines)) : later = [] := by
  rcases h.suffix with ⟨left, hleft⟩
  by_contra hlater
  rcases hleft.rest hlater with ⟨_, after, hopen, _⟩
  rcases hleft.first.decided_of_drained hbatch with ⟨outcome, other, hdecided⟩
  rw [hopen, Option.some.injEq, Prod.mk.injEq] at hdecided
  exact absurd hdecided.1 (by simp only [reduceCtorEq, not_false_eq_true])

end Supervised

/-! ## Calls of the consumer -/

/-- A consumer that keeps which calls were made of it is no less discreet. -/
theorem Action.discreet_recorded (hread : ∀ flush logs, (read flush logs).Discreet) (flush : Bool)
    (logs : κ × List Bool) : (recorded read flush logs).Discreet :=
  Action.discreet_bind (hread flush logs.1) fun _ => Action.discreet_pure _

/-- A turn makes one call of a consumer for each state that it sees. -/
theorem Turn.Takes.calls_eq {turn : Turn σ (κ × List Bool)} {watch after : Watch (κ × List Bool)}
    {session : Session σ} {answer : Except ServiceError AttemptPage} {decided : Option Outcome}
    (h : turn.Takes service (recorded read) handle watch session)
    (hanswer : turn.answer = some answer) (hresult : turn.result = some (decided, after)) :
    after.logs.2 = watch.logs.2 ++ (observed [answer]).map (·.isTerminal) := by
  rw [← h.watch_eq]
  rcases turn with ⟨carried, begun, polled, given, batch, result, ended⟩
  have hpolls := h.polls
  simp only at hpolls hanswer hresult ⊢
  cases hpolls with
  | unanswered | unread => exact absurd hresult (by simp only [reduceCtorEq, not_false_eq_true])
  | throttled | refused =>
      cases hanswer
      cases hresult
      exact (List.append_nil _).symm
  | empty hasked hlatest =>
      cases hanswer
      cases hresult
      simp only [observed, List.filterMap_cons, hlatest, Option.map_none, List.filterMap_nil,
        List.map_nil, List.append_nil]
  | digested hasked hlatest hdone =>
      cases hanswer
      cases hresult
      rcases Action.eq_of_bind hdone with ⟨given, middle, _, hkept⟩
      have hlogs := (Prod.mk.inj (Action.eq_of_pure hkept).1).2
      simp only [observed, List.filterMap_cons, hlatest, Option.map_some, List.filterMap_nil,
        List.map_cons, List.map_nil]
      rw [← hlogs]

theorem foldl_calls (calls : List Bool) (answers : List (Except ServiceError AttemptPage)) :
    answers.foldl (fun calls answer => calls ++ (observed [answer]).map (·.isTerminal)) calls =
      calls ++ (observed answers).map (·.isTerminal) := by
  induction answers generalizing calls with
  | nil => exact (List.append_nil _).symm
  | cons answer rest ih =>
      have hfirst : observed (answer :: rest) = observed [answer] ++ observed rest :=
        observed_append [answer] rest
      rw [List.foldl_cons, ih, hfirst, List.map_append, List.append_assoc]

/-- The calls of a consumer that are kept in a run, one for each state that was
    seen. -/
theorem Supervised.calls_eq {rounds : Nat} {watch after : Watch (κ × List Bool)}
    {session final : Session σ} {turns : List (Turn σ (κ × List Bool))} {outcome : Outcome}
    (h : Supervised service (recorded read) handle rounds watch session turns
      (some (outcome, after)) final) :
    after.logs.2 = watch.logs.2 ++ (observed (answersOf turns)).map (·.isTerminal) := by
  rw [← foldl_calls]
  exact h.foldl_result (f := fun watch => watch.logs.2)
    (g := fun calls answer => calls ++ (observed [answer]).map (·.isTerminal))
    fun _ _ _ _ _ _ hturn hanswer hresult => hturn.calls_eq hanswer hresult

/-- Supervision puts out just what the states it has seen and the batches it has read
    call for, in that order, and reads the logs once for each state. The consumer is
    any one that puts out nothing itself, and is the same whether or not it keeps
    which calls are made of it. -/
theorem supervise_transcribes (hread : ∀ flush logs, (read flush logs).Discreet) (tree : FileTree)
    (limit rounds : Nat) (timer : PollTimer) (logs : κ) {session : Session σ}
    (hlimit : session.deadline = none) :
    ∃ turns result final,
      Supervision.supervise (Session.host service tree limit) (recorded read) handle rounds
        (Watch.start timer (logs, [])) session = (result, final) ∧
      Supervision.supervise (Session.host service tree limit) read handle rounds
        (Watch.start timer logs) session =
        (result.map fun ended => (ended.1, ended.2.unrecorded), final) ∧
      Supervised service (recorded read) handle rounds (Watch.start timer (logs, [])) session turns
        result final ∧
      Transcribes handle session turns result final := by
  have hkept := Action.discreet_recorded hread
  rcases supervised_of_supervise service handle hkept tree limit rounds
    (Watch.start timer (logs, [])) hlimit with ⟨turns, hturns⟩
  rcases hrun : Supervision.supervise (Session.host service tree limit) (recorded read) handle
    rounds (Watch.start timer (logs, [])) session with ⟨result, final⟩
  rw [hrun] at hturns
  refine ⟨turns, result, final, rfl, ?_, hturns, ?_⟩
  · -- Without the calls that were kept, the run is the same.
    have hsame := congrFun (supervise_recorded service tree limit read handle rounds
      (Watch.start timer (logs, []))) session
    refine hsame.symm.trans ?_
    cases result with
    | none => exact Action.bind_of_none hrun
    | some ended => exact Action.bind_of_some hrun
  have htranscript := hturns.transcript_along hkept
  constructor
  · rw [Session.lines_eq, htranscript, List.filterMap_append, filterMap_alongTurns,
      ← Session.lines_eq]
    congr 2
    funext seen turn
    rw [List.filterMap_cons_none rfl, Turn.utterances_lines]
  · rw [Session.warnings_eq, htranscript, List.filterMap_append, filterMap_alongTurns,
      ← Session.warnings_eq]
    congr 2
    funext seen turn
    rw [List.filterMap_cons_none rfl, Turn.utterances_warnings]
  · exact htranscript
  · exact fun turn hturn hresult => ((hturns.onward hkept hlimit).2 turn hturn).2.1.batch_eq hresult
  · intro earlier turn later lines hsplit hbatch
    rw [hsplit] at hturns
    exact hturns.drained_last hbatch
  · intro outcome after hresult
    rw [hresult] at hturns
    exact hturns.calls_eq

end Transcripts

/-- The answers about a run that is seen in the same state twice, then in one that is
    not known, and in the former one again before it fails. -/
def AttemptFeed.unsettled : Stream' (Except ServiceError AttemptPage) :=
  Stream'.cons (.ok ⟨[⟨1, .running, "up"⟩], none⟩)
    (Stream'.cons (.ok ⟨[⟨1, .running, "still up"⟩], none⟩)
      (Stream'.cons (.error (.throttled "slow"))
        (Stream'.cons (.ok ⟨[⟨1, .other "RESTARTING", ""⟩], none⟩)
          (Stream'.cons (.ok ⟨[⟨2, .running, "up"⟩], none⟩)
            (Stream'.const (.ok ⟨[⟨2, .failed, "gone"⟩], none⟩))))))

/-- A reader that numbers its batches. -/
def AttemptFeed.numbered : Bool → Nat → Action (Stream' (Except ServiceError AttemptPage))
    (List LogLine × Nat) :=
  fun _ count => pure ([⟨⟨"SPARK_DRIVER", "stdout"⟩, toString count⟩], count + 1)

/-- Supervision of that run. -/
def AttemptFeed.unsettledRun : Option (Outcome × Watch (Nat × List Bool)) ×
    Session (Stream' (Except ServiceError AttemptPage)) :=
  Supervision.supervise (Session.host service FileTree.empty 9) (recorded numbered) ⟨"app", "run"⟩ 9
    (Watch.start (PollTimer.make (.ofMillis 1) (.ofMillis 8)) (0, []))
    (Session.start unsettled none)

/-- Its lines, warnings and calls. The same state makes a line once, and again behind
    another one. -/
theorem AttemptFeed.supervise_transcribes_unsettled :
    ∃ turns, Transcribes ⟨"app", "run"⟩ (Session.start unsettled none) turns unsettledRun.1
        unsettledRun.2 ∧
      unsettledRun.2.lines = ["run | RUNNING | up", "SPARK_DRIVER | stdout | 0",
        "SPARK_DRIVER | stdout | 1", "run | RESTARTING | ", "SPARK_DRIVER | stdout | 2",
        "run | RUNNING | up", "SPARK_DRIVER | stdout | 3", "run | FAILED | gone",
        "SPARK_DRIVER | stdout | 4"] ∧
      unsettledRun.2.warnings = [.unrecognizedState "run" (.other "RESTARTING")] ∧
      unsettledRun.1.map (fun ended => ended.2.logs.2) =
        some [false, false, false, false, true] := by
  have hread : ∀ flush count, (numbered flush count).Discreet :=
    fun _ _ => Action.discreet_pure _
  have hlimit : (Session.start unsettled none).deadline = none := rfl
  rcases @supervise_transcribes _ _ service numbered ⟨"app", "run"⟩ hread FileTree.empty 9 9
    (PollTimer.make (.ofMillis 1) (.ofMillis 8)) 0 _ hlimit with
    ⟨turns, result, final, hrun, _, _, htranscribes⟩
  have hsupervised : unsettledRun = (result, final) := hrun
  refine ⟨turns, ?_, by decide +kernel⟩
  rw [hsupervised]
  exact htranscribes

end BatchRun
