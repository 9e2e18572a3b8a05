import Mathlib.Algebra.Group.Nat.Defs
import BatchRun.Proofs.Supervision.Turns
import BatchRun.Settings

/-!
# Backing Off

How long supervision waits before each of its polls.

The wait depends on nothing but the number of throttled polls since the last one
that got through. It starts at the base. A throttled poll doubles it, or lengthens
it by a millisecond where that is more, so that it grows even from no time at all,
until it has come to the cap. A sum or a double that is cut off at the largest span
is not below any cap, so the waits are those of plain numbers, which are never cut
off.

## Main definitions

* `PollTimer.waitAfter`: The wait after some throttled polls in a row.
* `BacksOff`: How the waits grow.
* `throttledSince`: The throttled polls since the last one that got through.

## Theorems

* `PollTimer.nanos_waitAfter_succ`: The waits in plain numbers.
* `PollTimer.le_waitAfter`, `PollTimer.waitAfter_le`: They stay between base and cap.
* `PollTimer.waitAfter_doubles`: They double if the base is not too short.
* `PollTimer.backsOff`: How they grow.
* `PollTimer.foldl_heed`: The timer after some answers.
* `supervise_waits`: Supervision waits as long as that before each poll.
-/

namespace BatchRun

namespace PollTimer

/-- The wait after so many throttled polls in a row. -/
def waitAfter (base cap : Span) : Nat → Span
  | 0 => base
  | count + 1 =>
    ((waitAfter base cap count).double.longer
      ((waitAfter base cap count).add (Span.ofMillis 1))).shorter cap

end PollTimer

/-- Waits that grow from a base to a cap, one for each number of throttled polls. -/
structure BacksOff (base cap : Span) (wait : Nat → Span) : Prop where
  start : wait 0 = base
  /-- The longer of twice the wait and a millisecond more, in arithmetic that stops
      at the largest span, and at most the cap. -/
  next : ∀ count, wait (count + 1) =
    ((wait count).double.longer ((wait count).add (Span.ofMillis 1))).shorter cap
  /-- The same in plain numbers: nothing is cut off but by the cap. -/
  exact : ∀ count, (wait (count + 1)).nanos =
    min cap.nanos (max (2 * (wait count).nanos) ((wait count).nanos + 1000000))
  within : ∀ count, base ≤ wait count ∧ wait count ≤ cap
  grows : ∀ count, wait count ≠ cap → wait count < wait (count + 1)
  stays : ∀ count, wait count = cap → wait (count + 1) = cap
  arrives : ∃ count, ∀ later ≥ count, wait later = cap
  doubles : Span.ofMillis 1 ≤ base → ∀ count,
    (wait count).nanos = min cap.nanos (base.nanos * 2 ^ count)

namespace PollTimer

variable {base cap : Span}

theorem nanos_millisecond : (Span.ofMillis 1).nanos = 1000000 := by decide

/-- Cutting off makes no difference to what is cut off at a lower cap anyway. -/
theorem min_cap_of_lt {cap bound : Nat} (h : cap < bound) (a b : Nat) :
    min (max (min a (bound - 1)) (min b (bound - 1))) cap = min cap (max a b) := by
  omega

/-- The waits are those of plain numbers, since a sum or a double that is cut off is
    no shorter than the cap. -/
theorem nanos_waitAfter_succ (base cap : Span) (count : Nat) :
    (waitAfter base cap (count + 1)).nanos =
      min cap.nanos (max (2 * (waitAfter base cap count).nanos)
        ((waitAfter base cap count).nanos + 1000000)) := by
  rw [waitAfter, Span.nanos_shorter, Span.nanos_longer, Span.nanos_double, Span.nanos_add,
    nanos_millisecond, min_cap_of_lt cap.nanos_lt]

theorem waitAfter_le (h : base ≤ cap) (count : Nat) :
    (waitAfter base cap count).nanos ≤ cap.nanos := by
  cases count with
  | zero => exact h
  | succ count =>
      rw [nanos_waitAfter_succ]
      exact Nat.min_le_left _ _

theorem le_waitAfter (h : base ≤ cap) (count : Nat) :
    base.nanos ≤ (waitAfter base cap count).nanos := by
  induction count with
  | zero => exact Nat.le_refl _
  | succ count ih =>
      have hcap : base.nanos ≤ cap.nanos := h
      rw [nanos_waitAfter_succ]
      omega

/-- A wait that is not yet the cap is followed by a longer one. -/
theorem waitAfter_grows (h : base ≤ cap) {count : Nat}
    (hbelow : (waitAfter base cap count).nanos ≠ cap.nanos) :
    (waitAfter base cap count).nanos < (waitAfter base cap (count + 1)).nanos := by
  have hle := waitAfter_le h count
  rw [nanos_waitAfter_succ]
  omega

/-- The cap is kept. -/
theorem waitAfter_stays {count : Nat}
    (hcap : (waitAfter base cap count).nanos = cap.nanos) :
    (waitAfter base cap (count + 1)).nanos = cap.nanos := by
  rw [nanos_waitAfter_succ, hcap]
  omega

/-- Every throttled poll adds a millisecond at least, up to the cap. -/
theorem millis_le_waitAfter (base cap : Span) (count : Nat) :
    min cap.nanos (count * 1000000) ≤ (waitAfter base cap count).nanos := by
  induction count with
  | zero =>
      rw [Nat.zero_mul, Nat.min_zero]
      exact Nat.zero_le _
  | succ count ih =>
      rw [nanos_waitAfter_succ, Nat.succ_mul]
      generalize count * 1000000 = millis at ih ⊢
      omega

/-- So the cap is reached from any base, and kept from then on. -/
theorem waitAfter_arrives (h : base ≤ cap) {count : Nat} (hcount : cap.nanos ≤ count) :
    (waitAfter base cap count).nanos = cap.nanos := by
  have hbelow := millis_le_waitAfter base cap count
  have habove := waitAfter_le h count
  omega

/-- From a millisecond on, twice a wait is the longer one. -/
theorem waitAfter_doubles (h : base ≤ cap) (hbase : Span.ofMillis 1 ≤ base) (count : Nat) :
    (waitAfter base cap count).nanos = min cap.nanos (base.nanos * 2 ^ count) := by
  have hmilli : 1000000 ≤ base.nanos := hbase
  have hcap : base.nanos ≤ cap.nanos := h
  induction count with
  | zero =>
      rw [waitAfter, Nat.pow_zero, Nat.mul_one]
      omega
  | succ count ih =>
      -- A wait that is no shorter than a millisecond is lengthened most by doubling it.
      have hlong := le_waitAfter h count
      rw [nanos_waitAfter_succ, Nat.pow_succ, ← Nat.mul_assoc, ih]
      rw [ih] at hlong
      generalize base.nanos * 2 ^ count = grown at *
      omega

/-- The waits grow as they should, whatever the base is and however long the cap. -/
theorem backsOff (h : base ≤ cap) : BacksOff base cap (waitAfter base cap) where
  start := rfl
  next _ := rfl
  exact := nanos_waitAfter_succ base cap
  within count := ⟨le_waitAfter h count, waitAfter_le h count⟩
  grows _ hbelow := waitAfter_grows h fun heq => hbelow (Span.ext heq)
  stays _ hcap := Span.ext (waitAfter_stays (congrArg Span.nanos hcap))
  arrives := ⟨cap.nanos, fun _ hlater => Span.ext (waitAfter_arrives h hlater)⟩
  doubles := waitAfter_doubles h

end PollTimer

/-- How many polls have been throttled since the last one that got through, if one
    more is answered. -/
def throttledNext (count : Nat) : Except ServiceError AttemptPage → Nat
  | .ok _ => 0
  | .error error => if error.isThrottling then count + 1 else count

/-- How many of some polls have been throttled since the last one that got through,
    or since the start. -/
def throttledSince (answers : List (Except ServiceError AttemptPage)) : Nat :=
  answers.foldl throttledNext 0

theorem throttledSince_ok (answers : List (Except ServiceError AttemptPage)) (page : AttemptPage) :
    throttledSince (answers ++ [.ok page]) = 0 := by
  rw [throttledSince, List.foldl_append]
  rfl

namespace PollTimer

theorem heed_waitAfter (base cap : Span) (count : Nat)
    (answer : Except ServiceError AttemptPage) :
    PollTimer.heed ⟨base, cap, waitAfter base cap count⟩ answer =
      ⟨base, cap, waitAfter base cap (throttledNext count answer)⟩ := by
  cases answer with
  | ok page => rfl
  | error error =>
      by_cases hpatience : error.isThrottling = true
      · simp only [heed, throttledNext, hpatience, if_true, increase, waitAfter]
      · simp only [heed, throttledNext, hpatience, Bool.false_eq_true, if_false]

/-- After some answers, the timer only knows how many polls have been throttled since
    the last one that got through. -/
theorem foldl_heed (base longest : Span) (answers : List (Except ServiceError AttemptPage)) :
    answers.foldl PollTimer.heed (make base longest) =
      ⟨base, longest.longer base,
        waitAfter base (longest.longer base) (throttledSince answers)⟩ := by
  have hfrom : ∀ count, answers.foldl PollTimer.heed
      ⟨base, longest.longer base, waitAfter base (longest.longer base) count⟩ =
      ⟨base, longest.longer base,
        waitAfter base (longest.longer base) (answers.foldl throttledNext count)⟩ := by
    induction answers with
    | nil => exact fun _ => rfl
    | cons answer rest ih =>
        intro count
        rw [List.foldl_cons, heed_waitAfter, ih, List.foldl_cons]
  exact hfrom 0

end PollTimer

/-- The cap is never below the base. -/
theorem Span.le_longer (longest base : Span) : base ≤ longest.longer base := by
  change base.nanos ≤ (longest.longer base).nanos
  rw [Span.nanos_longer]
  exact Nat.le_max_right _ _

namespace Settings

/-- Settings that can be used have a base above zero and a cap that is not below it. -/
theorem intervals_of_validate {settings : Settings} (h : settings.validate = none) :
    0 < settings.pollInterval.nanos ∧ settings.pollInterval ≤ settings.maxPollInterval := by
  unfold validate at h
  by_cases hzero : settings.pollInterval.isZero = true
  · rw [if_pos hzero] at h
    exact absurd h (by simp only [reduceCtorEq, not_false_eq_true])
  · rw [if_neg hzero] at h
    by_cases hbelow : settings.maxPollInterval < settings.pollInterval
    · rw [if_pos hbelow] at h
      exact absurd h (by simp only [reduceCtorEq, not_false_eq_true])
    · have hpositive : settings.pollInterval.nanos ≠ 0 := by
        intro hnone
        exact hzero (by rw [Span.isZero, hnone]; rfl)
      exact ⟨Nat.pos_of_ne_zero hpositive, Nat.le_of_not_lt hbelow⟩

/-- So their cap is the longest interval they name. -/
theorem cap_of_validate {settings : Settings} (h : settings.validate = none) :
    settings.maxPollInterval.longer settings.pollInterval = settings.maxPollInterval := by
  refine Span.ext ?_
  rw [Span.nanos_longer]
  exact Nat.max_eq_left (intervals_of_validate h).2

end Settings

section Schedule

variable {σ κ : Type} {service : Service σ} {read : Bool → κ → Action σ (List LogLine × κ)}
  {handle : RunHandle}

/-- The timer that a turn has is the one that the answers before have left. -/
theorem Supervised.timer_eq {rounds : Nat} {watch : Watch κ} {session final : Session σ}
    {earlier : List (Turn σ κ)} {turn : Turn σ κ} {later : List (Turn σ κ)}
    {result : Option (Outcome × Watch κ)}
    (h : Supervised service read handle rounds watch session (earlier ++ turn :: later) result
      final) : turn.watch.timer = (answersOf earlier).foldl PollTimer.heed watch.timer :=
  h.foldl_eq fun _ _ _ _ _ _ hturn hanswer hresult => (hturn.heeds hanswer hresult).1

/-- Before each poll supervision waits as long as the number of throttled polls since
    the last one that got through says, counted from the moment at which the turn
    before is over. That is the base at first and after each poll that got through;
    from there the waits grow up to the cap. Settings that can be used name the cap
    themselves, and with them no wait is zero. -/
theorem supervise_waits (hread : ∀ flush logs, (read flush logs).Discreet) (tree : FileTree)
    (limit rounds : Nat) (base longest : Span) (logs : κ) {session : Session σ}
    (hlimit : session.deadline = none) :
    BacksOff base (longest.longer base) (PollTimer.waitAfter base (longest.longer base)) ∧
    (∃ turns result final,
      Supervision.supervise (Session.host service tree limit) read handle rounds
        (Watch.start (PollTimer.make base longest) logs) session = (result, final) ∧
      Supervised service read handle rounds (Watch.start (PollTimer.make base longest) logs)
        session turns result final ∧
      final.polledAt = session.polledAt ++ turns.map (fun turn => turn.polled.now) ∧
      ∀ earlier turn later, turns = earlier ++ turn :: later →
        turn.begun = (earlier.getLast?.map fun before => before.ended).getD session ∧
        turn.polled.now = turn.begun.now + (PollTimer.waitAfter base (longest.longer base)
          (throttledSince (answersOf earlier))).nanos ∧
        (∀ before page, earlier.getLast? = some before → before.answer = some (.ok page) →
          turn.polled.now = before.ended.now + base.nanos)) ∧
    (∀ settings : Settings, settings.validate = none →
      settings.timer = PollTimer.make settings.pollInterval settings.maxPollInterval ∧
      settings.maxPollInterval.longer settings.pollInterval = settings.maxPollInterval ∧
      ∀ count, PollTimer.waitAfter settings.pollInterval settings.maxPollInterval count ≠
        Span.zero) := by
  refine ⟨PollTimer.backsOff (Span.le_longer longest base), ?_, ?_⟩
  · rcases supervised_of_supervise service handle hread tree limit rounds
      (Watch.start (PollTimer.make base longest) logs) hlimit with ⟨turns, hrun⟩
    refine ⟨turns, _, _, rfl, hrun, hrun.polledAt_eq hread, fun earlier turn later hturns => ?_⟩
    have hmem : turn ∈ turns := by
      rw [hturns]
      exact List.mem_append_right _ (List.mem_cons_self ..)
    rcases (hrun.onward hread hlimit).2 turn hmem with ⟨hfrom, hturn, _⟩
    rw [hturns] at hrun
    have hbegun := hrun.begun_eq
    -- The timer that the turn has is known from the answers before it.
    have htimer : turn.watch.timer.wait = PollTimer.waitAfter base (longest.longer base)
        (throttledSince (answersOf earlier)) := by
      rw [hrun.timer_eq, Watch.start, PollTimer.foldl_heed]
    have hpolled : turn.polled.now = turn.begun.now + turn.watch.timer.wait.nanos := by
      rw [(hturn.polled_eq (hfrom.deadline_eq.trans hlimit)).1]
    refine ⟨hbegun, by rw [hpolled, htimer], fun before page hlast hanswer => ?_⟩
    rcases List.getLast?_eq_some_iff.mp hlast with ⟨front, hfront⟩
    -- A page is the last answer before it, so nothing has been throttled since.
    have hthrough : answersOf earlier = answersOf front ++ [.ok page] := by
      rw [hfront, answersOf, List.filterMap_append, List.filterMap_cons, hanswer]
      rfl
    rw [hpolled, htimer, hthrough, throttledSince_ok, hbegun, hlast]
    rfl
  · intro settings hvalid
    rcases Settings.intervals_of_validate hvalid with ⟨hpositive, hle⟩
    refine ⟨rfl, Settings.cap_of_validate hvalid, fun count hzero => ?_⟩
    have hbase := PollTimer.le_waitAfter hle count
    rw [hzero, show Span.zero.nanos = 0 from rfl] at hbase
    omega

end Schedule

/-- Answers of a service that asks for patience three times, and once more behind a
    page. -/
def AttemptFeed.crowded : Stream' (Except ServiceError AttemptPage) :=
  Stream'.cons (.error (.throttled "slow")) (Stream'.cons (.error (.throttled "slow"))
    (Stream'.cons (.error (.throttled "slow"))
      (Stream'.cons (.ok ⟨[⟨1, .running, ""⟩], none⟩)
        (Stream'.cons (.error (.throttled "slow"))
          (Stream'.const (.ok ⟨[⟨1, .failed, "gone"⟩], none⟩))))))

/-- The waits grow from no time at all to a cap of three milliseconds, and once more
    behind the page. Each answer takes a millisecond. -/
theorem AttemptFeed.supervise_waits_crowded :
    ∃ turns result final,
      Supervision.supervise (Session.host AttemptFeed.service FileTree.empty 9)
        (fun _ count => pure ([], count + 1)) ⟨"app", "run"⟩ 9
        (Watch.start (PollTimer.make Span.zero (.ofMillis 3)) 0) (Session.start crowded none) =
        (result, final) ∧
      Supervised AttemptFeed.service (fun _ count => pure ([], count + 1)) ⟨"app", "run"⟩ 9
        (Watch.start (PollTimer.make Span.zero (.ofMillis 3)) 0) (Session.start crowded none) turns
        result final ∧
      turns.map (fun turn => turn.polled.now) =
        [0, 2000000, 5000000, 9000000, 10000000, 12000000] := by
  have hpolled : (Supervision.supervise (Session.host AttemptFeed.service FileTree.empty 9)
      (fun _ count => pure ([], count + 1)) ⟨"app", "run"⟩ 9
      (Watch.start (PollTimer.make Span.zero (.ofMillis 3)) 0)
      (Session.start crowded none)).2.polledAt =
      [0, 2000000, 5000000, 9000000, 10000000, 12000000] := by decide +kernel
  have hlimit : (Session.start crowded none).deadline = none := rfl
  rcases (@supervise_waits _ Nat AttemptFeed.service (fun _ count => pure ([], count + 1))
    ⟨"app", "run"⟩ (fun _ count => Action.discreet_pure ([], count + 1)) FileTree.empty 9 9
    Span.zero (.ofMillis 3) 0 _ hlimit).2.1 with ⟨turns, result, final, hrun, hturns, hrecord, _⟩
  rw [hrun] at hpolled
  exact ⟨turns, result, final, hrun, hturns, hrecord.symm.trans hpolled⟩

end BatchRun
