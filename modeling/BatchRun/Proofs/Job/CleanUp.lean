import BatchRun.Proofs.Job.Alike
import BatchRun.Proofs.Session.Abreast
import BatchRun.Proofs.Session.Limited

/-!
# Cleaning Up After a Job

A result that nothing can change any more, and that does not wait for long.

The result of a job is settled when its staging fails or its supervision ends.
What is left to do then is within limits: a run that may be going on is cancelled,
and a workspace is deleted. Both come to their end whatever the services do by
then, and take no notice of a cancellation. So two services between which nothing
differs until the result is settled give the same result, no matter how different
they are afterwards.

## Main definitions

* `Settled`: How a job stands when its result is settled.
* `Job.untilSettled`, `Job.windUp`: What a job does until then, and from then on.

## Theorems

* `Job.carryOut_eq`: A job does these two things and gives the result.
* `Staging.limited_destroy`, `Job.limited_windUp`: Cleaning up comes to its end.
* `Job.carryOut_of_settled`: Cleaning up neither changes a result nor holds it up.
-/

namespace BatchRun

/-- How a job stands when its result is settled: its staging has failed, or its
    run is not supervised any more. -/
inductive Settled where
  | unstaged (error : StagingError)
  | ended (workspace : Option Workspace) (handle : Option RunHandle) (outcome : Outcome)

/-- The result that is settled. -/
def Settled.result : Settled → Except RunError Unit
  | unstaged error => .error (.staging error)
  | ended _ _ outcome => outcome.result

namespace Job

variable {m : Type → Type} [Monad m]

/-- What a job does until its result is settled. -/
def untilSettled (host : Host m) (settings : Settings) (job : Job) : m Settled := do
  match ← stage host job with
  | .error error => pure (.unstaged error)
  | .ok workspace =>
    let (handle, outcome) ← launch host settings job workspace
    pure (.ended workspace handle outcome)

/-- What is left to do then. -/
def windUp (host : Host m) (settings : Settings) : Settled → m Unit
  | .unstaged error => destroyIfAny host settings error.workspace
  | .ended workspace handle outcome => cleanUp host settings workspace handle outcome

/-- A job settles its result, cleans up and gives the result. -/
theorem carryOut_eq [LawfulMonad m] (host : Host m) (settings : Settings) (job : Job) :
    carryOut host settings job = (do
      let settled ← untilSettled host settings job
      windUp host settings settled
      pure settled.result) := by
  simp only [carryOut, untilSettled, bind_assoc]
  -- Both stage the job first, and part only behind that.
  congr 1
  funext staged
  cases staged with
  | error error => simp only [pure_bind, windUp, Settled.result]
  | ok workspace => simp only [bind_assoc, pure_bind, windUp, Settled.result]

end Job

variable {σ : Type} (service : Service σ) (tree : FileTree) (rounds : Nat)

namespace Staging

theorem steady_deleteEach (root : ObjectUri) (objects : List ObjectSummary) :
    (deleteEach (Session.host service tree rounds) root objects).Steady := by
  induction objects with
  | nil => exact Action.steady_pure ()
  | cons object rest ih => exact Action.steady_bind (Action.steady_ask service _) fun _ => ih

theorem steady_deleteAll (root : ObjectUri) (more : Nat) (token : Option String) :
    (deleteAll (Session.host service tree rounds) root more token).Steady := by
  induction more generalizing token with
  | zero => exact Action.steady_wait service tree rounds
  | succ more ih =>
      refine Action.steady_bind (Action.steady_ask service _) fun answer => ?_
      cases answer with
      | error error => exact Action.steady_pure ()
      | ok page =>
          refine Action.steady_bind (steady_deleteEach service tree rounds root page.objects)
            fun _ => ?_
          cases page.nextToken with
          | none => exact Action.steady_pure ()
          | some token => exact ih (some token)

/-- Deleting a workspace is over in time, wherever it gets stuck. -/
theorem limited_destroy (limit : Span) (workspace : Workspace) :
    (destroy (Session.host service tree rounds) limit workspace).Limited limit.nanos :=
  Action.limited_within service tree rounds
    (steady_deleteAll service tree rounds workspace.root rounds none) limit _

end Staging

namespace Job

theorem limited_cancelIfAlive (settings : Settings) (outcome : Outcome)
    (handle : Option RunHandle) :
    (cancelIfAlive (Session.host service tree rounds) settings outcome handle).Limited
      settings.cancelTimeout.nanos := by
  cases handle with
  | none => exact Action.limited_pure _
  | some handle =>
      unfold cancelIfAlive
      by_cases halive : outcome.mayBeAlive = true
      · simp only [halive, if_true]
        refine Action.limited_within service tree rounds ?_ settings.cancelTimeout _
        exact Action.steady_bind (Action.steady_ask service _) fun _ => Action.steady_pure ()
      · simp only [halive, Bool.false_eq_true, if_false]
        exact Action.limited_pure _

theorem limited_destroyIfAny (settings : Settings) (workspace : Option Workspace) :
    (destroyIfAny (Session.host service tree rounds) settings workspace).Limited
      settings.cleanupTimeout.nanos := by
  cases workspace with
  | none => exact Action.limited_pure _
  | some workspace => exact Staging.limited_destroy service tree rounds _ workspace

/-- Whatever is left to do is done within the two limits. -/
theorem limited_windUp (settings : Settings) (settled : Settled) :
    (windUp (Session.host service tree rounds) settings settled).Limited
      (settings.cancelTimeout.nanos + settings.cleanupTimeout.nanos) := by
  cases settled with
  | unstaged error =>
      exact (limited_destroyIfAny service tree rounds settings error.workspace).mono
        (Nat.le_add_left _ _)
  | ended workspace handle outcome =>
      exact Action.limited_bind (limited_cancelIfAlive service tree rounds settings outcome handle)
        (limited_destroyIfAny service tree rounds settings workspace)

/-- A job whose result is settled comes to its end with this result, in time. -/
theorem carryOut_arrives {settings : Settings} {job : Job} {session middle : Session σ}
    {settled : Settled} (h : untilSettled (Session.host service tree rounds) settings job session =
      (some settled, middle)) :
    ∃ final, carryOut (Session.host service tree rounds) settings job session =
        (some settled.result, final) ∧
      windUp (Session.host service tree rounds) settings settled middle = (some (), final) ∧
      final.now ≤ middle.now + (settings.cancelTimeout.nanos + settings.cleanupTimeout.nanos) := by
  rcases (limited_windUp service tree rounds settings settled).arrives middle with
    ⟨final, hwound, htime⟩
  refine ⟨final, ?_, hwound, htime⟩
  rw [carryOut_eq, Action.bind_of_some h, Action.bind_of_some hwound]
  rfl

/-- Two services are asked the same until a result is settled. -/
theorem alike_untilSettled {τ : Type} (first : Service σ) (second : Service τ)
    (settings : Settings) (job : Job) :
    Alike first second (fun _ => True) (fun _ => True)
      (untilSettled (Session.host first tree rounds) settings job)
      (untilSettled (Session.host second tree rounds) settings job) := by
  refine .bind (alike_stage tree rounds job fun _ _ => trivial) fun staged _ => ?_
  cases staged with
  | error error => exact .value _
  | ok workspace =>
      exact .bind (alike_launch tree rounds settings job workspace) fun _ _ => .value _

/-- Cleaning up neither changes a result nor holds it up. A job whose result is
    settled comes to its end with it, within the two limits, and cleaning up goes
    the same way whenever the job is cancelled. Any other service that agrees on
    the calls until then settles the same result at the same time, and comes to
    its end with it as well, be the rest as it may. -/
theorem carryOut_of_settled {settings : Settings} {job : Job} {state : σ} {cancelAt : Option Nat}
    {settled : Settled} {middle : Session σ}
    (h : untilSettled (Session.host service tree rounds) settings job
      (Session.start state cancelAt) = (some settled, middle)) :
    (∃ final, carryOut (Session.host service tree rounds) settings job
        (Session.start state cancelAt) = (some settled.result, final) ∧
      final.now ≤ middle.now + (settings.cancelTimeout.nanos + settings.cleanupTimeout.nanos) ∧
      ∀ moment, ∃ after, windUp (Session.host service tree rounds) settings settled
        { middle with cancelAt := moment } = (some (), { final with cancelAt := after })) ∧
    ∀ {τ : Type} (second : Service τ) (other : τ) (cancelAt' : Option Nat),
      service.AgreeOn second middle.calls state other →
      (∀ moment ≤ middle.now, cancelAt = some moment ↔ cancelAt' = some moment) →
      ∃ middle' final, untilSettled (Session.host second tree rounds) settings job
          (Session.start other cancelAt') = (some settled, middle') ∧
        middle'.now = middle.now ∧
        carryOut (Session.host second tree rounds) settings job
          (Session.start other cancelAt') = (some settled.result, final) ∧
        final.now ≤
          middle'.now + (settings.cancelTimeout.nanos + settings.cleanupTimeout.nanos) := by
  refine ⟨?_, fun second other cancelAt' hagree hcancel => ?_⟩
  · rcases carryOut_arrives service tree rounds h with ⟨final, hrun, hwound, htime⟩
    refine ⟨final, hrun, htime, fun moment => ?_⟩
    rcases (limited_windUp service tree rounds settings settled).heedless middle moment with
      ⟨after, hother⟩
    rw [hwound] at hother
    exact ⟨after, hother⟩
  · -- Up to the horizon the services agree, and behind it nothing is asked of them here.
    rcases (alike_untilSettled tree rounds service second settings job).keepAbreast middle.now
      (Session.start state cancelAt) middle settled h (Nat.le_refl _) with ⟨made, hmade, hkeep⟩
    rw [show middle.calls = made from hmade, ← List.append_nil made] at hagree
    rcases hkeep (Session.start other cancelAt') [] ⟨rfl, rfl, rfl, hcancel⟩ hagree with
      ⟨middle', hsettled, habreast, _⟩
    rcases carryOut_arrives second tree rounds hsettled with ⟨final, hrun, _, htime⟩
    exact ⟨middle', final, hsettled, habreast.now.symm, hrun, htime⟩

/-- A service that starts a run and says nothing about it. Cancelling the run
    takes a given time. -/
def taciturn (delay : Option Span) : Service Unit where
  reply call _ :=
    match call with
    | .submit _ => ⟨some .zero, (), (), .ok ⟨"app", "run"⟩, false⟩
    | .cancel _ => ⟨delay, (), (), .ok (), false⟩
    | _ => ⟨some .zero, (), (), .error (.unanswered []), false⟩

/-- A job without any files that have to be staged. -/
def bare : Job where
  asset := ⟨"asset", [], false⟩
  pipeline := "pipeline"
  params := ⟨"app", "role", "entry.py", [], "", none, "region", none, none⟩
  environment := []
  runId := "id"
  clientToken := "token"

/-- The job ends as it does when its run is cancelled at once, although nothing
    comes back, and although the job itself is cancelled meanwhile. -/
theorem carryOut_of_settled_taciturn :
    ∃ final, carryOut (Session.host (taciturn none) FileTree.empty 1) Settings.standard bare
        (Session.start () (some 3000000000)) =
      (some (.error (.listing (.unanswered []))), final) ∧ final.now ≤ 152000000000 := by
  have hsettled : untilSettled (Session.host (taciturn (some .zero)) FileTree.empty 1)
      Settings.standard bare (Session.start () none) =
    (some (.ended none (some ⟨"app", "run"⟩) (.localError (.listing (.unanswered [])))), _) := rfl
  have hahead : ∀ moment ≤ 2000000000, none = some moment ↔ some 3000000000 = some moment := by
    intro moment hmoment
    simp only [reduceCtorEq, false_iff, Option.some.injEq]
    omega
  rcases (carryOut_of_settled _ _ _ hsettled).2 (taciturn none) () (some 3000000000)
    ⟨rfl, rfl, rfl, rfl, rfl, rfl, rfl, rfl, rfl, trivial⟩ hahead with
    ⟨middle, final, _, hnow, hrun, htime⟩
  rw [hnow] at htime
  exact ⟨final, hrun, htime⟩

end Job

end BatchRun
