import BatchRun.Proofs.Session.Dialogue
import BatchRun.Staging

/-!
# Gathering Without Services

What is done on the machine alone.

A file system may answer anything, and at different times different things. As long
as it asks no service to do so, finding the files of a run, reading them and packing
the project around them leaves the services as they were. What can go wrong then is
never a failed write, and what is found goes by the name of the entrypoint.

## Main definitions

* `Action.IsLocal`: Something that is done without any service.
* `Files.IsLocal`: A file system that answers without any.
* `Staging.Finds`: An answer that is no failed write.

## Theorems

* `Action.IsLocal.bind`: One local action behind another.
* `FileTree.isLocal_files`: A tree answers without any service.
* `Staging.isLocal_gather`: The files of a run are gathered without any.
-/

namespace BatchRun

variable {σ : Type} {service : Service σ}

namespace Action

variable {α β : Type}

/-- Something that is done without any service, with results of a kind. -/
def IsLocal (action : Action σ α) (good : α → Prop) : Prop :=
  ∀ session, (action session).2.calls = session.calls ∧
    (action session).2.state = session.state ∧ ∀ a, (action session).1 = some a → good a

theorem isLocal_pure {good : α → Prop} {a : α} (h : good a) :
    IsLocal (pure a : Action σ α) good := by
  intro session
  refine ⟨rfl, rfl, fun result hresult => ?_⟩
  rwa [← Option.some.inj hresult]

theorem IsLocal.bind {action : Action σ α} {next : α → Action σ β} {first : α → Prop}
    {good : β → Prop} (h : action.IsLocal first) (hnext : ∀ a, first a → (next a).IsLocal good) :
    (action >>= next).IsLocal good := by
  intro session
  rcases h session with ⟨hcalls, hstate, hgood⟩
  rcases hrun : action session with ⟨_ | a, middle⟩
  · rw [hrun] at hcalls hstate
    rw [bind_of_none hrun]
    exact ⟨hcalls, hstate, fun _ hno => absurd hno (by simp only [reduceCtorEq,
      not_false_eq_true])⟩
  · rw [hrun] at hcalls hstate hgood
    rcases hnext a (hgood a rfl) middle with ⟨hmore, hlater, hresult⟩
    rw [bind_of_some hrun]
    exact ⟨hmore.trans hcalls, hlater.trans hstate, hresult⟩

/-- Nothing is said to a service. -/
theorem IsLocal.talks {action : Action σ α} {good : α → Prop} (h : action.IsLocal good) :
    Talks service action fun result talk => talk = [] ∧ ∀ a, result = some a → good a :=
  talks_silently (fun session => (h session).1) (fun session => (h session).2.1)
    fun session => ⟨rfl, (h session).2.2⟩

end Action

/-- A file system answers without any service, whatever it answers. -/
structure Files.IsLocal (files : Files (Action σ)) : Prop where
  content : ∀ path, (files.content path).IsLocal fun _ => True
  resolved : ∀ path, (files.resolved path).IsLocal fun _ => True
  isThere : ∀ path, (files.isThere path).IsLocal fun _ => True
  node : ∀ path, (files.node path).IsLocal fun _ => True

/-- A tree is such a file system. -/
theorem FileTree.isLocal_files (tree : FileTree) : (tree.files : Files (Action σ)).IsLocal :=
  ⟨fun _ => Action.isLocal_pure trivial, fun _ => Action.isLocal_pure trivial,
    fun _ => Action.isLocal_pure trivial, fun _ => Action.isLocal_pure trivial⟩

/-- A write has failed. -/
def StagingFault.isUpload : StagingFault → Bool
  | upload _ _ => true
  | _ => false

namespace Staging

/-- Nothing but a write has failed, and what was found is of a kind. -/
def Finds {α : Type} (good : α → Prop) : Except StagingFault α → Prop
  | .error fault => fault.isUpload = false
  | .ok a => good a

variable {files : Files (Action σ)} (hfiles : files.IsLocal)

include hfiles

theorem isLocal_projectRoot? (folders : List Path) :
    (projectRoot? files folders).IsLocal fun _ => True := by
  -- Each folder is one question, and behind a no come those about the rest.
  induction folders with
  | nil => exact Action.isLocal_pure trivial
  | cons folder rest ih =>
      refine (hfiles.isThere _).bind fun there _ => ?_
      cases there with
      | true => exact Action.isLocal_pure trivial
      | false => exact ih

theorem isLocal_package (root : Path) : (package files root).IsLocal fun _ => True := by
  refine (hfiles.node root).bind fun found _ => ?_
  cases found with
  | error fault => exact Action.isLocal_pure trivial
  | ok node => exact Action.isLocal_pure trivial

theorem isLocal_packageAround (entrypoint : Path) :
    (packageAround files entrypoint).IsLocal (Finds fun _ => True) := by
  refine (isLocal_projectRoot? hfiles _).bind fun found _ => ?_
  cases found with
  | none => exact Action.isLocal_pure rfl
  | some root =>
      refine (isLocal_package hfiles root).bind fun packed _ => ?_
      cases packed with
      | error fault => exact Action.isLocal_pure rfl
      | ok archive => exact Action.isLocal_pure trivial

/-- The files of a run are gathered without any service. They go by the name of the
    entrypoint. -/
theorem isLocal_gather (asset : Asset) :
    (gather files asset).IsLocal
      (Finds fun materials => asset.fileName? = some materials.fileName) := by
  unfold gather
  cases hname : asset.fileName? with
  | none => exact Action.isLocal_pure rfl
  | some fileName =>
      -- The questions come one behind the other, and the first fault ends them.
      refine (hfiles.content _).bind fun content _ => ?_
      cases content with
      | error fault => exact Action.isLocal_pure rfl
      | ok script =>
          refine (hfiles.resolved _).bind fun resolved _ => ?_
          cases resolved with
          | error fault => exact Action.isLocal_pure rfl
          | ok entrypoint =>
              refine (isLocal_packageAround hfiles entrypoint).bind fun packed hpacked => ?_
              cases packed with
              | error fault => exact Action.isLocal_pure hpacked
              | ok archive => exact Action.isLocal_pure rfl

end Staging

end BatchRun
