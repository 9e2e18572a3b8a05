import BatchRun.Proofs.Job.Lifecycle
import BatchRun.Proofs.Staging.Gathering
import BatchRun.Proofs.Staging.Prepared

/-!
# Failed Preparations

What an error of staging says about what was done.

Gathering the files of a run asks nothing of any service, so an error that comes
before there is a workspace leaves no trace. Behind that only the two calls to write
can fail, and their errors name the workspace. Of these two the second is made only
if the first has succeeded, so a store keeps one object at most of a preparation that
failed, and that is the entrypoint.

Whoever cleans up relies on the error alone: a workspace is to be deleted exactly if
the error has one.

## Main definitions

* `Session.hostOn`: A session with any file system.
* `Stockroom`: A service that keeps what is written.
* `Staging.Prepares`: The dialogue of a preparation.
* `Staging.Tells`: What an error says about the calls and the store.

## Theorems

* `Staging.talks_prepare`: What is asked to prepare a workspace.
* `Staging.tells_of_fills`: What is left of a workspace that was not filled.
* `Staging.tells_of_prepare`: An error tells what has to be cleaned up.
-/

namespace BatchRun

variable {σ : Type} {service : Service σ}

/-- A session as a host, with the files of any file system. -/
def Session.hostOn (service : Service σ) (files : Files (Action σ)) (rounds : Nat) :
    Host (Action σ) :=
  { host service FileTree.empty rounds with files }

/-- With the files of a tree it is the session of that tree. -/
theorem Session.host_eq_hostOn (service : Service σ) (tree : FileTree) (rounds : Nat) :
    host service tree rounds = hostOn service tree.files rounds :=
  rfl

namespace Staging

/-- Preparing a workspace. Nothing is asked before there is one, and then only its
    files are put. -/
inductive Prepares (asset : Asset) (pipeline : String) (base : Option ObjectUri)
    (runId : String) : Option (Except StagingError Workspace) → List Exchange → Prop
  | stuck : Prepares asset pipeline base runId none []
  | unready {fault : StagingFault} (h : fault.isUpload = false) :
      Prepares asset pipeline base runId (some (.error ⟨fault, none⟩)) []
  | filling {uri : ObjectUri} {fileName : String} (hbase : base = some uri)
      (hname : asset.fileName? = some fileName) {result : Option (Except StagingError Workspace)}
      {talk : List Exchange}
      (h : Fills (Workspace.allocate uri pipeline runId fileName) result talk) :
      Prepares asset pipeline base runId result talk

theorem talks_prepare {files : Files (Action σ)} (hfiles : files.IsLocal) (rounds : Nat)
    (asset : Asset) (pipeline : String) (base : Option ObjectUri) (runId : String) :
    Action.Talks service
      (prepare (Session.hostOn service files rounds) asset pipeline base runId)
      (Prepares asset pipeline base runId) := by
  cases base with
  | none => exact Action.talks_pure (.unready rfl)
  | some uri =>
      refine Action.talks_bind (isLocal_gather hfiles asset).talks ?_
        fun gathered front hfront => ?_
      · rintro talk ⟨rfl, _⟩
        exact .stuck
      rcases hfront with ⟨rfl, hfound⟩
      cases gathered with
      | error fault => exact Action.talks_pure (.unready (hfound _ rfl))
      | ok materials =>
          -- Filling a workspace has nothing to do with the files any more.
          exact (talks_fill FileTree.empty rounds _ materials).mono fun result talk hfill =>
            .filling rfl (hfound _ rfl) hfill

end Staging

/-- A service that keeps what is written. A write that fails writes nothing. -/
structure Stockroom (service : Service σ) where
  /-- The objects. -/
  store : σ → MemoryStore
  put_ok : ∀ {uri content state}, (service.reply (.put uri content) state).answer = .ok () →
    store (service.reply (.put uri content) state).settled = (store state).write uri content
  put_error : ∀ {uri content state error},
    (service.reply (.put uri content) state).answer = .error error →
    store (service.reply (.put uri content) state).settled = store state

/-- A store in memory is one, whatever its faults are. -/
def Rehearsal.stockroom : Stockroom Rehearsal.service where
  store state := { state.store with faults := [] }
  put_ok := by
    intro uri content state hdone
    rcases MemoryStore.reply_cases (.put uri content) state.store with
      ⟨faults, ⟨error, hanswer, _⟩ | ⟨_, hsettled⟩⟩
    · exact absurd (hdone.symm.trans hanswer) (by simp only [reduceCtorEq, not_false_eq_true])
    · simp only [Rehearsal.service, Rehearsal.reply, Rehearsal.ofStore, hsettled]
      rfl
  put_error := by
    intro uri content state error hfailed
    rcases MemoryStore.reply_cases (.put uri content) state.store with
      ⟨faults, ⟨_, _, hsettled⟩ | ⟨hanswer, _⟩⟩
    · simp only [Rehearsal.service, Rehearsal.reply, Rehearsal.ofStore, hsettled]
    · exact absurd (hfailed.symm.trans hanswer) (by simp only [MemoryStore.answer, reduceCtorEq,
        not_false_eq_true])

namespace Staging

/-- What an error of staging says about the calls that were made and about the store
    they leave. It has a workspace exactly if a write failed, and exactly if one was
    tried. Without a workspace nothing has happened. With one it names the file that
    could not be written, and only the entrypoint can have been written before. -/
structure Tells (error : StagingError) (made : List Call) (before after : MemoryStore) : Prop where
  upload_iff : error.workspace.isSome = true ↔ error.fault.isUpload = true
  put_iff : error.workspace.isSome = true ↔ ∃ uri content, .put uri content ∈ made
  untouched : error.workspace = none → made = [] ∧ after = before
  failed : ∀ workspace, error.workspace = some workspace → ∃ uri failure,
    error.fault = .upload uri failure ∧ (uri = workspace.entrypoint ∨ uri = workspace.context)
  left : ∀ workspace, error.workspace = some workspace →
    (after.without [workspace.entrypoint]).objects =
      (before.without [workspace.entrypoint]).objects
  behind : ∀ workspace, error.workspace = some workspace → after ≠ before →
    ∃ failure script project, error.fault = .upload workspace.context failure ∧
      made = [.put workspace.entrypoint script, .put workspace.context project]

/-- Before there is a workspace nothing has happened. -/
theorem tells_of_unready {fault : StagingFault} (h : fault.isUpload = false)
    (store : MemoryStore) : Tells ⟨fault, none⟩ [] store store where
  upload_iff := iff_of_false Bool.false_ne_true (ne_true_of_eq_false h)
  put_iff := iff_of_false Bool.false_ne_true fun ⟨_, _, hno⟩ => List.not_mem_nil hno
  untouched _ := ⟨rfl, rfl⟩
  failed _ hnone := nomatch hnone
  left _ hnone := nomatch hnone
  behind _ hnone := nomatch hnone

variable (room : Stockroom service)

/-- What is left of a workspace that was not filled. -/
theorem tells_of_fills {workspace : Workspace} {error : StagingError} {talk : List Exchange}
    {state final : σ} (h : Fills workspace (some (.error error)) talk)
    (hdialogue : Dialogue service state talk final) :
    error.workspace = some workspace ∧
      Tells error (talk.map (·.call)) (room.store state) (room.store final) := by
  cases h with
  | entrypointRefused script failure =>
      rcases hdialogue.of_cons with ⟨hrefused, hrest⟩
      cases hrest
      rw [room.put_error hrefused]
      refine ⟨rfl, iff_of_true rfl rfl, iff_of_true rfl ⟨_, script, List.mem_cons_self⟩,
        (fun hnone => nomatch hnone), ?_, ?_, ?_⟩
      · rintro _ ⟨⟩
        exact ⟨_, failure, rfl, .inl rfl⟩
      · exact fun _ _ => rfl
      · exact fun _ _ hchanged => absurd rfl hchanged
  | contextRefused script project failure =>
      rcases hdialogue.of_cons with ⟨hstored, hrest⟩
      rcases hrest.of_cons with ⟨hrefused, hrest⟩
      cases hrest
      -- Only the first of the two has changed the store.
      rw [room.put_error hrefused, room.put_ok hstored]
      refine ⟨rfl, iff_of_true rfl rfl, iff_of_true rfl ⟨_, script, List.mem_cons_self⟩,
        (fun hnone => nomatch hnone), ?_, ?_, ?_⟩
      · rintro _ ⟨⟩
        exact ⟨_, failure, rfl, .inr rfl⟩
      · rintro _ ⟨⟩
        exact MemoryStore.without_write _ _ List.mem_cons_self
      · rintro _ ⟨⟩ _
        exact ⟨failure, script, project, rfl, rfl⟩

/-- An error tells what has to be cleaned up, whatever the file system and the
    service answer. The workspace that it has, if it has any, is the one that was
    allocated for the name of the entrypoint. -/
theorem tells_of_prepare {files : Files (Action σ)} (hfiles : files.IsLocal) {rounds : Nat}
    {asset : Asset} {pipeline runId : String} {base : Option ObjectUri}
    {session final : Session σ} {error : StagingError}
    (h : prepare (Session.hostOn service files rounds) asset pipeline base runId session =
      (some (.error error), final)) :
    ∃ made, final.calls = session.calls ++ made ∧
      Tells error made (room.store session.state) (room.store final.state) ∧
      ∀ workspace, error.workspace = some workspace → ∃ uri fileName, base = some uri ∧
        asset.fileName? = some fileName ∧
        workspace = Workspace.allocate uri pipeline runId fileName := by
  have htalks : Action.Talks service
      (prepare (Session.hostOn service files rounds) asset pipeline base runId)
      (Prepares asset pipeline base runId) :=
    talks_prepare hfiles rounds asset pipeline base runId
  rcases htalks session with ⟨talk, hcalls, hdialogue, hprepares⟩
  rw [h] at hcalls hdialogue hprepares
  refine ⟨talk.map (·.call), hcalls, ?_⟩
  generalize hresult : some (Except.error error) = result at hprepares
  cases hprepares with
  | stuck => exact nomatch hresult
  | @unready fault hfault =>
      rw [Option.some.injEq, Except.error.injEq] at hresult
      have hsame : final.state = session.state := hdialogue.of_nil
      rw [hresult, hsame]
      exact ⟨tells_of_unready hfault _, fun _ hnone => nomatch hnone⟩
  | filling hbase hname hfill =>
      rw [← hresult] at hfill
      rcases tells_of_fills room hfill hdialogue with ⟨hworkspace, htells⟩
      refine ⟨htells, fun workspace hsome => ?_⟩
      rw [hworkspace, Option.some.injEq] at hsome
      exact ⟨_, _, hbase, hname, hsome.symm⟩

/-- A store that takes everything but the archive of a project. -/
def choosy : MemoryStore where
  pageSize := 1
  descending := false
  objects := []
  version := 0
  faults := [⟨.put, "context.zip", 0, none, .zero, some (.notFound "context.zip")⟩]

/-- The entrypoint was written and the archive was not, so the error has the
    workspace, and nothing but the entrypoint is there. -/
theorem tells_of_prepare_choosy :
    ∃ error final made, prepare (Session.hostOn Rehearsal.service project.files 9)
        (projectAsset "main.py") "daily" (some ⟨"s3", "bucket", "ws"⟩) "run-7"
        (Session.start (Rehearsal.idle choosy) none) = (some (.error error), final) ∧
      error.workspace =
        some (Workspace.allocate ⟨"s3", "bucket", "ws"⟩ "daily" "run-7" "main.py") ∧
      final.calls = made ∧ Tells error made { choosy with faults := [] }
        { final.state.store with faults := [] } ∧
      final.state.store.Holds ⟨"s3", "bucket", "ws/daily/run-7/main.py"⟩ [2] := by
  have hgathered : Gathered project (projectAsset "main.py") ⟨"main.py", [2], _⟩ :=
    gathered_project (by decide +kernel) (FileTree.find_of_at? true (by decide +kernel)
      (by decide +kernel) (by decide +kernel) rfl rfl) (by decide +kernel)
  have hrun := congrFun (prepare_of_gathered project Rehearsal.service 9
    hgathered "daily" "run-7" ⟨"s3", "bucket", "ws"⟩)
    (Session.start (Rehearsal.idle choosy) none)
  rw [Session.host_eq_hostOn] at hrun
  rcases tells_of_prepare Rehearsal.stockroom (FileTree.isLocal_files project) (hrun.trans rfl)
    with ⟨made, hmade, htells, _⟩
  exact ⟨_, _, made, hrun.trans rfl, rfl, hmade, htells, by decide +kernel⟩

end Staging

end BatchRun
