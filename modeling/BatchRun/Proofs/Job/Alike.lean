import BatchRun.Job
import BatchRun.Proofs.Session.Alike

/-!
# A Job with Two Services

Everything that a job does, step by step, with either of two services.

Each part of a job is alike to itself with another service. What is known of the
calls of a part is stated with it: staging only puts objects, a reader of logs
only lists and gets below its place, and deleting a workspace only lists and
deletes there.

## Main definitions

* `LogReader.Reads`: The calls of a reader of logs.
* `Watches`: The calls of supervision.

## Theorems

* `Staging.gather_files`, `Staging.alike_prepare`: Staging.
* `LogReader.alike_read`: Reading logs.
* `Supervision.alike_supervise`, `Supervision.alike_watch`: Supervision.
* `Job.alike_stage`, `Job.alike_follow`, `Job.alike_launch`: A job until its
  outcome is known.
-/

namespace BatchRun

variable {σ τ : Type} {first : Service σ} {second : Service τ} {P : Call → Prop}
  (tree : FileTree) (limit : Nat)

namespace Staging

theorem projectRoot?_files (folders : List Path) :
    ∃ root, ∀ σ : Type, projectRoot? (tree.files : Files (Action σ)) folders = pure root := by
  induction folders with
  | nil => exact ⟨none, fun _ => rfl⟩
  | cons folder rest ih =>
      rcases ih with ⟨root, hroot⟩
      by_cases hthere : tree.isThere (folder.below marker) = true
      · refine ⟨some folder, fun σ => ?_⟩
        simp only [projectRoot?, FileTree.files, pure_bind, hthere, if_true]
      · refine ⟨root, fun σ => ?_⟩
        rw [← hroot σ]
        simp only [projectRoot?, FileTree.files, pure_bind, hthere, Bool.false_eq_true, if_false]

theorem package_files (root : Path) :
    ∃ archive, ∀ σ : Type, package (tree.files : Files (Action σ)) root = pure archive := by
  cases hnode : tree.node root with
  | error fault =>
      refine ⟨.error (.unwalkable root fault), fun σ => ?_⟩
      simp only [package, FileTree.files, pure_bind, hnode]
  | ok node =>
      refine ⟨Archive.ofNode node, fun σ => ?_⟩
      simp only [package, FileTree.files, pure_bind, hnode]

theorem packageAround_files (entrypoint : Path) :
    ∃ archive, ∀ σ : Type,
      packageAround (tree.files : Files (Action σ)) entrypoint = pure archive := by
  rcases projectRoot?_files tree (Path.ancestors entrypoint) with ⟨root, hroot⟩
  cases root with
  | none =>
      refine ⟨.error (.noProject entrypoint), fun σ => ?_⟩
      simp only [packageAround, hroot σ, pure_bind]
  | some root =>
      rcases package_files tree root with ⟨archive, harchive⟩
      refine ⟨archive.mapError (.unpackable root), fun σ => ?_⟩
      simp only [packageAround, hroot σ, harchive σ, pure_bind]
      cases archive with
      | error fault => rfl
      | ok archive => rfl

/-- The files of a run are what they are, whatever the service does. -/
theorem gather_files (asset : Asset) :
    ∃ materials, ∀ σ : Type, gather (tree.files : Files (Action σ)) asset = pure materials := by
  -- Each question to the files has one answer, so all of them together have one.
  cases hname : asset.fileName? with
  | none =>
      refine ⟨.error (.noFileName asset.entrypoint), fun σ => ?_⟩
      simp only [gather, hname]
  | some fileName =>
      cases hscript : tree.content asset.entrypoint with
      | error fault =>
          refine ⟨.error (.unreadable asset.entrypoint fault), fun σ => ?_⟩
          simp only [gather, hname, FileTree.files, pure_bind, hscript]
      | ok script =>
          cases hplace : tree.resolved asset.entrypoint with
          | error fault =>
              refine ⟨.error (.unreadable asset.entrypoint fault), fun σ => ?_⟩
              simp only [gather, hname, FileTree.files, pure_bind, hscript, hplace]
          | ok entrypoint =>
              rcases packageAround_files tree entrypoint with ⟨archive, harchive⟩
              simp only [FileTree.files] at harchive
              refine ⟨archive.map fun archive => ⟨fileName, script, archive⟩, fun σ => ?_⟩
              simp only [gather, hname, FileTree.files, pure_bind, hscript, hplace, harchive σ]
              cases archive with
              | error fault => rfl
              | ok archive => rfl

theorem alike_upload (workspace : Workspace) {uri : ObjectUri} {content : Bytes}
    (h : P (.put uri content)) :
    Alike first second P (fun _ => True)
      (upload (Session.host first tree limit) workspace uri content)
      (upload (Session.host second tree limit) workspace uri content) := by
  refine .bind (.ask _ h) fun answer _ => ?_
  cases answer with
  | ok done => exact .value _
  | error error => exact .value _

theorem alike_fill (workspace : Workspace) (materials : Materials)
    (h : ∀ uri content, P (.put uri content)) :
    Alike first second P (fun _ => True) (fill (Session.host first tree limit) workspace materials)
      (fill (Session.host second tree limit) workspace materials) := by
  refine .bind (alike_upload tree limit workspace (h _ _)) fun script _ => ?_
  cases script with
  | error error => exact .value _
  | ok done =>
      refine .bind (alike_upload tree limit workspace (h _ _)) fun project _ => ?_
      cases project with
      | error error => exact .value _
      | ok done => exact .value _

theorem alike_prepare (asset : Asset) (pipeline : String) (base : Option ObjectUri)
    (runId : String) (h : ∀ uri content, P (.put uri content)) :
    Alike first second P (fun _ => True)
      (prepare (Session.host first tree limit) asset pipeline base runId)
      (prepare (Session.host second tree limit) asset pipeline base runId) := by
  cases base with
  | none => exact .value _
  | some base =>
      rcases gather_files tree asset with ⟨materials, hmaterials⟩
      simp only [prepare, Session.host, hmaterials, pure_bind]
      cases materials with
      | error fault => exact .value _
      | ok materials => exact alike_fill tree limit _ materials h

/-- Deleting listed objects only makes calls that delete them. -/
theorem alike_deleteEach (root : ObjectUri) (objects : List ObjectSummary)
    (h : ∀ object ∈ objects, P (.delete (root.withKey object.key))) :
    Alike first second P (fun _ => True)
      (deleteEach (Session.host first tree limit) root objects)
      (deleteEach (Session.host second tree limit) root objects) := by
  induction objects with
  | nil => exact .value _
  | cons object rest ih =>
      rcases List.forall_mem_cons.mp h with ⟨hfirst, hrest⟩
      exact .bind (.ask _ hfirst) fun _ _ => ih hrest

end Staging

namespace LogReader

/-- The calls of a reader of the logs below a place. -/
inductive Reads (place : Option ObjectUri) : Call → Prop
  | list {root : ObjectUri} (h : place = some root) (token : Option String) :
      Reads place (.list root token)
  | get {root : ObjectUri} (h : place = some root) {key : String} {source : LogSource}
      (hkey : LogSource.ofKey? root.listing key = some source) :
      Reads place (.get (root.withKey key))

variable {root : ObjectUri}

theorem alike_listAll (rounds : Nat) (token : Option String) (found : List ObjectSummary)
    (h : ∀ token, P (.list root token)) :
    Alike first second P (fun _ => True)
      (listAll (Session.host first tree limit) root rounds token found)
      (listAll (Session.host second tree limit) root rounds token found) := by
  induction rounds generalizing token found with
  | zero => exact .wait tree limit
  | succ rounds ih =>
      refine .bind (.ask _ (h token)) fun answer _ => ?_
      cases answer with
      | error error => exact .value _
      | ok page =>
          cases hnext : page.nextToken with
          | none =>
              simp only [hnext]
              exact .value _
          | some token =>
              simp only [hnext]
              exact ih (some token) _

theorem alike_fetch (flush : Bool) (cursors : Table String LogCursor) (object : ObjectSummary)
    (source : LogSource) (h : P (.get (root.withKey object.key))) :
    Alike first second P (fun _ => True)
      (fetch (Session.host first tree limit) root flush cursors object source)
      (fetch (Session.host second tree limit) root flush cursors object source) := by
  refine .bind (.ask _ h) fun answer _ => ?_
  cases answer with
  | error error => exact .value _
  | ok body =>
      cases hdecode : LogCursor.decode? object.key body with
      | none =>
          simp only [hdecode]
          exact .value _
      | some text =>
          simp only [hdecode]
          exact .value _

theorem alike_readObject (flush : Bool) (cursors : Table String LogCursor)
    (object : ObjectSummary) (h : ∀ key source, LogSource.ofKey? root.listing key = some source →
      P (.get (root.withKey key))) :
    Alike first second P (fun _ => True)
      (readObject (Session.host first tree limit) root flush cursors object)
      (readObject (Session.host second tree limit) root flush cursors object) := by
  unfold readObject
  cases hsource : LogSource.ofKey? root.listing object.key with
  | none => exact .value _
  | some source =>
      have hget := h _ _ hsource
      cases cursors.get? object.key with
      | none => exact alike_fetch tree limit flush cursors object source hget
      | some cursor =>
          simp only
          by_cases hcurrent : cursor.isCurrent object = true
          · rw [if_pos hcurrent, if_pos hcurrent]
            cases flush with
            | false => exact .value _
            | true => exact .value _
          · rw [if_neg hcurrent, if_neg hcurrent]
            exact alike_fetch tree limit flush cursors object source hget

theorem alike_readObjects (flush : Bool) (cursors : Table String LogCursor)
    (objects : List ObjectSummary) (h : ∀ key source,
      LogSource.ofKey? root.listing key = some source → P (.get (root.withKey key))) :
    Alike first second P (fun _ => True)
      (readObjects (Session.host first tree limit) root flush cursors objects)
      (readObjects (Session.host second tree limit) root flush cursors objects) := by
  induction objects generalizing cursors with
  | nil => exact .value _
  | cons object rest ih =>
      refine .bind (alike_readObject tree limit flush cursors object h) fun read _ => ?_
      exact .bind (ih read.2) fun more _ => .value _

/-- Reading logs only lists and gets below the place of the reader, which stays
    where it is. -/
theorem alike_read (flush : Bool) (reader : LogReader) :
    Alike first second (Reads reader.root) (fun read => read.2.root = reader.root)
      (read (Session.host first tree limit) flush reader)
      (read (Session.host second tree limit) flush reader) := by
  unfold read
  cases hroot : reader.root with
  | none => exact .pure _ hroot
  | some root =>
      refine .bind (alike_listAll tree limit _ none [] fun token => .list rfl token)
        fun answer _ => ?_
      cases answer with
      | error error => exact .pure _ hroot
      | ok objects =>
          refine .bind (alike_readObjects tree limit flush reader.cursors _
            fun key source hkey => .get rfl hkey) fun read _ => ?_
          exact .pure _ rfl

end LogReader

namespace Supervision

variable {κ : Type} {I : κ → Prop} {read : Bool → κ → Action σ (List LogLine × κ)}
  {other : Bool → κ → Action τ (List LogLine × κ)}

theorem alike_report (runId : String) (reported : Option RunState) (attempt : Attempt) :
    Alike first second P (fun _ => True)
      (report (Session.host first tree limit) runId reported attempt)
      (report (Session.host second tree limit) runId reported attempt) := by
  unfold report
  by_cases hnew : reported ≠ some attempt.state
  · rw [if_pos hnew, if_pos hnew]
    by_cases hknown : (!attempt.state.isRecognized) = true
    · simp only [hknown, if_true]
      exact .bind (.say_warned _) fun _ _ => .say_line _
    · simp only [hknown, Bool.false_eq_true, if_false]
      exact .say_line _
  · rw [if_neg hnew, if_neg hnew]
    exact .value _

theorem alike_emitAll (lines : List LogLine) :
    Alike first second P (fun _ => True) (emitAll (Session.host first tree limit) lines)
      (emitAll (Session.host second tree limit) lines) := by
  induction lines with
  | nil => exact .value _
  | cons line rest ih => exact .bind (.say_line line.text) fun _ _ => ih

theorem alike_digest (runId : String) (watch : Watch κ) (page : AttemptPage)
    (hlogs : I watch.logs) (h : ∀ flush logs, I logs →
      Alike first second P (fun result => I result.2) (read flush logs) (other flush logs)) :
    Alike first second P (fun result => I result.2.logs)
      (digest (Session.host first tree limit) read runId watch page)
      (digest (Session.host second tree limit) other runId watch page) := by
  unfold digest
  cases page.latest with
  | none => exact .pure _ hlogs
  | some attempt =>
      refine .bind (alike_report tree limit runId watch.reported attempt) fun _ _ => ?_
      refine .bind (h _ _ hlogs) fun result hresult => ?_
      refine .bind (alike_emitAll tree limit result.1) fun _ _ => ?_
      exact .pure _ hresult

theorem alike_poll (handle : RunHandle) (watch : Watch κ) (hlogs : I watch.logs)
    (h : ∀ flush logs, I logs →
      Alike first second P (fun result => I result.2) (read flush logs) (other flush logs))
    (hpoll : ∀ token, P (.attempts handle token)) :
    Alike first second P (fun result => I result.2.logs)
      (poll (Session.host first tree limit) read handle watch)
      (poll (Session.host second tree limit) other handle watch) := by
  refine .bind (.ask _ (hpoll watch.token)) fun answer _ => ?_
  cases answer with
  | ok page =>
      exact alike_digest tree limit handle.runId { watch with timer := watch.timer.reset } page
        hlogs h
  | error error =>
      simp only
      by_cases hpatience : error.isThrottling = true
      · rw [if_pos hpatience, if_pos hpatience]
        exact .pure _ hlogs
      · rw [if_neg hpatience, if_neg hpatience]
        exact .pure _ hlogs

/-- Supervision only polls and reads logs. -/
theorem alike_supervise (handle : RunHandle) (rounds : Nat) (watch : Watch κ)
    (hlogs : I watch.logs) (h : ∀ flush logs, I logs →
      Alike first second P (fun result => I result.2) (read flush logs) (other flush logs))
    (hpoll : ∀ token, P (.attempts handle token)) :
    Alike first second P (fun _ => True)
      (supervise (Session.host first tree limit) read handle rounds watch)
      (supervise (Session.host second tree limit) other handle rounds watch) := by
  induction rounds generalizing watch with
  | zero => exact .wait tree limit
  | succ rounds ih =>
      refine .bind (.pause watch.timer.wait) fun cancelled _ => ?_
      cases cancelled with
      | true => exact .value _
      | false =>
          refine .bind (alike_poll tree limit handle watch hlogs h hpoll) fun result hresult => ?_
          rcases result with ⟨_ | outcome, after⟩
          · exact ih after hresult
          · exact .value _

end Supervision

theorem LogDestination.alike_resolve (params : RunParameters) (staged : Option Workspace)
    (handle : RunHandle) (h : P (.application handle.applicationId)) :
    Alike first second P (fun _ => True)
      (resolve (Session.host first tree limit) params staged handle)
      (resolve (Session.host second tree limit) params staged handle) := by
  unfold resolve
  cases params.logs with
  | some uri => exact .value _
  | none =>
      cases staged with
      | some staged => exact .value _
      | none =>
          refine .bind (.ask _ h) fun answer _ => ?_
          cases answer with
          | ok found => exact .value _
          | error error => exact .value _

namespace Job

theorem alike_stage (job : Job) (h : ∀ uri content, P (.put uri content)) :
    Alike first second P (fun _ => True) (stage (Session.host first tree limit) job)
      (stage (Session.host second tree limit) job) := by
  unfold stage
  by_cases hstaged : job.asset.staged = true
  · rw [if_pos hstaged, if_pos hstaged]
    refine .bind (Staging.alike_prepare tree limit _ _ _ _ h) fun workspace _ => ?_
    cases workspace with
    | ok workspace => exact .value _
    | error error => exact .value _
  · rw [if_neg hstaged, if_neg hstaged]
    exact .value _

end Job

/-- The calls by which a run is watched: polls, and what a reader of its logs
    asks. -/
inductive Watches (logs : Option ObjectUri) (handle : RunHandle) : Call → Prop
  | poll (token : Option String) : Watches logs handle (.attempts handle token)
  | read {call : Call} (h : LogReader.Reads (LogReader.make logs handle).root call) :
      Watches logs handle call

/-- Supervision with a reader of logs only watches the run. -/
theorem Supervision.alike_watch (logs : Option ObjectUri) (handle : RunHandle) (rounds : Nat)
    (timer : PollTimer) :
    Alike first second (Watches logs handle) (fun _ => True)
      (supervise (Session.host first tree limit) (LogReader.read (Session.host first tree limit))
        handle rounds (Watch.start timer (LogReader.make logs handle)))
      (supervise (Session.host second tree limit) (LogReader.read (Session.host second tree limit))
        handle rounds (Watch.start timer (LogReader.make logs handle))) := by
  refine alike_supervise tree limit handle rounds _
    (I := fun reader => reader.root = (LogReader.make logs handle).root) rfl ?_ .poll
  intro flush reader hroot
  rw [← hroot]
  exact (LogReader.alike_read tree limit flush reader).mono fun call hcall =>
    .read (by rwa [← hroot])

namespace Job

variable (settings : Settings) (job : Job) (workspace : Option Workspace)

theorem alike_follow (handle : RunHandle) :
    Alike first second (fun _ => True) (fun _ => True)
      (follow (Session.host first tree limit) settings job workspace handle)
      (follow (Session.host second tree limit) settings job workspace handle) := by
  refine .bind (LogDestination.alike_resolve tree limit job.params workspace handle trivial)
    fun destination _ => ?_
  refine .bind ((Supervision.alike_watch tree limit destination.uri? handle limit
    settings.timer).mono fun _ _ => trivial) fun result _ => ?_
  exact .value _

theorem alike_launch :
    Alike first second (fun _ => True) (fun _ => True)
      (launch (Session.host first tree limit) settings job workspace)
      (launch (Session.host second tree limit) settings job workspace) := by
  refine .bind (.ask _ trivial) fun answer _ => ?_
  cases answer with
  | error error => exact .value _
  | ok handle =>
      exact .bind (alike_follow tree limit settings job workspace handle) fun _ _ => .value _

end Job

end BatchRun
