import BatchRun.Proofs.Job.Alike
import BatchRun.Proofs.Store.Shared

/-!
# Workspaces of Other Runs

Deleting one workspace leaves those of other runs alone, and the logs.

Whatever fails and whenever the time is up, deleting a workspace only asks for what
a listing has named. These keys are below the workspace, and an address that is made
of such a key is neither below another workspace of the pipeline nor, unless the
pipeline is named so, below the logs. So it does not matter what the other runs do
in the meantime: below their workspaces the store becomes what they make of it.

## Main definitions

* `Call.StemsFrom`: A call that lists a place, or deletes what was listed.
* `Sifts`: All calls of a dialogue stem from its listings.
* `SharedRoom.Spares`: Some calls have left a place alone.

## Theorems

* `Staging.talks_destroy`: Deleting a workspace only deletes what was listed.
* `SharedRoom.spares_of_sifts`: Such a dialogue spares what its place does not reach.
* `Staging.destroy_spares_others`: Workspaces of other runs are left alone.
-/

namespace BatchRun

/-- A call that lists what is below an address, or deletes what such a listing in a
    dialogue has named. -/
inductive Call.StemsFrom (root : ObjectUri) (talk : List Exchange) : Call → Prop
  | list (token : Option String) : StemsFrom root talk (.list root token)
  | delete {token : Option String} {page : ObjectPage} {object : ObjectSummary}
      (hpage : ⟨.list root token, some (.ok page)⟩ ∈ talk) (hobject : object ∈ page.objects) :
      StemsFrom root talk (.delete (root.withKey object.key))

namespace Call.StemsFrom

variable {root : ObjectUri} {talk : List Exchange} {call : Call}

theorem sweeps (h : call.StemsFrom root talk) : call.sweeps = true := by
  cases h with
  | list token => rfl
  | delete _ _ => rfl

theorem mono {more : List Exchange} (h : call.StemsFrom root talk) (hsubset : talk ⊆ more) :
    call.StemsFrom root more := by
  cases h with
  | list token => exact .list token
  | delete hpage hobject => exact .delete (hsubset hpage) hobject

end Call.StemsFrom

/-- All calls of a dialogue are for clearing a place, and stem from its listings. -/
def Sifts (root : ObjectUri) (talk : List Exchange) : Prop :=
  ∀ exchange ∈ talk, exchange.call.StemsFrom root talk

namespace Sifts

variable {root : ObjectUri}

theorem listing (token : Option String) (answer : Option (Except ServiceError ObjectPage)) :
    Sifts root [⟨.list root token, answer⟩] := by
  intro exchange hmem
  rw [List.mem_singleton.mp hmem]
  exact .list token

theorem append {front back : List Exchange} (hfront : Sifts root front) (hback : Sifts root back) :
    Sifts root (front ++ back) := by
  intro exchange hmem
  rcases List.mem_append.mp hmem with hmem | hmem
  · exact (hfront exchange hmem).mono (List.subset_append_left _ _)
  · exact (hback exchange hmem).mono (List.subset_append_right _ _)

/-- A listing, and deletions of what it has named. -/
theorem page {token : Option String} {page : ObjectPage} {each : List Exchange}
    (h : ∀ exchange ∈ each, ∃ object ∈ page.objects,
      exchange.call = .delete (root.withKey object.key)) :
    Sifts root (⟨.list root token, some (.ok page)⟩ :: each) := by
  intro exchange hmem
  rcases List.mem_cons.mp hmem with rfl | hmem
  · exact .list token
  · rcases h exchange hmem with ⟨object, hobject, hcall⟩
    rw [hcall]
    exact .delete List.mem_cons_self hobject

end Sifts

/-- An answer in a dialogue is what the service has made of the call in some state. -/
theorem Dialogue.exists_answer {σ : Type} {service : Service σ} {state final : σ}
    {talk : List Exchange} (h : Dialogue service state talk final) {call : Call}
    {answer : Except ServiceError call.Answer} (hmem : ⟨call, some answer⟩ ∈ talk) :
    ∃ asked, (service.reply call asked).answer = answer := by
  induction h with
  | done => exact absurd hmem List.not_mem_nil
  | @answered state _ _ _ _ ih =>
      rcases List.mem_cons.mp hmem with heq | hmem
      · cases heq
        exact ⟨state, rfl⟩
      · exact ih hmem
  | brokenOff _ _ ih =>
      rcases List.mem_cons.mp hmem with heq | hmem
      · exact nomatch heq
      · exact ih hmem

namespace Staging

variable {σ : Type} {service : Service σ} (tree : FileTree) (rounds : Nat)

/-- Deleting everything from a cursor on only deletes what was listed. -/
theorem talks_deleteAll (root : ObjectUri) (more : Nat) (token : Option String) :
    Action.Talks service (deleteAll (Session.host service tree rounds) root more token)
      fun _ talk => Sifts root talk := by
  induction more generalizing token with
  | zero =>
      have hwait : Alike service service (Call.StemsFrom root []) (fun _ => True)
          (deleteAll (Session.host service tree rounds) root 0 token)
          (deleteAll (Session.host service tree rounds) root 0 token) := .wait tree rounds
      exact hwait.talks.mono fun _ talk htalk exchange hmem =>
        (htalk.1 exchange hmem).mono (List.nil_subset _)
  | succ more ih =>
      refine Action.talks_bind (Action.talks_ask (.list root token)) ?_
        fun answer front hfront => ?_
      · rintro talk rfl
        exact .listing token none
      rw [hfront]
      cases answer with
      | error error => exact Action.talks_pure (.listing token _)
      | ok page =>
          have heach := (show Alike service service (fun call => ∃ object ∈ page.objects,
            call = .delete (root.withKey object.key)) (fun _ => True) _ _ from
              alike_deleteEach tree rounds root page.objects fun object hobject =>
                ⟨object, hobject, rfl⟩).talks
          -- The page stands in front of the calls that delete what is on it.
          refine Action.talks_bind heach (fun each heach => .page heach.1) fun _ each heach => ?_
          cases page.nextToken with
          | none =>
              refine Action.talks_pure ?_
              rw [List.append_nil]
              exact .page heach.1
          | some next =>
              refine (ih next).mono fun _ back hback => ?_
              rw [← List.append_assoc]
              exact (Sifts.page heach.1).append hback

/-- So does deleting a workspace, which comes to its end in any case. -/
theorem talks_destroy (limit : Span) (workspace : Workspace) :
    Action.Talks service (destroy (Session.host service tree rounds) limit workspace)
      fun result talk => Sifts workspace.root talk ∧ result = some () :=
  Action.talks_limited tree rounds (talks_deleteAll tree rounds workspace.root rounds none) limit _

end Staging

namespace SharedRoom

variable {σ : Type} {service : Service σ} (room : SharedRoom service)

/-- Some calls between two states have left a place alone: none is for an object
    below it, and only the others have changed anything there. -/
structure Spares (place : ObjectUri) (state : σ) (made : List Call) (final : σ) : Prop where
  deletes : ∀ call ∈ made, ¬ call.DeletesBelow place
  onlyOthers : room.OnlyOthers place state final

variable {room} {root place : ObjectUri} {state final : σ} {talk : List Exchange}

/-- What a listing has named is only deleted where its address reaches. -/
theorem reaches_of_stemsFrom (room : SharedRoom service) (h : Dialogue service state talk final)
    (hroot : root.Normal) (hne : root.key.toList ≠ []) {uri : ObjectUri}
    (hstems : (Call.delete uri).StemsFrom root talk) : root.Reaches uri := by
  cases hstems with
  | delete hpage hobject =>
      rcases h.exists_answer hpage with ⟨asked, hanswer⟩
      exact ObjectUri.reaches_withKey hroot hne (room.listed hanswer _ hobject)

/-- A dialogue that clears one place spares another one that its address does not
    reach. -/
theorem spares_of_sifts (h : Dialogue service state talk final) (hsifts : Sifts root talk)
    (hroot : root.Normal) (hne : root.key.toList ≠ [])
    (houtside : ∀ uri, root.Reaches uri → ¬ place.Holds uri) :
    room.Spares place state (talk.map (·.call)) final := by
  have hspares : ∀ exchange ∈ talk, ¬ exchange.call.DeletesBelow place := by
    -- Only a call that deletes can be for an object below the place.
    intro exchange hmem hbelow
    have hstems := hsifts exchange hmem
    cases hcall : exchange.call with
    | delete uri =>
        rw [hcall] at hstems hbelow
        exact houtside uri (room.reaches_of_stemsFrom h hroot hne hstems) hbelow
    | _ =>
        rw [hcall] at hbelow
        exact hbelow
  refine ⟨fun call hcall => ?_, ?_⟩
  · rcases List.mem_map.mp hcall with ⟨exchange, hmem, rfl⟩
    exact hspares exchange hmem
  · exact onlyOthers_of_dialogue h fun exchange hmem =>
      ⟨(hsifts exchange hmem).sweeps, hspares exchange hmem⟩

end SharedRoom

namespace Staging

variable {σ : Type} {service : Service σ} (tree : FileTree) (rounds : Nat)

/-- Whatever a store has, whatever fails, however long it takes and whatever the
    others do in the meantime: deleting the workspace of one run asks for nothing
    below that of another run of the pipeline, where only the others change anything.
    The same holds for the logs, unless the first component of the pipeline has their
    name. -/
theorem destroy_spares_others (room : SharedRoom service) {base : ObjectUri} (hbase : base.Normal)
    (pipeline : String) {runId other : String} (hrun : Uuid.Shaped runId)
    (hother : Uuid.Shaped other) (hne : runId ≠ other) (file otherFile : String) (limit : Span)
    (session : Session σ) :
    ∃ final made, destroy (Session.host service tree rounds) limit
        (Workspace.allocate base pipeline runId file) session = (some (), final) ∧
      final.calls = session.calls ++ made ∧
      room.Spares (Workspace.allocate base pipeline other otherFile).root session.state made
        final.state ∧
      (firstComponent (trimSlashes pipeline.toList) ≠ "logs".toList →
        room.Spares (Workspace.allocate base pipeline runId file).logs session.state made
          final.state) := by
  rcases talks_destroy tree rounds limit (Workspace.allocate base pipeline runId file) session with
    ⟨talk, hcalls, hdialogue, hsifts, hresult⟩
  have hroot : (Workspace.allocate base pipeline runId file).root.Normal :=
    Workspace.normal_root hbase runId file
  have hkey : (Workspace.allocate base pipeline runId file).root.key.toList ≠ [] :=
    Workspace.key_root_ne_nil hrun file
  refine ⟨_, _, Prod.ext hresult rfl, hcalls, ?_, fun hpipeline => ?_⟩
  · exact SharedRoom.spares_of_sifts hdialogue hsifts hroot hkey fun uri hreaches =>
      Workspace.not_holds_of_reaches hrun hother hne hreaches
  · exact SharedRoom.spares_of_sifts hdialogue hsifts hroot hkey fun uri hreaches =>
      Workspace.not_logs_of_reaches hrun hpipeline hreaches

/-- The workspace of one of two runs of a pipeline. -/
def oneOfTwo (millis : Nat) : Workspace :=
  Workspace.allocate ⟨"s3", "bucket", "ws"⟩ "p" (Uuid.timed millis []) "main.py"

/-- A store with the entrypoints of two runs and a log. While the first run is deleted,
    the second one puts its archive and deletes its entrypoint. -/
def twoRuns : Commons where
  store :=
    { pageSize := 1
      descending := false
      objects := [⟨"bucket", (oneOfTwo 1).entrypoint.key, [], 0, none⟩,
        ⟨"bucket", (oneOfTwo 2).entrypoint.key, [], 0, none⟩,
        ⟨"bucket", "ws/logs/app.log", [], 0, none⟩]
      version := 0
      faults := [] }
  schedule := [([.put (oneOfTwo 2).context []], []), ([], [.delete (oneOfTwo 2).entrypoint])]
  made := []

/-- Only the entrypoint of the first run is gone, and what the second has deleted. -/
theorem destroy_spares_others_amid :
    ∃ final made, destroy (Session.host Commons.service FileTree.empty 9) (.ofSeconds 120)
        (oneOfTwo 1) (Session.start twoRuns none) = (some (), final) ∧
      Commons.room.Spares (oneOfTwo 2).root twoRuns made final.state ∧
      Commons.room.Spares (oneOfTwo 1).logs twoRuns made final.state ∧
      final.state.store.objects.map (·.key) = ["ws/logs/app.log", (oneOfTwo 2).context.key] := by
  have hbase : (⟨"s3", "bucket", "ws"⟩ : ObjectUri).Normal := by decide +kernel
  have hobjects : (destroy (Session.host Commons.service FileTree.empty 9) (.ofSeconds 120)
      (oneOfTwo 1) (Session.start twoRuns none)).2.state.store.objects.map (·.key) =
        ["ws/logs/app.log", (oneOfTwo 2).context.key] := by decide +kernel
  rcases destroy_spares_others FileTree.empty 9 Commons.room hbase "p" (Uuid.shaped_timed 1 [])
      (Uuid.shaped_timed 2 []) (by decide +kernel) "main.py" "main.py" (.ofSeconds 120)
      (Session.start twoRuns none) with ⟨final, made, hrun, _, hroot, hlogs⟩
  have hdone : destroy (Session.host Commons.service FileTree.empty 9) (.ofSeconds 120)
      (oneOfTwo 1) (Session.start twoRuns none) = (some (), final) := hrun
  rw [hdone] at hobjects
  exact ⟨final, made, hdone, hroot, hlogs (by decide +kernel), hobjects⟩

end Staging

end BatchRun
