import BatchRun.Proofs.Staging.Clearing

/-!
# What Is Left of a Workspace

Which objects are still there when a workspace has been deleted.

A call deletes the object at its address, and the addresses are made of listed
keys without outer slashes. So an object that is listed under such a key has a
call of its own, and stays exactly if no call at its address has succeeded. A key
that ends with a slash is the address of no call at all: its object always stays,
and the call that is made for it is at the address without the slash. If nothing
but slashes is behind the key of the workspace this is that key itself, which
does not belong to the workspace.

## Theorems

* `Staging.clears_of_destroy`: A workspace is cleared unless it takes too long.
* `Staging.left_of_destroy`: What is left in the store.
* `Staging.marker_outlasts_destroy`: An object that is listed but not deleted,
  and one that is deleted but not listed.
-/

namespace BatchRun

variable {σ : Type} {service : Service σ}

namespace ClearsFrom

variable {room : Storeroom service} {root : ObjectUri} {token : Option String}
  {session final : Session σ} {made : List Call} {object : StoredObject}

/-- What is deleted is at the address that was made of a listed key. -/
theorem covers_of_mem_deleted (h : ClearsFrom room root token session final made)
    {uri : ObjectUri} (huri : uri ∈ service.deleted made session.state) :
    ∃ object ∈ (room.store session.state).objects, root.Covers object ∧
      uri = root.withKey object.key := by
  cases h.asked _ (Service.delete_mem_of_mem_deleted huri) with
  | delete hmem hcovered => exact ⟨_, hmem, hcovered, rfl⟩

/-- An object is left exactly if no call at its address has succeeded. -/
theorem left_iff (h : ClearsFrom room root token session final made)
    (hmem : object ∈ (room.store session.state).objects) :
    object ∈ (room.store final.state).objects ↔ (object.bucket = root.bucket →
      { root with key := object.key } ∉ service.deleted made session.state) := by
  rw [h.mem_final_iff, and_iff_right hmem]
  constructor
  · intro hleft hbucket hdeleted
    have hat := hleft _ hdeleted
    simp only [MemoryStore.isAt, hbucket, beq_self_eq_true, Bool.and_self,
      Bool.true_eq_false] at hat
  · intro hspared uri huri
    rcases h.covers_of_mem_deleted huri with ⟨_, _, _, rfl⟩
    rw [Bool.eq_false_iff]
    intro hat
    rw [MemoryStore.isAt, Bool.and_eq_true, beq_iff_eq, beq_iff_eq] at hat
    refine hspared hat.1 ?_
    rw [hat.2]
    exact huri

/-- An object under a clear key has a call of its own. -/
theorem delete_mem (h : ClearsFrom room root token session final made)
    (hlists : ∀ exchange ∈ service.exchanges made session.state,
      exchange.call.isListing = true → exchange.failed = false)
    (hmem : object ∈ (room.store session.state).objects)
    (hlisted : (room.store session.state).isListed root token object = true)
    (hclear : EndsClear object.key.toList) :
    .delete { root with key := object.key } ∈ made := by
  rcases h.reached hlists object hmem hlisted with hreached | hgone
  · rwa [ObjectUri.withKey_of_endsClear root hclear] at hreached
  · -- It was deleted before it could be listed, so there was such a call before.
    rw [h.left_iff hmem, Classical.not_imp, Classical.not_not] at hgone
    exact Service.delete_mem_of_mem_deleted hgone.2

end ClearsFrom

namespace Staging

variable (tree : FileTree) (rounds : Nat) {limit : Span} {workspace : Workspace}
  {session final : Session σ}

/-- A workspace is cleared, or there is a warning that it took too long. -/
theorem clears_of_destroy (room : Storeroom service)
    (hsize : 0 < (room.store session.state).pageSize)
    (h : destroy (Session.host service tree rounds) limit workspace session = (some (), final))
    (hintime : .cleanupTimedOut limit workspace.root ∉ final.warnings) :
    ∃ made, ClearsFrom room workspace.root none session final made := by
  rcases Action.eq_of_bind h with ⟨done, middle, hwithin, hwarn⟩
  rcases Session.eq_of_within hwithin with ⟨result, after, hall, rfl, rfl⟩
  cases result with
  | none =>
      have hwarned : final = Session.record _ (.warned _) := (congrArg Prod.snd hwarn).symm
      rw [hwarned] at hintime
      exact absurd (Session.mem_warnings_record _ _) hintime
  | some _ =>
      rcases Action.eq_of_pure hwarn with ⟨_, rfl⟩
      -- The limit neither makes calls nor has a part in the state.
      rcases clears_of_deleteAll room (by exact hsize) hall with ⟨made, hclears⟩
      exact ⟨made, hclears.calls, hclears.state, hclears.asked, hclears.reached⟩

/-- What is left when a workspace has been deleted, if no listing failed and it did
    not take too long. Whatever else fails, an object stays if its key ends with a
    slash or begins with one. An object of the workspace under any other key is
    asked for by that key, and stays exactly if no such call has succeeded. Outside
    the workspace everything stays but what has the key of the workspace itself. -/
theorem left_of_destroy (room : Storeroom service) (hroot : workspace.root.Normal)
    (hsize : 0 < (room.store session.state).pageSize)
    (h : destroy (Session.host service tree rounds) limit workspace session = (some (), final))
    (hintime : .cleanupTimedOut limit workspace.root ∉ final.warnings) {made : List Call}
    (hmade : final.calls = session.calls ++ made)
    (hlists : ∀ exchange ∈ service.exchanges made session.state,
      exchange.call.isListing = true → exchange.failed = false) :
    (room.store final.state).objects.Sublist (room.store session.state).objects ∧
    ∀ object ∈ (room.store session.state).objects,
      (¬ EndsClear object.key.toList → object ∈ (room.store final.state).objects) ∧
      (workspace.root.Covers object → EndsClear object.key.toList →
        .delete { workspace.root with key := object.key } ∈ made ∧
        (object ∈ (room.store final.state).objects ↔
          { workspace.root with key := object.key } ∉ service.deleted made session.state)) ∧
      (¬ workspace.root.Covers object → object.key ≠ workspace.root.key →
        object ∈ (room.store final.state).objects) := by
  rcases clears_of_destroy tree rounds room hsize h hintime with ⟨made', hclears⟩
  have hsame : made' = made := List.append_cancel_left (hclears.calls.symm.trans hmade)
  rw [hsame] at hclears
  refine ⟨?_, fun object hmem => ⟨fun hmarker => ?_, fun hcovered hclear => ⟨?_, ?_⟩,
    fun houtside hkey => ?_⟩⟩
  · rw [hclears.state, room.store_after hclears.sweeps]
    exact List.filter_sublist
  · rw [hclears.left_iff hmem]
    intro _ hdeleted
    rcases hclears.covers_of_mem_deleted hdeleted with ⟨other, _, _, huri⟩
    -- Addresses are made of clear keys only, so none is that of a marker.
    refine hmarker ?_
    rw [show object.key = (workspace.root.withKey other.key).key from congrArg ObjectUri.key huri]
    exact ObjectUri.normal_make _ _ _
  · exact hclears.delete_mem hlists hmem ((MemoryStore.isListed_none object).mpr hcovered) hclear
  · rw [hclears.left_iff hmem]
    exact ⟨fun hleft => hleft hcovered.1, fun hspared _ => hspared⟩
  · rw [hclears.left_iff hmem]
    intro hbucket hdeleted
    rcases hclears.covers_of_mem_deleted hdeleted with ⟨other, _, hcovered, huri⟩
    have htrimmed : object.key.toList = trimSlashes other.key.toList := by
      rw [show object.key = (workspace.root.withKey other.key).key from congrArg ObjectUri.key huri]
      exact String.toList_ofList
    -- The listed key from which this address was made is below the root.
    rcases ObjectUri.trimSlashes_listing hroot hcovered.2 with hitself | hbelow
    · exact hkey (String.toList_inj.mp (htrimmed.trans hitself))
    · exact houtside ⟨hbucket, by rwa [htrimmed]⟩

/-- A workspace of which one object cannot be deleted, beside another run's. -/
def reluctant : MemoryStore where
  pageSize := 1
  descending := false
  objects := [⟨"bucket", "ws/p/r/main.py", [], 0, none⟩, ⟨"bucket", "ws/p/rest", [], 0, none⟩]
  version := 0
  faults := [⟨.delete, "main.py", 0, none, .zero, some (.notFound "main.py")⟩]

/-- Both stay, the one because its call has failed and the other because it has
    none. -/
theorem left_of_destroy_reluctant :
    ∃ final, destroy (Session.host Rehearsal.service FileTree.empty 9) (.ofSeconds 120)
        (Workspace.allocate ⟨"s3", "bucket", "ws"⟩ "p" "r" "main.py")
        (Session.start (Rehearsal.idle reluctant) none) = (some (), final) ∧
      ∀ object ∈ reluctant.objects, object ∈ final.state.store.objects := by
  have hrun : destroy (Session.host Rehearsal.service FileTree.empty 9) (.ofSeconds 120)
      (Workspace.allocate ⟨"s3", "bucket", "ws"⟩ "p" "r" "main.py")
      (Session.start (Rehearsal.idle reluctant) none) = (some (), _) :=
    Prod.ext (by decide +kernel) rfl
  refine ⟨_, hrun, ?_⟩
  have hleft := (left_of_destroy FileTree.empty 9 Rehearsal.storeroom (by decide +kernel)
    (by decide +kernel) hrun (by decide +kernel) rfl (by decide +kernel)).2
  intro object hmem
  rcases List.mem_cons.mp hmem with rfl | hmem
  · exact ((hleft _ List.mem_cons_self).2.1 (by decide +kernel) (by decide +kernel)).2.mpr
      (by decide +kernel)
  · rw [List.mem_singleton.mp hmem]
    exact (hleft _ (List.mem_cons_of_mem _ List.mem_cons_self)).2.2 (by decide +kernel)
      (by decide +kernel)

/-- A workspace with a marker for a directory, beside an object whose key is that
    of the workspace. -/
def marked : MemoryStore where
  pageSize := 1
  descending := false
  objects := [⟨"bucket", "ws/p/r", [], 0, none⟩, ⟨"bucket", "ws/p/r/", [], 0, none⟩]
  version := 0
  faults := []

/-- The marker stays although it belongs to the workspace and no call has failed,
    and the object that does not belong to the workspace is deleted. -/
theorem marker_outlasts_destroy :
    ∃ final, destroy (Session.host Rehearsal.service FileTree.empty 9) (.ofSeconds 120)
        (Workspace.allocate ⟨"s3", "bucket", "ws"⟩ "p" "r" "main.py")
        (Session.start (Rehearsal.idle marked) none) = (some (), final) ∧
      final.warnings = [] ∧
      (∀ exchange ∈ Rehearsal.service.exchanges final.calls (Rehearsal.idle marked),
        exchange.failed = false) ∧
      marked.objects.filter (fun object => (Workspace.allocate ⟨"s3", "bucket", "ws"⟩ "p" "r"
        "main.py").root.Covers object) = [⟨"bucket", "ws/p/r/", [], 0, none⟩] ∧
      final.state.store.objects = [⟨"bucket", "ws/p/r/", [], 0, none⟩] := by
  refine ⟨_, Prod.ext ?_ rfl, ?_, ?_, ?_, ?_⟩
  all_goals decide +kernel

end Staging

end BatchRun
