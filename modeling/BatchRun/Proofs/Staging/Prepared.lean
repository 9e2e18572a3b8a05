import BatchRun.Proofs.Files
import BatchRun.Proofs.Staging.Place
import BatchRun.Proofs.Store.Storeroom

/-!
# Prepared Workspaces

What is in the store when a workspace has been prepared.

A workspace is prepared only if all its files are there: the entrypoint as it was
read, under the name by which it was given, and the archive of the nearest folder
above the resolved entrypoint that holds a marker. Both are put below the root of
the workspace, and nothing else is touched.

The two files share a folder, and the archive is put last. An entrypoint that has
the name of the archive is therefore overwritten by it.

## Main definitions

* `MemoryStore.Holds`: What a store has at an address.
* `Staging.Gathered`: The files of a run as they are in a file system.

## Theorems

* `MemoryStore.holds_write`: What was written is there.
* `Rehearsal.store_of_put`: What a call that succeeds leaves in the store.
* `ObjectUri.key_join_eq_iff`: The address of a file tells its name.
* `Staging.gathered_of_gather`: What is gathered is in the file system.
* `Staging.stocked_of_prepare`: The files of a prepared workspace.
-/

namespace BatchRun

namespace MemoryStore

/-- A store has an object with some content at an address. -/
def Holds (store : MemoryStore) (uri : ObjectUri) (content : Bytes) : Prop :=
  (store.find? uri).map (·.content) = some content

instance (store : MemoryStore) (uri : ObjectUri) (content : Bytes) :
    Decidable (store.Holds uri content) :=
  inferInstanceAs (Decidable (_ = _))

/-- A store in which something has been written as a call writes it. -/
def write (store : MemoryStore) (uri : ObjectUri) (content : Bytes) : MemoryStore :=
  store.apply (.put uri content)

variable (store : MemoryStore) {uri other : ObjectUri} (content : Bytes)

/-- Writing puts one object at the end, in the place of those at its address. -/
theorem objects_write (uri : ObjectUri) : ∃ object : StoredObject,
    object.content = content ∧ object.bucket = uri.bucket ∧ object.key = uri.key ∧
      (store.write uri content).objects =
        store.objects.filter (!isAt uri.bucket uri.key ·) ++ [object] :=
  ⟨_, rfl, rfl, rfl, rfl⟩

/-- What was written is there, whatever was there before. -/
theorem holds_write (uri : ObjectUri) : (store.write uri content).Holds uri content := by
  rcases store.objects_write content uri with ⟨object, hcontent, hbucket, hkey, hobjects⟩
  have hnone : (store.objects.filter (!isAt uri.bucket uri.key ·)).find?
      (isAt uri.bucket uri.key) = none := by
    rw [List.find?_eq_none]
    intro old hmem hat
    rw [List.mem_filter, hat] at hmem
    exact absurd hmem.2 Bool.false_ne_true
  have hat : isAt uri.bucket uri.key object = true := by
    rw [isAt, hbucket, hkey, beq_self_eq_true, beq_self_eq_true, Bool.and_self]
  rw [Holds, find?, hobjects, List.find?_append, hnone, Option.none_or, List.find?_singleton,
    if_pos hat, Option.map_some, hcontent]

/-- Elsewhere everything is as it was. -/
theorem find?_write_of_ne (hne : ¬ (other.bucket = uri.bucket ∧ other.key = uri.key)) :
    (store.write uri content).find? other = store.find? other := by
  rcases store.objects_write content uri with ⟨object, _, hbucket, hkey, hobjects⟩
  have hat : ¬ isAt other.bucket other.key object = true := by
    rw [isAt, hbucket, hkey, Bool.and_eq_true, beq_iff_eq, beq_iff_eq]
    exact fun h => hne ⟨h.1.symm, h.2.symm⟩
  rw [find?, hobjects, List.find?_append, List.find?_singleton, if_neg hat, Option.or_none,
    List.find?_filter, find?]
  refine congrArg (fun test => store.objects.find? test) (funext fun old => ?_)
  -- An object at the one address is not at the other.
  by_cases hold : isAt other.bucket other.key old = true
  · have hnot : isAt uri.bucket uri.key old = false := by
      rw [isAt, Bool.and_eq_true, beq_iff_eq, beq_iff_eq] at hold
      rw [isAt, Bool.and_eq_false_iff, beq_eq_false_iff_ne, beq_eq_false_iff_ne, hold.1, hold.2]
      exact Decidable.not_and_iff_or_not.mp hne
    rw [hnot, hold]
    rfl
  · rw [Bool.not_eq_true] at hold
    simp only [hold, Bool.false_eq_true, and_false, decide_false]

/-- Objects at other addresses are all kept, and in their order. -/
theorem without_write {uris : List ObjectUri} (hmem : uri ∈ uris) :
    ((store.write uri content).without uris).objects = (store.without uris).objects := by
  rcases store.objects_write content uri with ⟨object, _, hbucket, hkey, hobjects⟩
  have hat : isAt uri.bucket uri.key object = true := by
    rw [isAt, hbucket, hkey, beq_self_eq_true, beq_self_eq_true, Bool.and_self]
  have hnew : ¬ (uris.all fun uri => !isAt uri.bucket uri.key object) = true := by
    rw [List.all_eq_true]
    intro hall
    have hnot := hall uri hmem
    rw [hat] at hnot
    exact Bool.false_ne_true hnot
  have hgone : [object].filter (fun object => uris.all fun uri => !isAt uri.bucket uri.key object) =
      [] := by
    rw [List.filter_cons, if_neg hnew, List.filter_nil]
  simp only [without, hobjects, List.filter_append, hgone, List.append_nil, List.filter_filter]
  refine List.filter_congr fun old _ => ?_
  by_cases hall : (uris.all fun uri => !isAt uri.bucket uri.key old) = true
  · rw [hall, Bool.true_and]
    exact List.all_eq_true.mp hall uri hmem
  · rw [Bool.not_eq_true] at hall
    rw [hall, Bool.false_and]

/-- What is there when two objects have been written. The second one takes the
    place of the first if that has the same address. -/
theorem written_twice (first second : ObjectUri) (one two : Bytes) :
    ((store.write first one).write second two).Holds second two ∧
    (((store.write first one).write second two).Holds first one ↔
      ¬ (first.bucket = second.bucket ∧ first.key = second.key) ∨ one = two) ∧
    (((store.write first one).write second two).without [first, second]).objects =
      (store.without [first, second]).objects := by
  refine ⟨holds_write _ _ _, ?_, ?_⟩
  · by_cases hsame : first.bucket = second.bucket ∧ first.key = second.key
    · -- Where the first one was written there is the second one.
      have hsecond : ((store.write first one).write second two).find? first =
          ((store.write first one).write second two).find? second := by
        rw [find?, find?, hsame.1, hsame.2]
      have htwo := holds_write (store.write first one) two second
      rw [Holds] at htwo ⊢
      rw [hsecond, htwo, Option.some.injEq]
      constructor
      · exact fun h => .inr h.symm
      · rintro (hne | h)
        · exact absurd hsame hne
        · exact h.symm
    · refine ⟨fun _ => .inl hsame, fun _ => ?_⟩
      rw [Holds, find?_write_of_ne _ _ hsame]
      exact holds_write _ _ _
  · have hsecond : second ∈ [first, second] := List.mem_cons_of_mem _ List.mem_cons_self
    rw [without_write _ _ hsecond, without_write _ _ List.mem_cons_self]

end MemoryStore

/-- A call to write that succeeds has written, and counted on the faults at
    most. -/
theorem Rehearsal.store_of_put {uri : ObjectUri} {content : Bytes}
    {session next : Session Rehearsal}
    (h : Session.ask service (.put uri content) session = (some (.ok ()), next)) :
    ∃ faults, next.state.store = { session.state.store.write uri content with faults } := by
  rcases Session.eq_of_ask h with ⟨hanswer, hsettled⟩
  rw [← hsettled]
  rcases MemoryStore.reply_cases (.put uri content) session.state.store with
    ⟨faults, ⟨error, herror, _⟩ | ⟨_, hwritten⟩⟩
  · exact absurd (hanswer.symm.trans herror) (by simp only [reduceCtorEq, not_false_eq_true])
  · exact ⟨faults, hwritten⟩

namespace ObjectUri

/-- A name of a file leads below an address as it is. -/
theorem join_of_name (uri : ObjectUri) {name : String} (hslash : '/' ∉ name.toList)
    (hne : name.toList ≠ []) :
    (uri.join name).key.toList = uri.listing.toList ++ name.toList := by
  have htrim := trimSlashes_of_endsClear (endsClear_of_not_mem hslash)
  rw [key_join_eq uri (by rw [htrim]; exact hne), htrim]

/-- The address of a file tells its name. -/
theorem key_join_eq_iff (uri : ObjectUri) {first second : String}
    (hfirst : '/' ∉ first.toList ∧ first.toList ≠ [])
    (hsecond : '/' ∉ second.toList ∧ second.toList ≠ []) :
    (uri.join first).key = (uri.join second).key ↔ first = second := by
  rw [← String.toList_inj, join_of_name uri hfirst.1 hfirst.2,
    join_of_name uri hsecond.1 hsecond.2, List.append_cancel_left_eq, String.toList_inj]

end ObjectUri

/-- The two files of a run have one address exactly if the entrypoint has the name
    of the archive. -/
theorem Workspace.clash_allocate (base : ObjectUri) (pipeline runId : String) {file : String}
    (hfile : '/' ∉ file.toList ∧ file.toList ≠ []) :
    ((allocate base pipeline runId file).entrypoint.bucket =
        (allocate base pipeline runId file).context.bucket ∧
      (allocate base pipeline runId file).entrypoint.key =
        (allocate base pipeline runId file).context.key) ↔ file = "context.zip" := by
  have hcontext : '/' ∉ "context.zip".toList ∧ "context.zip".toList ≠ [] := by decide +kernel
  simp only [allocate, ObjectUri.bucket_join, true_and]
  exact ObjectUri.key_join_eq_iff _ hfile hcontext

namespace Staging

/-- The files of a run as they are in a file system: the entrypoint by its name
    and with its content, and the archive of the project around it. That is the
    nearest folder, of those above the place to which the entrypoint leads, that
    holds a marker. -/
structure Gathered (tree : FileTree) (asset : Asset) (materials : Materials) : Prop where
  name : asset.fileName? = some materials.fileName
  script : tree.content asset.entrypoint = .ok materials.script
  project : ∃ entrypoint nearer root farther,
    tree.resolved asset.entrypoint = .ok entrypoint ∧
    Path.ancestors entrypoint = nearer ++ root :: farther ∧
    (∀ folder ∈ nearer, tree.isThere (folder.below marker) = false) ∧
    tree.isThere (root.below marker) = true ∧
    ∃ node, tree.node root = .ok node ∧ Archive.ofNode node = .ok materials.archive

variable {σ : Type} (tree : FileTree)

/-- The root of a project is the first folder with a marker. -/
theorem nearest_of_projectRoot? {folders : List Path} {root : Path} {session next : Session σ}
    (h : projectRoot? (tree.files : Files (Action σ)) folders session = (some (some root), next)) :
    ∃ nearer farther, folders = nearer ++ root :: farther ∧
      (∀ folder ∈ nearer, tree.isThere (folder.below marker) = false) ∧
      tree.isThere (root.below marker) = true := by
  induction folders generalizing session with
  | nil => exact absurd (Action.eq_of_pure h).1 (by simp only [reduceCtorEq, not_false_eq_true])
  | cons folder rest ih =>
      rcases Action.eq_of_bind h with ⟨there, middle, hthere, h⟩
      rw [← (Action.eq_of_pure hthere).1] at h
      by_cases hmarked : tree.isThere (folder.below marker) = true
      · rw [if_pos hmarked] at h
        rw [← Option.some.inj (Action.eq_of_pure h).1]
        exact ⟨[], rest, rfl, fun _ hno => absurd hno List.not_mem_nil, hmarked⟩
      · rw [if_neg hmarked] at h
        rcases ih h with ⟨nearer, farther, hrest, hnearer, hroot⟩
        refine ⟨folder :: nearer, farther, by rw [hrest, List.cons_append], ?_, hroot⟩
        rw [List.forall_mem_cons]
        exact ⟨Bool.eq_false_iff.mpr hmarked, hnearer⟩

/-- The project around an entrypoint is in the nearest folder with a marker. -/
theorem project_of_packageAround {entrypoint : Path} {archive : Archive}
    {session next : Session σ}
    (h : packageAround (tree.files : Files (Action σ)) entrypoint session =
      (some (.ok archive), next)) :
    ∃ nearer root farther, Path.ancestors entrypoint = nearer ++ root :: farther ∧
      (∀ folder ∈ nearer, tree.isThere (folder.below marker) = false) ∧
      tree.isThere (root.below marker) = true ∧
      ∃ node, tree.node root = .ok node ∧ Archive.ofNode node = .ok archive := by
  rcases Action.eq_of_bind h with ⟨found, _, hfound, h⟩
  cases found with
  | none => exact absurd (Action.eq_of_pure h).1 (by simp only [reduceCtorEq, not_false_eq_true])
  | some root =>
      rcases nearest_of_projectRoot? tree hfound with ⟨nearer, farther, hancestors, hnearer, hroot⟩
      refine ⟨nearer, root, farther, hancestors, hnearer, hroot, ?_⟩
      rcases Action.eq_of_bind h with ⟨packed, _, hpacked, h⟩
      cases packed with
      | error fault =>
          exact absurd (Action.eq_of_pure h).1 (by simp only [reduceCtorEq, not_false_eq_true])
      | ok packed =>
          rw [← Except.ok.inj (Action.eq_of_pure h).1]
          rcases Action.eq_of_bind hpacked with ⟨node, _, hnode, hpacked⟩
          cases node with
          | error fault =>
              exact absurd (Action.eq_of_pure hpacked).1 (by simp only [reduceCtorEq,
                not_false_eq_true])
          | ok node => exact ⟨node, (Action.eq_of_pure hnode).1, (Action.eq_of_pure hpacked).1⟩

/-- What is gathered is in the file system. -/
theorem gathered_of_gather {asset : Asset} {materials : Materials} {session next : Session σ}
    (h : gather (tree.files : Files (Action σ)) asset session = (some (.ok materials), next)) :
    Gathered tree asset materials := by
  unfold gather at h
  cases hname : asset.fileName? with
  | none =>
      rw [hname] at h
      exact absurd (Action.eq_of_pure h).1 (by simp only [reduceCtorEq, not_false_eq_true])
  | some fileName =>
      rw [hname] at h
      -- Each question to the files must have been answered for the next one to be asked.
      rcases Action.eq_of_bind h with ⟨content, _, hcontent, h⟩
      cases content with
      | error fault =>
          exact absurd (Action.eq_of_pure h).1 (by simp only [reduceCtorEq, not_false_eq_true])
      | ok script =>
          rcases Action.eq_of_bind h with ⟨resolved, _, hresolved, h⟩
          cases resolved with
          | error fault =>
              exact absurd (Action.eq_of_pure h).1 (by simp only [reduceCtorEq, not_false_eq_true])
          | ok entrypoint =>
              rcases Action.eq_of_bind h with ⟨packed, _, hpacked, h⟩
              cases packed with
              | error fault =>
                  exact absurd (Action.eq_of_pure h).1 (by simp only [reduceCtorEq,
                    not_false_eq_true])
              | ok archive =>
                  rw [← Except.ok.inj (Action.eq_of_pure h).1]
                  rcases project_of_packageAround tree hpacked with
                    ⟨nearer, root, farther, hproject⟩
                  exact ⟨hname, (Action.eq_of_pure hcontent).1, entrypoint, nearer, root, farther,
                    (Action.eq_of_pure hresolved).1, hproject⟩

theorem projectRoot?_of_nearest {nearer farther : List Path} {root : Path}
    (hnearer : ∀ folder ∈ nearer, tree.isThere (folder.below marker) = false)
    (hroot : tree.isThere (root.below marker) = true) :
    projectRoot? (tree.files : Files (Action σ)) (nearer ++ root :: farther) =
      pure (some root) := by
  induction nearer with
  | nil => simp only [List.nil_append, projectRoot?, FileTree.files, hroot, pure_bind, if_true]
  | cons folder rest ih =>
      have hrest := ih fun other hmem => hnearer other (List.mem_cons_of_mem _ hmem)
      simp only [List.cons_append, projectRoot?, FileTree.files,
        hnearer folder List.mem_cons_self, pure_bind, Bool.false_eq_true, if_false]
      exact hrest

/-- What is in the file system is gathered. -/
theorem gather_of_gathered {asset : Asset} {materials : Materials}
    (h : Gathered tree asset materials) :
    gather (tree.files : Files (Action σ)) asset = pure (.ok materials) := by
  rcases h with ⟨hname, hscript, entrypoint, nearer, root, farther, hresolved, hancestors, hnearer,
    hroot, node, hnode, harchive⟩
  have hfound : projectRoot? (tree.files : Files (Action σ)) (nearer ++ root :: farther) =
      pure (some root) := projectRoot?_of_nearest tree hnearer hroot
  rw [← hancestors] at hfound
  have hpacked : package (tree.files : Files (Action σ)) root = pure (.ok materials.archive) := by
    simp only [package, FileTree.files, hnode, pure_bind, harchive]
  have haround : packageAround (tree.files : Files (Action σ)) entrypoint =
      pure (.ok materials.archive) := by
    simp only [packageAround, hfound, hpacked, pure_bind]
  have hcontent : (tree.files : Files (Action σ)).content asset.entrypoint =
      pure (.ok materials.script) := congrArg pure hscript
  have hplace : (tree.files : Files (Action σ)).resolved asset.entrypoint =
      pure (.ok entrypoint) := congrArg pure hresolved
  simp only [gather, hname, hcontent, hplace, haround, pure_bind]

/-- An object is there once it has been uploaded. -/
theorem store_of_upload {rounds : Nat} {workspace : Workspace} {uri : ObjectUri} {content : Bytes}
    {session next : Session Rehearsal}
    (h : upload (Session.host Rehearsal.service tree rounds) workspace uri content session =
      (some (.ok ()), next)) :
    ∃ faults, next.state.store = { session.state.store.write uri content with faults } := by
  rcases Action.eq_of_bind h with ⟨answer, asked, hasked, h⟩
  cases answer with
  | error error => exact absurd (Action.eq_of_pure h).1 (by simp only [reduceCtorEq,
      not_false_eq_true])
  | ok _ =>
      rw [← (Action.eq_of_pure h).2]
      exact Rehearsal.store_of_put hasked

/-- Filling a workspace writes the entrypoint, then the archive. -/
theorem store_of_fill {rounds : Nat} {workspace filled : Workspace} {materials : Materials}
    {session final : Session Rehearsal}
    (h : fill (Session.host Rehearsal.service tree rounds) workspace materials session =
      (some (.ok filled), final)) :
    filled = workspace ∧ ∃ faults, final.state.store =
      { (session.state.store.write workspace.entrypoint materials.script).write
          workspace.context (Zip.write materials.archive) with faults } := by
  rcases Action.eq_of_bind h with ⟨script, middle, hscript, h⟩
  cases script with
  | error error => exact absurd (Action.eq_of_pure h).1 (by simp only [reduceCtorEq,
      not_false_eq_true])
  | ok _ =>
      rcases Action.eq_of_bind h with ⟨archive, last, harchive, h⟩
      cases archive with
      | error error => exact absurd (Action.eq_of_pure h).1 (by simp only [reduceCtorEq,
          not_false_eq_true])
      | ok _ =>
          rcases Action.eq_of_pure h with ⟨hfilled, hfinal⟩
          rcases store_of_upload tree hscript with ⟨earlier, hmiddle⟩
          rcases store_of_upload tree harchive with ⟨faults, hlast⟩
          rw [hmiddle] at hlast
          rw [← hfinal]
          exact ⟨(Except.ok.inj hfilled).symm, faults, hlast⟩

/-- Once the files are gathered, what is left is to put them into the workspace. -/
theorem prepare_of_gathered (service : Service σ) (rounds : Nat) {asset : Asset}
    {materials : Materials} (h : Gathered tree asset materials) (pipeline runId : String)
    (base : ObjectUri) :
    prepare (Session.host service tree rounds) asset pipeline (some base) runId =
      fill (Session.host service tree rounds)
        (Workspace.allocate base pipeline runId materials.fileName) materials := by
  have hgather : gather (Session.host service tree rounds).files asset = pure (.ok materials) :=
    gather_of_gathered tree h
  simp only [prepare, hgather, pure_bind]

/-- What a prepared workspace is. It was allocated for the name of the entrypoint,
    which was read, and its project packed, as they are in the file system. Both
    files have places below its root. The archive is at its place, and every object
    elsewhere is as it was. The entrypoint is at its own place unless it has the
    name of the archive and is something else. -/
theorem stocked_of_prepare {rounds : Nat} {asset : Asset} {pipeline runId : String}
    {base : Option ObjectUri} (hbase : ∀ uri, base = some uri → uri.Normal)
    {session final : Session Rehearsal} {workspace : Workspace}
    (h : prepare (Session.host Rehearsal.service tree rounds) asset pipeline base runId session =
      (some (.ok workspace), final)) :
    ∃ uri materials, base = some uri ∧ Gathered tree asset materials ∧
      workspace = Workspace.allocate uri pipeline runId materials.fileName ∧
      workspace.root.Below workspace.entrypoint ∧ workspace.root.Below workspace.context ∧
      final.state.store.Holds workspace.context (Zip.write materials.archive) ∧
      (final.state.store.Holds workspace.entrypoint materials.script ↔
        materials.fileName ≠ "context.zip" ∨ materials.script = Zip.write materials.archive) ∧
      (final.state.store.without [workspace.entrypoint, workspace.context]).objects =
        (session.state.store.without [workspace.entrypoint, workspace.context]).objects := by
  cases base with
  | none => exact absurd (Action.eq_of_pure h).1 (by simp only [reduceCtorEq, not_false_eq_true])
  | some uri =>
      rcases Action.eq_of_bind h with ⟨gathered, middle, hgather, h⟩
      cases gathered with
      | error fault =>
          exact absurd (Action.eq_of_pure h).1 (by simp only [reduceCtorEq, not_false_eq_true])
      | ok materials =>
          have hgathered := gathered_of_gather tree hgather
          -- Gathering asks nothing of the store, so it is as it was.
          have hmiddle : session = middle := by
            rcases gather_files tree asset with ⟨answer, hanswer⟩
            change gather (tree.files : Files (Action Rehearsal)) asset session = _ at hgather
            rw [hanswer] at hgather
            exact (Action.eq_of_pure hgather).2
          rcases store_of_fill tree h with ⟨rfl, faults, hstore⟩
          rw [← hmiddle] at hstore
          have hname := Asset.not_mem_of_fileName? hgathered.name
          rcases Workspace.below_allocate (hbase uri rfl) pipeline runId hname.1 hname.2 with
            ⟨hentrypoint, hcontext⟩
          have hclash := Workspace.clash_allocate uri pipeline runId hname
          rcases session.state.store.written_twice _ _ materials.script
            (Zip.write materials.archive) with ⟨harchive, hscript, helsewhere⟩
          rw [hclash] at hscript
          refine ⟨uri, materials, rfl, hgathered, rfl, hentrypoint, hcontext, ?_⟩
          rw [hstore]
          exact ⟨harchive, hscript, helsewhere⟩

/-- A folder with a marker and two files. -/
def projectFolder : FileNode :=
  .folder [(marker, .folder []), (Utf8.encode "context.zip", .file [1]),
    (Utf8.encode "main.py", .file [2])]

/-- A file system with that folder at its root. -/
def project : FileTree := ⟨.folder [(Utf8.encode "p", projectFolder)], []⟩

/-- The files of the folder are in their order already. -/
theorem ofNode_projectFolder :
    Archive.ofNode projectFolder = .ok [⟨"context.zip", [1]⟩, ⟨"main.py", [2]⟩] := by
  rw [projectFolder, Archive.ofNode, FileNode.filesBelow,
    List.mergeSort_of_pairwise (by decide +kernel)]
  rfl

/-- A file of the project is to be run. -/
def projectAsset (file : String) : Asset := ⟨"load", Utf8.encode ("/p/" ++ file), true⟩

/-- What is gathered to run a file of the project. -/
theorem gathered_project {file : String} {script : Bytes}
    (hname : (projectAsset file).fileName? = some file)
    (hscript : project.find true (projectAsset file).entrypoint =
      .ok ([Utf8.encode "p", Utf8.encode file], .file script))
    (hancestors : Path.ancestors (FileTree.absolute [Utf8.encode "p", Utf8.encode file]) =
      [Utf8.encode "/p", [Path.slash]]) :
    Gathered project (projectAsset file)
      ⟨file, script, [⟨"context.zip", [1]⟩, ⟨"main.py", [2]⟩]⟩ := by
  have hmarker : project.find true (Path.below (Utf8.encode "/p") marker) =
      .ok ([Utf8.encode "p", marker], .folder []) :=
    FileTree.find_of_at? true (by decide +kernel) (by decide +kernel) (by decide +kernel) rfl rfl
  have hroot : project.find false (Utf8.encode "/p") = .ok ([Utf8.encode "p"], projectFolder) :=
    FileTree.find_of_at? false (by decide +kernel) (by decide +kernel) (by decide +kernel) rfl rfl
  refine ⟨hname, ?_, FileTree.absolute [Utf8.encode "p", Utf8.encode file], [], Utf8.encode "/p",
    [[Path.slash]], ?_, hancestors, fun _ hno => absurd hno List.not_mem_nil, ?_, projectFolder,
    ?_, ?_⟩
  · rw [FileTree.content, hscript]
    rfl
  · rw [FileTree.resolved, hscript]
    rfl
  · rw [FileTree.isThere, hmarker]
  · rw [FileTree.node, hroot]
    rfl
  · exact ofNode_projectFolder

/-- A project is prepared to run a file with an ordinary name, and that file is in
    the workspace. -/
theorem stocked_of_prepare_main :
    ∃ final, prepare (Session.host Rehearsal.service project 9) (projectAsset "main.py") "daily"
        (some ⟨"s3", "bucket", "ws"⟩) "run-7"
        (Session.start (Rehearsal.idle ⟨1, false, [], 0, []⟩) none) =
      (some (.ok (Workspace.allocate ⟨"s3", "bucket", "ws"⟩ "daily" "run-7" "main.py")), final) ∧
      final.state.store.Holds ⟨"s3", "bucket", "ws/daily/run-7/main.py"⟩ [2] := by
  have hgathered : Gathered project (projectAsset "main.py") ⟨"main.py", [2], _⟩ :=
    gathered_project (by decide +kernel) (FileTree.find_of_at? true (by decide +kernel)
      (by decide +kernel) (by decide +kernel) rfl rfl) (by decide +kernel)
  have hrun := congrFun (prepare_of_gathered project Rehearsal.service 9
    hgathered "daily" "run-7" ⟨"s3", "bucket", "ws"⟩)
    (Session.start (Rehearsal.idle ⟨1, false, [], 0, []⟩) none)
  refine ⟨_, hrun.trans rfl, ?_⟩
  rcases stocked_of_prepare project (by decide +kernel) (hrun.trans rfl) with
    ⟨uri, materials, hbase, hfiles, _, _, _, _, hentrypoint, _⟩
  have hname : "main.py" = materials.fileName :=
    Option.some.inj (hgathered.name.symm.trans hfiles.name)
  have hscript : [2] = materials.script :=
    Except.ok.inj (hgathered.script.symm.trans hfiles.script)
  rw [← hname, ← hscript] at hentrypoint
  exact hentrypoint.mpr (.inl (by decide))

/-- An entrypoint that has the name of the archive is lost: at its place is the
    archive. -/
theorem entrypoint_overwritten :
    ∃ final, prepare (Session.host Rehearsal.service project 9) (projectAsset "context.zip")
        "daily" (some ⟨"s3", "bucket", "ws"⟩) "run-7"
        (Session.start (Rehearsal.idle ⟨1, false, [], 0, []⟩) none) =
      (some (.ok (Workspace.allocate ⟨"s3", "bucket", "ws"⟩ "daily" "run-7" "context.zip")),
        final) ∧
      project.content (projectAsset "context.zip").entrypoint = .ok [1] ∧
      ¬ final.state.store.Holds ⟨"s3", "bucket", "ws/daily/run-7/context.zip"⟩ [1] := by
  have hgathered : Gathered project (projectAsset "context.zip") ⟨"context.zip", [1], _⟩ :=
    gathered_project (by decide +kernel) (FileTree.find_of_at? true (by decide +kernel)
      (by decide +kernel) (by decide +kernel) rfl rfl) (by decide +kernel)
  have hrun := congrFun (prepare_of_gathered project Rehearsal.service 9
    hgathered "daily" "run-7" ⟨"s3", "bucket", "ws"⟩)
    (Session.start (Rehearsal.idle ⟨1, false, [], 0, []⟩) none)
  exact ⟨_, hrun.trans rfl, hgathered.script, by decide +kernel⟩

end Staging

end BatchRun
