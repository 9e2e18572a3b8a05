import BatchRun.Host
import BatchRun.Outcome
import BatchRun.Archive.Zip

/-!
# Staging

Bringing the files of a run to its workspace, and clearing them away.

Everything that can go wrong on the machine comes first: naming and reading the
entrypoint, finding the project around it and packing it. Only then is the
workspace allocated and the two files are put there, the entrypoint before the
project. An error says whether there is a workspace by then.

The project is the nearest folder above the entrypoint that holds a marker. The
entrypoint keeps the name by which it was given, while the project is looked for
above the place to which that name leads.

Clearing away deletes what is listed below the workspace, page by page. What
cannot be deleted is passed over, and a listing that fails ends it; none of this
is reported, except that it took too long.

## Main definitions

* `Asset`: What is to be run.
* `Staging.gather`: The files of a run.
* `Staging.prepare`: The workspace with these files in it.
* `Staging.deleteAll`: Deletes everything below an address.
* `Staging.destroy`: Deletes a workspace, within a limit.
-/

namespace BatchRun

/-- What is to be run: its name, its entrypoint, and whether that is a file
    that has to be staged. -/
structure Asset where
  name : String
  entrypoint : Path
  staged : Bool
  deriving DecidableEq, Repr

/-- The file name of an entrypoint, if it has one that is text. -/
def Asset.fileName? (asset : Asset) : Option String :=
  (Path.fileName? asset.entrypoint).bind Utf8.text?

/-- The files of a run. -/
structure Materials where
  fileName : String
  script : Bytes
  archive : Archive
  deriving DecidableEq, Repr

namespace Staging

variable {m : Type → Type} [Monad m]

/-- What marks the root of a project. -/
def marker : Path := Utf8.encode ".git"

/-- The first of some folders that holds the marker. -/
def projectRoot? (files : Files m) : List Path → m (Option Path)
  | [] => pure none
  | folder :: rest => do
    if ← files.isThere (folder.below marker) then pure (some folder)
    else projectRoot? files rest

/-- The archive of the project in a folder. -/
def package (files : Files m) (root : Path) : m (Except Archive.Fault Archive) := do
  match ← files.node root with
  | .error fault => pure (.error (.unwalkable root fault))
  | .ok node => pure (Archive.ofNode node)

/-- The archive of the project around an entrypoint, which is given by the path
    to which it leads. -/
def packageAround (files : Files m) (entrypoint : Path) :
    m (Except StagingFault Archive) := do
  match ← projectRoot? files (Path.ancestors entrypoint) with
  | none => pure (.error (.noProject entrypoint))
  | some root =>
    match ← package files root with
    | .error fault => pure (.error (.unpackable root fault))
    | .ok archive => pure (.ok archive)

/-- The files of a run. -/
def gather (files : Files m) (asset : Asset) : m (Except StagingFault Materials) :=
  match asset.fileName? with
  | none => pure (.error (.noFileName asset.entrypoint))
  | some fileName => do
    match ← files.content asset.entrypoint with
    | .error fault => pure (.error (.unreadable asset.entrypoint fault))
    | .ok script =>
      match ← files.resolved asset.entrypoint with
      | .error fault => pure (.error (.unreadable asset.entrypoint fault))
      | .ok entrypoint =>
        match ← packageAround files entrypoint with
        | .error fault => pure (.error fault)
        | .ok archive => pure (.ok { fileName, script, archive })

/-- Puts an object into a workspace. -/
def upload (host : Host m) (workspace : Workspace) (uri : ObjectUri) (content : Bytes) :
    m (Except StagingError Unit) := do
  match ← host.call (.put uri content) with
  | .ok _ => pure (.ok ())
  | .error error => pure (.error ⟨.upload uri error, some workspace⟩)

/-- Puts the files of a run into its workspace. -/
def fill (host : Host m) (workspace : Workspace) (materials : Materials) :
    m (Except StagingError Workspace) := do
  match ← upload host workspace workspace.entrypoint materials.script with
  | .error error => pure (.error error)
  | .ok _ =>
    match ← upload host workspace workspace.context (Zip.write materials.archive) with
    | .error error => pure (.error error)
    | .ok _ => pure (.ok workspace)

/-- The workspace of a run with its files in it. -/
def prepare (host : Host m) (asset : Asset) (pipeline : String) (base : Option ObjectUri)
    (runId : String) : m (Except StagingError Workspace) :=
  match base with
  | none => pure (.error ⟨.noWorkspaceRoot, none⟩)
  | some base => do
    match ← gather host.files asset with
    | .error fault => pure (.error ⟨fault, none⟩)
    | .ok materials =>
      fill host (Workspace.allocate base pipeline runId materials.fileName) materials

/-- Deletes some listed objects. -/
def deleteEach (host : Host m) (root : ObjectUri) : List ObjectSummary → m Unit
  | [] => pure ()
  | object :: rest => do
    let _ ← host.call (.delete (root.withKey object.key))
    deleteEach host root rest

/-- Deletes everything below an address, from a cursor on. -/
def deleteAll (host : Host m) (root : ObjectUri) : Nat → Option String → m Unit
  | 0, _ => host.wait
  | rounds + 1, token => do
    match ← host.call (.list root token) with
    | .error _ => pure ()
    | .ok page =>
      deleteEach host root page.objects
      match page.nextToken with
      | none => pure ()
      | some token => deleteAll host root rounds (some token)

/-- Deletes a workspace, within a limit. -/
def destroy (host : Host m) (limit : Span) (workspace : Workspace) : m Unit := do
  let done ← host.within limit (deleteAll host workspace.root host.rounds none)
  if !done then host.warn (.cleanupTimedOut limit workspace.root)

end Staging

end BatchRun
