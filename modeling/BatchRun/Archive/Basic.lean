import BatchRun.Files.Basic

/-!
# Archives

The files of a project under the names they have in its archive.

An archive has every regular file below the root of a project, whatever its
name, but leaves out folders that no run needs: those whose names begin with a
dot, and caches of compiled code. The root itself is taken whatever it is
called. Links are left out, so nothing outside the project gets in. Entries
come in the order of their steps, compared byte by byte, and not in the order in
which the file system lists them.

The name of an entry is text, while the steps of its path are bytes. Two files
can therefore end up with one name, and an archive refuses the second.

## Main definitions

* `Archive`: Entries in order.
* `FileNode.filesBelow`: The files below a node that belong into an archive.
* `Archive.ofNode`: The archive of a project.
* `Archive.Fault`: Why there is none.
-/

namespace BatchRun

/-- One file of an archive. -/
structure ArchiveEntry where
  name : String
  content : Bytes
  deriving DecidableEq, Repr

/-- The files of a project, in order. -/
abbrev Archive := List ArchiveEntry

namespace FileNode

/-- Whether something is a folder. -/
def isFolder : FileNode → Bool
  | folder _ => true
  | _ => false

/-- The name of the folders with compiled code. -/
def cacheName : Path := Utf8.encode "__pycache__"

/-- Whether folders of a name are left out. -/
def isSkipped (name : Path) : Bool :=
  name.head? == some 0x2E || name == cacheName

/-- Whether a name stands before another, or is the same. -/
def nameLe {α : Type} (a b : Path × α) : Bool :=
  !decide (b.1 < a.1)

mutual

/-- The files below a node that belong into an archive, each by the steps that
    lead to it. -/
def filesBelow : FileNode → List (List Path × Bytes)
  | file content => [([], content)]
  | link _ => []
  | folder entries => ((filesAmong entries).mergeSort nameLe).flatMap (·.2)

/-- The files in and below the entries of a folder, apart for each entry. -/
def filesAmong : List (Path × FileNode) → List (Path × List (List Path × Bytes))
  | [] => []
  | (name, node) :: rest =>
    let found := if node.isFolder && isSkipped name then [] else filesBelow node
    (name, found.map fun (steps, content) => (name :: steps, content)) :: filesAmong rest

end

end FileNode

namespace Archive

/-- Why a project has no archive. -/
inductive Fault where
  | unwalkable (path : Path) (fault : FileFault)
  | duplicate (name : String)
  deriving DecidableEq, Repr

/-- The complaint about a project. -/
def Fault.message : Fault → String
  | unwalkable path fault =>
    s!"failed to walk project: IO error for operation on {path.shown}: {fault.message}"
  | duplicate name => s!"failed to add {name}: invalid Zip archive: Duplicate filename: {name}"

/-- The name of an entry. -/
def entryName (steps : List Path) : String :=
  "/".intercalate (steps.map Utf8.lossy)

/-- The first of some names that occurred before. -/
def repeated? : List String → List String → Option String
  | _, [] => none
  | seen, name :: rest =>
    if seen.contains name then some name else repeated? (name :: seen) rest

/-- The archive of what stands at the root of a project. -/
def ofNode (node : FileNode) : Except Fault Archive :=
  let entries := node.filesBelow.map fun (steps, content) => ⟨entryName steps, content⟩
  match repeated? [] (entries.map (·.name)) with
  | some name => .error (.duplicate name)
  | none => .ok entries

end Archive

end BatchRun
