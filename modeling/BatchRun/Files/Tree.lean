import BatchRun.Files.Basic

/-!
# File Trees

A file system in memory.

A path is followed from the root, or from the current folder, step by step. A
link is replaced by the path it holds, so the steps of that path come before
what is left. No more than forty links are followed on one way, which ends the
links that lead to themselves. Only a folder has anything below it, and a slash
behind a name asks for that as much as a further name does.

## Main definitions

* `FileNode.at?`: What stands below a node under some names.
* `FileTree`: A file system with a current folder.
* `FileTree.locate`: The names by which a path is reached from the root.
* `FileTree.put`: A tree with something at a path.
* `FileTree.files`: A tree as a file system.
-/

namespace BatchRun

namespace FileNode

/-- What a folder has under a name. -/
def child? (name : Path) : FileNode → Option FileNode
  | folder entries => entries.lookup name
  | _ => none

/-- What stands below a node under some names, one below the other. -/
def at? : List Path → FileNode → Option FileNode
  | [], node => some node
  | name :: names, node => (node.child? name).bind (at? names)

/-- Entries with one under a name, in the place of an old one or at the end. -/
def putEntry (name : Path) (node : FileNode) : List (Path × FileNode) → List (Path × FileNode)
  | [] => [(name, node)]
  | (other, old) :: rest =>
    if other = name then (name, node) :: rest else (other, old) :: putEntry name node rest

/-- A node with another one below it under some names. Folders that are missing
    on the way are made, and a folder that is there already is left alone. -/
def putAt (placed : FileNode) : List Path → FileNode → FileNode
  | [], folder entries =>
    match placed with
    | folder _ => folder entries
    | _ => placed
  | [], _ => placed
  | name :: names, folder entries =>
    let old := (entries.lookup name).getD (folder [])
    folder (putEntry name (putAt placed names old) entries)
  | name :: names, _ => folder [(name, putAt placed names (folder []))]

end FileNode

/-- A file system with a current folder, which is given by its names. -/
structure FileTree where
  root : FileNode
  current : List Path

namespace FileTree

/-- An empty file system. -/
def empty : FileTree := ⟨.folder [], []⟩

/-- How many links are followed on one way. -/
def linkLimit : Nat := 40

/-- The longest name, and the longest path, in bytes. -/
def nameLimit : Nat := 255

/-- One more than the longest path in bytes. -/
def pathLimit : Nat := 4096

/-- Follows some steps from a folder, which is given by its names from the
    root. `last` tells whether a link in the last step is followed too. -/
def walk (tree : FileTree) (last : Bool) (links : Nat) (place : List Path) :
    List Path → Except FileFault (List Path)
  | [] => .ok place
  | step :: rest =>
    if Path.isIdle step then walk tree last links place rest
    else if step = Path.dots then walk tree last links place.dropLast rest
    else if nameLimit < step.length then .error .nameTooLong
    else
      match tree.root.at? (place ++ [step]) with
      | none => .error .notFound
      | some (.folder _) => walk tree last links (place ++ [step]) rest
      | some (.file _) => if rest.isEmpty then .ok (place ++ [step]) else .error .notFolder
      | some (.link target) =>
        if rest.isEmpty && !last then .ok (place ++ [step])
        else
          match links with
          | 0 => .error .tooManyLinks
          | links + 1 =>
            walk tree last links (if Path.isAbsolute target then [] else place)
              (Path.steps target ++ rest)
  termination_by steps => (links, steps.length)

/-- The names by which a path is reached from the root. -/
def locate (tree : FileTree) (last : Bool) (path : Path) : Except FileFault (List Path) :=
  if path.contains 0 then .error .zeroByte
  else if path.isEmpty then .error .notFound
  else if pathLimit ≤ path.length then .error .nameTooLong
  else
    tree.walk last linkLimit (if Path.isAbsolute path then [] else tree.current)
      (Path.steps path)

/-- What stands at a path, and its names. -/
def find (tree : FileTree) (last : Bool) (path : Path) : Except FileFault (List Path × FileNode) :=
  (tree.locate last path).bind fun names =>
    match tree.root.at? names with
    | some node => .ok (names, node)
    | none => .error .notFound

/-- What the file at a path holds. -/
def content (tree : FileTree) (path : Path) : Except FileFault Bytes :=
  (tree.find true path).bind fun (_, node) =>
    match node with
    | .file content => .ok content
    | _ => .error .isFolder

/-- The absolute path of some names. -/
def absolute (names : List Path) : Path :=
  Path.ofSteps [] names

/-- The path without links and idle steps to where a path leads. -/
def resolved (tree : FileTree) (path : Path) : Except FileFault Path :=
  (tree.find true path).map fun (names, _) => absolute names

/-- Whether a path leads to anything. -/
def isThere (tree : FileTree) (path : Path) : Bool :=
  match tree.find true path with
  | .ok _ => true
  | .error _ => false

/-- What stands at a path. If it is a link to a folder, the folder. -/
def node (tree : FileTree) (path : Path) : Except FileFault FileNode :=
  (tree.find false path).bind fun (_, node) =>
    match node with
    | .link target =>
      (tree.find true path).map fun (_, reached) =>
        match reached with
        | .folder entries => .folder entries
        | _ => .link target
    | node => .ok node

/-- A tree with something at a path. The folders above it are made where they
    are missing. -/
def put (tree : FileTree) (path : Path) (placed : FileNode) : FileTree :=
  let start := if Path.isAbsolute path then [] else tree.current
  let names := (Path.steps path).filter (!Path.isIdle ·)
  let place := match tree.walk true linkLimit start names.dropLast with
    | .ok above => above ++ names.getLast?.toList
    | .error _ => start ++ names
  { tree with root := FileNode.putAt placed place tree.root }

/-- A tree as a file system. -/
def files {m : Type → Type} [Monad m] (tree : FileTree) : Files m :=
  { content := fun path => pure (tree.content path)
    resolved := fun path => pure (tree.resolved path)
    isThere := fun path => pure (tree.isThere path)
    node := fun path => pure (tree.node path) }

end FileTree

end BatchRun
