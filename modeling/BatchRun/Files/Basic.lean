import BatchRun.Files.Path

/-!
# Files

What staging asks of a file system.

A project is read and never written. Four questions suffice: what a file holds,
where a path really leads, whether something is there, and what a folder holds
with all that is below it. The answers come from a value of type `Files`, so
that the same steps run on the disk of a machine and on a tree in memory.

## Main definitions

* `FileFault`: Why a question has no answer.
* `FileNode`: A file, a folder or a link.
* `Files`: The four questions.
-/

namespace BatchRun

/-- Why the file system has no answer. -/
inductive FileFault where
  | notFound
  | notFolder
  | isFolder
  | nameTooLong
  | tooManyLinks
  | zeroByte
  | other (text : String)
  deriving DecidableEq, Repr

/-- The complaint about a fault. -/
def FileFault.message : FileFault → String
  | notFound => "No such file or directory (os error 2)"
  | notFolder => "Not a directory (os error 20)"
  | isFolder => "Is a directory (os error 21)"
  | nameTooLong => "File name too long (os error 36)"
  | tooManyLinks => "Too many levels of symbolic links (os error 40)"
  | zeroByte => "file name contained an unexpected NUL byte"
  | other text => text

/-- A file with its content, a folder with its entries by name, or a link with
    the path it holds. -/
inductive FileNode where
  | file (content : Bytes)
  | folder (entries : List (Path × FileNode))
  | link (target : Path)
  deriving Inhabited

/-- What staging asks of a file system. -/
structure Files (m : Type → Type) where
  /-- What the file at a path holds. -/
  content : Path → m (Except FileFault Bytes)
  /-- The path without links and idle steps to where a path leads. -/
  resolved : Path → m (Except FileFault Path)
  /-- Whether a path leads to anything. -/
  isThere : Path → m Bool
  /-- What stands at a path, with all that is below it. If the path names a
      link to a folder, that is the folder; other links are themselves. -/
  node : Path → m (Except FileFault FileNode)

end BatchRun
