import BatchRun.Files.Basic

/-!
# The Disk

The files of the machine that the program runs on.

Paths are bytes, while the machine is asked by text; a path that is not text is
not found. Anything but a file, a folder or a link, such as a pipe, is taken for
a link that leads nowhere, so that it is never read.

## Main definitions

* `Disk.files`: The disk as a file system.
-/

namespace BatchRun

namespace Disk

/-- A fault of the machine by its number. -/
def faultOfCode (code : UInt32) (details : String) : FileFault :=
  if code = 2 then .notFound
  else if code = 20 then .notFolder
  else if code = 21 then .isFolder
  else if code = 36 then .nameTooLong
  else if code = 40 then .tooManyLinks
  else .other s!"{details} (os error {code})"

/-- A fault of the machine. -/
def fault : IO.Error → FileFault
  | .noFileOrDirectory _ code details => faultOfCode code details
  | .inappropriateType _ code details => faultOfCode code details
  | .invalidArgument _ code details => faultOfCode code details
  | .permissionDenied _ code details => faultOfCode code details
  | .resourceExhausted _ code details => faultOfCode code details
  | .noSuchThing _ code details => faultOfCode code details
  | .alreadyExists _ code details => faultOfCode code details
  | .interrupted _ code details => faultOfCode code details
  | .otherError code details => faultOfCode code details
  | .resourceBusy code details => faultOfCode code details
  | .illegalOperation code details => faultOfCode code details
  | .hardwareFault code details => faultOfCode code details
  | error => .other (toString error)

/-- Asks the machine about a path. -/
def ask {α : Type} (path : Path) (question : String → IO α) : IO (Except FileFault α) :=
  if path.contains 0 then pure (.error .zeroByte)
  else
    match Utf8.text? path with
    | none => pure (.error .notFound)
    | some name => try pure (.ok (← question name)) catch error => pure (.error (fault error))

/-- The content of the file with a name. -/
def read (name : String) : IO Bytes := do
  pure (← IO.FS.readBinFile name).toList

/-- What stands at a place, with all that is below it. -/
partial def load (place : IO.FS.DirEntry) : IO FileNode := do
  match (← place.path.symlinkMetadata).type with
  | .file => pure (.file (← IO.FS.readBinFile place.path).toList)
  | .dir =>
    let found ← place.path.readDir
    let entries ← found.toList.mapM fun entry => do
      pure (Utf8.encode entry.fileName, ← load entry)
    pure (.folder entries)
  | _ => pure (.link [])

/-- What stands at a name. If it is a link to a folder, the folder. -/
def loadNamed (name : String) : IO FileNode := do
  let real ← IO.FS.realPath name
  if ← real.isDir then load { root := real, fileName := "." }
  else load { root := ".", fileName := name }

/-- The disk as a file system. -/
def files : Files IO :=
  { content := fun path => ask path read
    resolved := fun path => ask path fun name => do
      pure (Utf8.encode (← IO.FS.realPath name).toString)
    isThere := fun path => do
      pure (← ask path fun name => discard (IO.FS.realPath name)).isOk
    node := fun path => ask path loadNamed }

end Disk

end BatchRun
