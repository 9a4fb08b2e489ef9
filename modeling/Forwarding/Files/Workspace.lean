import Forwarding.Files.Tree
import Forwarding.Host
/-!
A working directory as a value: a file tree and the log of what has happened.
-/

namespace Forwarding

/-- A file tree with a log. -/
structure Workspace where
  files : FileTree := .empty
  /-- The events so far, the oldest first. -/
  log : List Event := []

namespace Workspace

/-- The kind of an entry. -/
def kindOf : Entry → PathKind
  | .directory => .directory
  | .file _ => .file

/-- What a path leads to. -/
def kind? (files : FileTree) (path : String) : Option PathKind :=
  match files.find path with
  | .ok entry => some (kindOf entry)
  | .error _ => none

/-- Changes the files unless the change is refused. -/
def change (operation : FileTree → Except FileError FileTree) :
    StateM Workspace (Except FileError Unit) := fun w =>
  match operation w.files with
  | .ok files => (.ok (), { w with files })
  | .error error => (.error error, w)

instance : Host (StateM Workspace) where
  kind? path := return kind? (← get).files path
  read path := return (← get).files.read path
  filesBelow path := do
    let files := (← get).files
    match files.locate path with
    | .ok place => return files.filesBelow place
    | .error _ => return []
  createDirectory path := change (·.createDirectory path)
  write path bytes := change (·.write path bytes)
  move source target := change (·.move source target)
  remove path := change (·.remove path)
  log event := modify fun w => { w with log := w.log ++ [event] }

end Workspace

end Forwarding
