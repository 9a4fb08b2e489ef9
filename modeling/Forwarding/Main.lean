import Forwarding.CommandLine
/-!
The program: the command line over the files of the machine.
-/

namespace Forwarding

/-- The error of the file system that an exception tells of. -/
def FileError.ofException : IO.Error → FileError
  | .noFileOrDirectory .. => .notFound
  | .alreadyExists .. => .alreadyExists
  | .inappropriateType _ 20 _ => .notADirectory
  | .inappropriateType _ 21 _ => .isADirectory
  | .inappropriateType _ code text => .other code.toNat text
  | .resourceBusy code text => .other code.toNat text
  | .permissionDenied _ code text => .other code.toNat text
  | .unsatisfiedConstraints 39 _ => .notEmpty
  | exception => .other 5 (toString exception)

/-- Runs an operation whose exceptions are errors of the file system. -/
def refusable {α : Type} (operation : IO α) : IO (Except FileError α) := do
  try return .ok (← operation)
  catch exception => return .error (FileError.ofException exception)

/-- The entry of a directory that a path names, the working directory being the directory. -/
def entryOf (path : String) : IO.FS.DirEntry :=
  ⟨⟨"."⟩, path⟩

/-- What a path leads to. -/
def kindOf (path : String) : IO (Option PathKind) := do
  if path.isEmpty then return none
  try
    match (← (entryOf path).path.metadata).type with
    | .file => return some .file
    | .dir => return some .directory
    | _ => return none
  catch _ => return none

/-- The names that lead to each file below a directory. -/
partial def filesUnder (directory : String) : IO (List (List String)) := do
  let entries ← (entryOf directory).path.readDir
  let names := sortBy (fun a b => decide (a ≤ b)) (entries.toList.map (·.fileName))
  let found ← names.mapM fun name => do
    let path := Path.join directory name
    match ← kindOf path with
    | some .file => return [[name]]
    | some .directory => return (← filesUnder path).map (name :: ·)
    | none => return []
  return found.flatten

instance : Host IO where
  kind? := kindOf
  read path := refusable (IO.FS.readBinFile (entryOf path).path)
  filesBelow := filesUnder
  createDirectory path := refusable (IO.FS.createDir (entryOf path).path)
  write path bytes := refusable (IO.FS.writeBinFile (entryOf path).path bytes)
  move source target := refusable (IO.FS.rename (entryOf source).path (entryOf target).path)
  remove path := refusable (IO.FS.removeFile (entryOf path).path)
  log event := IO.eprintln event.render

end Forwarding

open Forwarding in
/-- Reads the command line, runs the command and prints what it gives. -/
def main (args : List String) : IO UInt32 := do
  match CommandLine.parse args with
  | .error refusal =>
    IO.eprintln ("error: " ++ refusal.kind)
    return refusal.exitCode.toUInt32
  | .ok command =>
    match ← (CommandLine.runReported command : IO _) with
    | .ok (some text) =>
      IO.println text
      return 0
    | .ok none => return 0
    | .error _ => return 1
