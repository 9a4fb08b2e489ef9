import Forwarding.Artifact
import Forwarding.Host
/-!
Output: the artifacts and their index in a directory. Either every file that differs is replaced or
none is. All new files are staged next to their destinations first. A file that is replaced is moved
aside before the new one takes its place, and is moved back when a later step fails. Files that hold
their text already are left alone.
-/

namespace Forwarding

/-- What has become of the destinations, in their order. -/
structure Written where
  written : List String
  unchanged : List String
  deriving Repr, DecidableEq

namespace Output

/-- A text and its destination. -/
structure Destination where
  group : Option String
  path : String
  contents : String
  deriving Repr, DecidableEq

namespace Destination

/-- Where a text is staged. -/
def staging (d : Destination) : String :=
  d.path ++ ".tmp"

end Destination

/-- Where the file at a path is moved aside to. -/
def backup (path : String) : String :=
  path ++ ".bak"

/-- The destinations of artifacts and of their index. -/
def destinations (directory indexFile : String) (artifacts : List Artifact) : List Destination :=
  artifacts.map (fun a => ⟨some a.name, Path.join directory a.fileName, a.contents⟩)
    ++ [⟨none, Path.join directory indexFile, Artifact.index artifacts⟩]

/-- The text of the components of a path. -/
def textOf (components : List PathComponent) : String :=
  components.foldl (fun path component =>
    Path.join path (match component with
      | .root => "/"
      | .current => "."
      | .parent => ".."
      | .normal name => name)) ""

variable {m : Type → Type} [Monad m] [Host m]

/-- Creates a directory unless it exists. -/
def createUnlessPresent (path : String) : m (Except FileError Unit) := do
  match ← Host.createDirectory path with
  | .ok () => return .ok ()
  | .error error =>
    match ← Host.kind? path with
    | some .directory => return .ok ()
    | _ => return .error error

/-- Creates a directory with those above it. The components of the path are given in reverse. -/
def createAbove : List PathComponent → m (Except FileError Unit)
  | [] => return .ok ()
  | component :: above => do
    let path := textOf (component :: above).reverse
    match ← createUnlessPresent path with
    | .ok () => return .ok ()
    | .error .notFound =>
      match ← createAbove above with
      | .ok () => createUnlessPresent path
      | .error error => return .error error
    | .error error => return .error error

/-- Creates a directory with all that are missing above it. -/
def createDirectories (path : String) : m (Except FileError Unit) :=
  createAbove (Path.components path).reverse

/-- Removes a file that is no longer needed. That it is missing is no trouble. -/
def discard (path : String) : m Unit := do
  match ← Host.remove path with
  | .ok () => return ()
  | .error .notFound => return ()
  | .error error =>
    Host.log ⟨.warning, "failed to remove file", [("path", path), ("error", error.message)]⟩

/-- Removes what is staged for some destinations. -/
def discardStaged : List Destination → m Unit
  | [] => return ()
  | d :: rest => do
    discard d.staging
    discardStaged rest

/-- Moves the file that was moved aside back. -/
def restore (path : String) : m Unit := do
  match ← Host.move (backup path) path with
  | .ok () => return ()
  | .error error =>
    Host.log ⟨.warning, "failed to restore previous file",
      [("path", path), ("error", error.message)]⟩

/-- Whether a destination holds its text already. -/
def isCurrent (d : Destination) : m Bool := do
  match ← Host.read d.path with
  | .ok bytes => return bytes == d.contents.toUTF8
  | .error _ => return false

/-- What is staged, and the paths that are left alone. -/
structure Staging where
  staged : List Destination
  unchanged : List String

/-- Stages every destination that does not hold its text. -/
def stage (s : Staging) : List Destination → Pass m Staging
  | [] => return s
  | d :: rest => do
    if ← ExceptT.lift (isCurrent d) then
      Pass.log ⟨.debug, "unchanged", [("path", d.path)]⟩
      stage { s with unchanged := s.unchanged ++ [d.path] } rest
    else
      match ← ExceptT.lift (Host.write d.staging d.contents.toUTF8) with
      | .ok () => stage { s with staged := s.staged ++ [d] } rest
      | .error error =>
        ExceptT.lift (discard d.staging)
        ExceptT.lift (discardStaged s.staged)
        throw (.emission d.group d.staging (.file error))

/-- A path at which the new file has taken its place, and whether a file was moved aside. -/
structure Committed where
  path : String
  hasBackup : Bool

/-- Lets what is staged take its place, with the file that was there moved aside. -/
def commit (d : Destination) : m (Except FileError Committed) := do
  match ← Host.kind? d.path with
  | some .file =>
    match ← Host.move d.path (backup d.path) with
    | .error error => return .error error
    | .ok () =>
      match ← Host.move d.staging d.path with
      | .ok () => return .ok ⟨d.path, true⟩
      | .error error =>
        restore d.path
        return .error error
  | _ =>
    match ← Host.move d.staging d.path with
    | .ok () => return .ok ⟨d.path, false⟩
    | .error error => return .error error

/-- Undoes what has taken its place, the newest first. -/
def rollBack : List Committed → m Unit
  | [] => return ()
  | c :: older => do
    if c.hasBackup then restore c.path else discard c.path
    rollBack older

/-- Lets everything that is staged take its place. `done` is what has taken it so far, the newest
first. -/
def commitAll (done : List Committed) : List Destination → Pass m (List Committed)
  | [] => return done.reverse
  | d :: rest => do
    match ← ExceptT.lift (commit d) with
    | .ok committed => commitAll (committed :: done) rest
    | .error error =>
      ExceptT.lift (rollBack done)
      ExceptT.lift (discardStaged (d :: rest))
      throw (.emission d.group d.path (.file error))

/-- Removes the files that were moved aside. -/
def finish : List Committed → Pass m Unit
  | [] => return ()
  | c :: rest => do
    if c.hasBackup then ExceptT.lift (discard (backup c.path))
    Pass.log ⟨.debug, "written", [("path", c.path)]⟩
    finish rest

/-- Writes artifacts and their index into a directory. -/
def write (directory indexFile : String) (artifacts : List Artifact) : Pass m Written := do
  if directory.isEmpty then throw (.emission none directory .noOutputDirectory)
  if let .error error ← ExceptT.lift (createDirectories directory) then
    throw (.emission none directory (.file error))
  let staging ← stage ⟨[], []⟩ (destinations directory indexFile artifacts)
  let committed ← commitAll [] staging.staged
  finish committed
  let summary : Written := ⟨committed.map (·.path), staging.unchanged⟩
  Pass.log ⟨.info, "wrote generated files",
    [("written", toString summary.written.length),
      ("unchanged", toString summary.unchanged.length)]⟩
  return summary

end Output

end Forwarding
