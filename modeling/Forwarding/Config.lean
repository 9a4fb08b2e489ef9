import Forwarding.Source.Module
/-!
What a generation pass is asked to do: the source roots, the names to look for, and where the
output goes.
-/

namespace Forwarding

/-- A directory or a single file that is scanned, and the module at which it is mounted. -/
structure SourceRoot where
  path : String
  module : String
  deriving Repr, DecidableEq

namespace SourceRoot

/-- Why a text is not a source root. -/
inductive Refusal where
  | emptyPath (text : String)
  | invalidModule (text : String)
  deriving Repr, DecidableEq

/-- The text of a refusal. -/
def Refusal.message : Refusal → String
  | emptyPath text => "source root `" ++ text ++ "` has an empty path"
  | invalidModule text => "source root `" ++ text ++ "` has an invalid module path"

/-- Cuts a text at the first equals sign, if there is one. -/
def cut : List Char → List Char × Option (List Char)
  | [] => ([], none)
  | c :: rest =>
    if c == '=' then ([], some rest)
    else
      let (before, after) := cut rest
      (c :: before, after)

/-- Whether every part of a module path has a name. -/
def isMountable (module : String) : Bool :=
  (ModulePath.trimmedParts module).all fun part => !part.isEmpty

/-- Reads `path` or `path=module`. Without a module the root is mounted at the crate. -/
def ofText (text : String) : Except Refusal SourceRoot :=
  let (path, module) := cut text.toList
  let module := (module.map String.ofList).getD "crate"
  if path.isEmpty then .error (.emptyPath text)
  else if !isMountable module then .error (.invalidModule text)
  else .ok ⟨String.ofList path, module⟩

/-- The text of a root. -/
def render (root : SourceRoot) : String :=
  root.path ++ "=" ++ root.module

end SourceRoot

/-- The names that a scan looks for. -/
structure Conventions where
  /-- The last name of the path of a merge attribute. -/
  mark : String := "variant_merge"
  /-- The name of constructors. -/
  constructor : String := "new"
  deriving Repr, DecidableEq

/-- The configuration of a pass. -/
structure Config where
  roots : List SourceRoot := []
  /-- The directory of the output; empty when none is configured. -/
  outDir : String := ""
  conventions : Conventions := {}
  /-- The name of the file that includes all others. -/
  indexFile : String := "variant_merge.rs"
  deriving Repr, DecidableEq

end Forwarding
