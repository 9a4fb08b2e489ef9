import Forwarding.Config
import Forwarding.Host
import Forwarding.Order
/-!
Discovery: the source files below some roots, each with the module at which it is mounted. The units
are in the order of their paths. A file that several roots reach is read once, for the first of them.
-/

namespace Forwarding

namespace Discovery

/-- The extension of source files. -/
def extension : List Char :=
  ".rs".toList

/-- Whether a file name has a stem before the extension of source files. -/
def isSource (fileName : String) : Bool :=
  extension.isSuffixOf fileName.toList && extension.length < fileName.length

/-- A file with the module at which it is mounted. -/
structure Mounted where
  path : String
  modulePath : List String
  deriving Repr, DecidableEq

/-- The file that some names lead to from a root, if it is a source file. -/
def mounted? (root : String) (base names : List String) : Option Mounted :=
  match names.getLast? with
  | some fileName =>
    if isSource fileName then
      some ⟨names.foldl Path.join root, ModulePath.ofFile base names.dropLast fileName⟩
    else none
  | none => none

variable {m : Type → Type} [Monad m] [Host m]

/-- The failure to read a path. -/
def unreadable (path : String) (cause : Unreadable) : Failure :=
  .scan (.ofFile path) (.unreadable cause)

/-- The files of a root. A root that is a file is mounted whatever its name. -/
def filesOf (root : SourceRoot) : Pass m (List Mounted) := do
  let base := ModulePath.ofText root.module
  match ← ExceptT.lift (Host.kind? root.path) with
  | some .file => return [⟨root.path, base⟩]
  | some .directory =>
    return (← ExceptT.lift (Host.filesBelow root.path)).filterMap (mounted? root.path base)
  | none => throw (unreadable root.path .missingRoot)

/-- The text of a file. -/
def textOf (path : String) : Pass m String := do
  match ← ExceptT.lift (Host.read path) with
  | .error error => throw (unreadable path (.refused error))
  | .ok bytes =>
    match String.fromUTF8? bytes with
    | some text => return text
    | none => throw (unreadable path .invalidEncoding)

/-- Whether a path is among those of some units. -/
def reached (units : List SourceUnit) (path : String) : Bool :=
  units.any fun unit => Path.same unit.path path

/-- Reads files in their order. Those that are reached already are passed over. -/
def readFiles (units : List SourceUnit) : List Mounted → Pass m (List SourceUnit)
  | [] => return units
  | file :: rest => do
    if reached units file.path then
      Pass.log ⟨.warning, "file reached from more than one source root", [("path", file.path)]⟩
      readFiles units rest
    else
      let text ← textOf file.path
      Pass.log ⟨.debug, "compilation unit",
        [("path", file.path), ("module", ModulePath.render file.modulePath)]⟩
      readFiles (units ++ [⟨file.path, file.modulePath, text⟩]) rest

/-- Reads the files of roots in their order. -/
def readRoots (units : List SourceUnit) : List SourceRoot → Pass m (List SourceUnit)
  | [] => return units
  | root :: rest => do
    let units ← readFiles units (← filesOf root)
    readRoots units rest

/-- The order of units by their paths. -/
def byPath (a b : SourceUnit) : Bool :=
  (Path.compare a.path b.path).isLE

/-- The units below some roots. -/
def discover (roots : List SourceRoot) : Pass m (List SourceUnit) := do
  return sortBy byPath (← readRoots [] roots)

end Discovery

end Forwarding
