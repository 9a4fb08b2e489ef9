import Forwarding.Source.Path
/-!
Modules and the files mounted at them. A module path is a list of names; files below a source root
extend the module at which the root is mounted.
-/

namespace Forwarding

/-- A file with the module at which it is mounted. -/
structure SourceUnit where
  path : String
  /-- The names of the module path, outermost first. -/
  modulePath : List String
  text : String
  deriving Repr, DecidableEq

namespace ModulePath

/-- Splits a text at each pair of colons. -/
def splitAtColons : List Char → List (List Char)
  | [] => [[]]
  | ':' :: ':' :: rest => [] :: splitAtColons rest
  | c :: rest =>
    match splitAtColons rest with
    | part :: parts => (c :: part) :: parts
    | [] => [[c]]

/-- The parts of a module path without the blanks around them. -/
def trimmedParts (path : String) : List (List Char) :=
  (splitAtColons path.toList).map Text.trim

/-- The names of a module path. Blank parts are no names. -/
def ofText (path : String) : List String :=
  ((trimmedParts path).filter fun part => !part.isEmpty).map String.ofList

/-- The text of a module path. -/
def render (names : List String) : String :=
  "::".intercalate names

/-- The path of a declaration in a module. -/
def member (names : List String) (name : String) : String :=
  let path := render names
  if path.isEmpty then name else path ++ "::" ++ name

/-- Removes the extension of source files from the end of a name as often as it stands there. The
characters of the name are given in reverse. -/
def withoutExtensions : List Char → List Char
  | 's' :: 'r' :: '.' :: rest => withoutExtensions rest
  | name => name

/-- The stem of the name of a source file. -/
def stem (fileName : String) : String :=
  String.ofList (withoutExtensions fileName.toList.reverse).reverse

/-- The module of a file below a root that is mounted at `base`. The directories between them are
modules of their own. A file `mod.rs` stands for its directory and any other file for a module of
its stem, except that `lib.rs` and `main.rs` directly at the root stand for the root. -/
def ofFile (base directories : List String) (fileName : String) : List String :=
  let stem := stem fileName
  let standsForRoot := directories.isEmpty && (stem == "lib" || stem == "main")
  base ++ directories ++ (if stem == "mod" || standsForRoot then [] else [stem])

end ModulePath

/-- A unit from the text of its module path. -/
def SourceUnit.ofText (path module text : String) : SourceUnit :=
  ⟨path, ModulePath.ofText module, text⟩

end Forwarding
