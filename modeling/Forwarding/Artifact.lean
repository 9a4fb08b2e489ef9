import Forwarding.Grammar.Text
import Forwarding.Resolution
import Forwarding.Text.Quoted
/-!
Artifacts: the source of the forwarding type of a resolved group. The type wraps the winner. It has
the winner's constructor, two accessors for every property, a function that gives the winner back,
and dereferences to the winner. The artifact depends on nothing but the resolution.
-/

namespace Forwarding

/-- A file of generated source. -/
structure Artifact where
  /-- The logical name of the group. -/
  name : String
  fileName : String
  contents : String
  deriving Repr, DecidableEq

/-- What an artifact is made of: the recorded texts of a winner, read back. -/
structure ForwardingType where
  name : String
  /-- The path of the winner. -/
  winner : Tree
  constructor : String
  /-- The generic parameters with their bounds. -/
  declared : List Tree
  /-- The generic parameters by name. -/
  arguments : List Tree
  predicates : List Tree
  params : List (String × Tree)
  properties : List (String × Tree)
  deriving Repr

namespace ForwardingType

open Forwarding.Tree (word operator)

/-- Trees with commas between them. -/
def listed (trees : List Tree) : List Tree :=
  Tree.separated (operator ",") trees

/-- Trees between angle brackets; nothing when there are none. -/
def angled (trees : List Tree) : List Tree :=
  if trees.isEmpty then [] else operator "<" :: (listed trees ++ [operator ">"])

/-- Trees between round brackets. -/
def parenthesized (trees : List Tree) : Tree :=
  .group .parenthesis trees

/-- Trees between curly brackets. -/
def braced (trees : List Tree) : Tree :=
  .group .brace trees

/-- An attribute. -/
def marked (inside : List Tree) : List Tree :=
  [operator "#", .group .bracket inside]

/-- A line of documentation. -/
def documented (line : String) : List Tree :=
  marked [word "doc", operator "=", .token (.literal (Text.quoteLiteral line))]

variable (t : ForwardingType)

/-- The type of the winner. -/
def inner : List Tree :=
  t.winner :: angled t.arguments

/-- The forwarding type itself. -/
def self : List Tree :=
  word t.name :: angled t.arguments

/-- The where clause; nothing when there are no predicates. -/
def whereClause : List Tree :=
  if t.predicates.isEmpty then [] else word "where" :: listed t.predicates

/-- The struct with its documentation. -/
def declaration (documentation : List String) : List Tree :=
  documentation.flatMap documented
    ++ marked [word "allow", parenthesized [word "dead_code"]]
    ++ [word "pub", word "struct", word t.name] ++ angled t.declared ++ t.whereClause
    ++ [braced ([word "inner", operator ":"] ++ t.inner ++ [operator ","])]

/-- The head of a function up to its body. -/
def function (name : String) (params output : List Tree) : List Tree :=
  [word "fn", word name, parenthesized params, operator "->"] ++ output

/-- The wrapped value. -/
def wrapped : List Tree :=
  [word "self", operator ".", word "inner"]

/-- The constructor, which calls that of the winner. -/
def constructorFunction : List Tree :=
  let params := t.params.map fun (name, type) => Tree.seq [word name, operator ":", type]
  let arguments := t.params.map fun (name, _) => word name
  let call := operator "<" :: t.inner ++ [operator ">", operator "::", word t.constructor,
    parenthesized (listed arguments)]
  word "pub" :: function t.constructor (listed params) [word "Self"]
    ++ [braced [word "Self",
      braced ([word "inner", operator ":"] ++ call ++ [operator ","])]]

/-- The two accessors of a property. -/
def accessors (name : String) (type : Tree) : List Tree :=
  [word "pub"] ++ function name [operator "&", word "self"] [operator "&", type]
    ++ [braced (operator "&" :: wrapped ++ [operator ".", word name])]
    ++ [word "pub"]
    ++ function (unraw name ++ "_mut") [operator "&", word "mut", word "self"]
      [operator "&", word "mut", type]
    ++ [braced ([operator "&", word "mut"] ++ wrapped ++ [operator ".", word name])]

/-- The function that gives the winner back. -/
def unwrapping : List Tree :=
  word "pub" :: function "into_inner" [word "self"] t.inner ++ [braced wrapped]

/-- The inherent impl block. -/
def inherent : List Tree :=
  marked [word "allow", parenthesized [word "dead_code", operator ",", word "clippy",
      operator "::", word "new_without_default"]]
    ++ [word "impl"] ++ angled t.declared ++ t.self ++ t.whereClause
    ++ [braced (t.constructorFunction
      ++ t.properties.flatMap (fun (name, type) => accessors name type) ++ t.unwrapping)]

/-- An impl block of one of the two traits of dereferencing. -/
def dereferenceBlock (traitName : String) (members : List Tree) : List Tree :=
  [word "impl"] ++ angled t.declared
    ++ [operator "::", word "core", operator "::", word "ops", operator "::", word traitName,
      word "for"]
    ++ t.self ++ t.whereClause ++ [braced members]

/-- The two impl blocks of dereferencing. -/
def dereferencing : List Tree :=
  let target := [word "Self", operator "::", word "Target"]
  dereferenceBlock t "Deref"
      ([word "type", word "Target", operator "="] ++ t.inner ++ [operator ";"]
        ++ function "deref" [operator "&", word "self"] (operator "&" :: target)
        ++ [braced (operator "&" :: wrapped)])
    ++ dereferenceBlock t "DerefMut"
      (function "deref_mut" [operator "&", word "mut", word "self"]
          ([operator "&", word "mut"] ++ target)
        ++ [braced ([operator "&", word "mut"] ++ wrapped)])

end ForwardingType

namespace Artifact

/-- The first line of every generated file. -/
def header : String :=
  "// @generated by variant-merge. Do not edit."

/-- The name of the file of a group. -/
def fileNameOf (name : String) : String :=
  name ++ ".rs"

/-- Reads a recorded text back. -/
def fragment {α : Type} (group : String) (p : Grammar → Grammar.Parser α) (text : String) :
    Except Failure α :=
  match Grammar.parseText p text with
  | .ok value => .ok value
  | .error error =>
    .error (.emission (some group) (fileNameOf group) (.unrenderable text error))

/-- Reads an identifier back. -/
def identifier (group text : String) : Except Failure String :=
  fragment group (fun _ => Grammar.Parser.identifier) text

/-- Reads a type back. -/
def type (group text : String) : Except Failure Tree :=
  fragment group Grammar.type text

/-- Reads a generic parameter back: its declaration and its name. -/
def parameter (group : String) (p : GenericParam) : Except Failure (Tree × Tree) := do
  let declared ← fragment group Grammar.genericParameter p.declaration
  let argument ← match p.kind with
    | .lifetime =>
      Tree.lifetime <$> fragment group (fun _ => Grammar.Parser.lifetime) p.name
    | _ => Tree.word <$> identifier group p.name
  return (declared.tree, argument)

/-- Reads a named type back. -/
def named (group name typeText : String) : Except Failure (String × Tree) := do
  let name ← identifier group name
  return (name, ← type group typeText)

/-- Reads the recorded texts of a winner back. The first text that does not parse is reported. -/
def read (group : String) (winner : Definition) : Except Failure ForwardingType := do
  let name ← identifier group group
  let path ← fragment group (fun g => Grammar.path g false) winner.typePath
  let constructor ← identifier group winner.constructor
  let generics ← winner.generics.mapM (parameter group)
  let predicates ← winner.predicates.mapM (fragment group Grammar.wherePredicate)
  let params ← winner.params.mapM fun p => named group p.name p.shape.type
  let properties ← winner.properties.mapM fun (_, p) => named group p.name p.type
  return {
    name
    winner := path
    constructor
    declared := generics.map (·.1)
    arguments := generics.map (·.2)
    predicates := predicates.map WherePredicate.tree
    params
    properties }

/-- The documentation of a forwarding type: the chain of definitions. -/
def documentation (r : Resolution) : List String :=
  let entry := fun (d : Definition) (note : String) =>
    " - `" ++ d.typePath ++ "` (priority " ++ toString d.priority.toInt ++ note ++ ")"
  [" Forwarding type for the `" ++ r.name ++ "` variant group.", "",
      " Resolved chain, highest priority first:", ""]
    ++ entry r.winner ", selected" :: r.others.map (entry · "")

/-- The text of a generated file with some parts. -/
def layout (parts : List (List Tree)) : String :=
  header ++ "\n" ++ String.join (parts.map fun part => "\n" ++ (Tree.seq part).render ++ "\n")

/-- The artifact of a resolution. -/
def ofResolution (r : Resolution) : Except Failure Artifact := do
  let t ← read r.name r.winner
  return {
    name := r.name
    fileName := fileNameOf r.name
    contents := layout [t.declaration (documentation r), t.inherent, t.dereferencing] }

/-- The artifacts of resolutions; the first failure in their order is reported. -/
def ofResolutions (resolutions : List Resolution) : Except Failure (List Artifact) :=
  resolutions.mapM ofResolution

/-- The text of the file that includes all artifacts. -/
def index (artifacts : List Artifact) : String :=
  header ++ "\n"
    ++ String.join (artifacts.map fun a => "include!(" ++ Text.quoteName a.fileName ++ ");\n")

end Artifact

end Forwarding
