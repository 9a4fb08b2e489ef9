import Forwarding.Declaration
/-!
Generic parameters by name. A table gives the position at which a name is declared. Trees are
renamed by such a table: to the positions themselves for a canonical form, or to the names that a
struct gives its parameters.
-/

namespace Forwarding

/-- The positions of generic parameters by name. A name that is entered twice has the position that
was entered last. -/
structure GenericNames where
  /-- Types and constants. -/
  values : List (String × Nat)
  /-- Lifetimes, without their apostrophe. -/
  lifetimes : List (String × Nat)
  deriving Repr, DecidableEq

namespace GenericNames

/-- No names. -/
def none : GenericNames := ⟨[], []⟩

/-- Enters the name of a type or a constant. -/
def addValue (names : GenericNames) (name : String) (position : Nat) : GenericNames :=
  { names with values := (name, position) :: names.values }

/-- Enters the name of a lifetime. -/
def addLifetime (names : GenericNames) (name : String) (position : Nat) : GenericNames :=
  { names with lifetimes := (name, position) :: names.lifetimes }

/-- The position of a type or a constant. -/
def valuePosition (names : GenericNames) (name : String) : Option Nat :=
  names.values.lookup name

/-- The position of a lifetime. -/
def lifetimePosition (names : GenericNames) (name : String) : Option Nat :=
  names.lifetimes.lookup name

/-- Enters declared parameters from a position on. -/
def addDeclared (names : GenericNames) (position : Nat) : List GenericParameter → GenericNames
  | [] => names
  | .lifetime _ name _ _ :: rest => (names.addLifetime name position).addDeclared (position + 1) rest
  | .type _ name _ _ _ :: rest => (names.addValue name position).addDeclared (position + 1) rest
  | .const _ name _ _ :: rest => (names.addValue name position).addDeclared (position + 1) rest

/-- The names that a list of parameters declares. -/
def declared (generics : Generics) : GenericNames :=
  none.addDeclared 0 generics.params

/-- The generic arguments of a segment; arguments in round brackets are none of them. -/
def argumentsOf : Tree → Option (List Tree)
  | .segment _ [] => some []
  | .segment _ [.arguments _ items _] => some items
  | _ => Option.none

/-- Enters the arguments of a self type from a position on. Each has to be the name of a parameter
that the impl block declares. -/
def addArguments (parameters names : GenericNames) (position : Nat) :
    List Tree → Option GenericNames
  | [] => some names
  | .lifetime name :: rest =>
    if (parameters.lifetimePosition name).isSome then
      addArguments parameters (names.addLifetime name position) (position + 1) rest
    else Option.none
  | argument :: rest =>
    match argument.ident? with
    | some name =>
      if (parameters.valuePosition name).isSome then
        addArguments parameters (names.addValue name position) (position + 1) rest
      else Option.none
    | Option.none => Option.none

/-- The names that an impl block uses for the parameters of its self type. There are none when the
arguments of the self type are not as many as the struct has parameters, or are not all parameters
of the block. -/
def ofImpl? (generics : Generics) (selfType : Tree) (arity : Nat) : Option GenericNames :=
  match selfType.lastSegment?.bind argumentsOf with
  | some arguments =>
    if arguments.length = arity then addArguments (declared generics) none 0 arguments
    else Option.none
  | Option.none => Option.none

/-- The position of the parameter that a type consists of, brackets aside. -/
def positionOf (names : GenericNames) : Tree → Option Nat
  | .path false [.segment name []] => names.valuePosition name
  | .group .parenthesis [inner] => names.positionOf inner
  | _ => Option.none

end GenericNames

/-- New names for positions. -/
structure Renaming where
  value : Nat → String
  lifetime : Nat → String

namespace Renaming

/-- Positions as names. -/
def positional : Renaming :=
  ⟨fun position => "__G" ++ toString position, fun position => "__g" ++ toString position⟩

/-- The names that a list of parameters gives to positions. A position of the wrong kind has the
name of nothing. -/
def toDeclared (generics : Generics) : Renaming where
  value position :=
    match generics.params[position]? with
    | some (.type _ name _ _ _) => name
    | some (.const _ name _ _) => name
    | _ => "_"
  lifetime position :=
    match generics.params[position]? with
    | some (.lifetime _ name _ _) => name
    | _ => "_"

/-- The new name of a lifetime. -/
def ofLifetime (r : Renaming) (names : GenericNames) (name : String) : String :=
  match names.lifetimePosition name with
  | some position => r.lifetime position
  | none => name

/-- The new name of the first segment of a path. -/
def ofValue (r : Renaming) (names : GenericNames) (name : String) : String :=
  match names.valuePosition name with
  | some position => r.value position
  | none => name

/-- Renames the first of the segments of a path. -/
def head (r : Renaming) (names : GenericNames) : List Tree → List Tree
  | .segment name args :: rest => .segment (r.ofValue names name) args :: rest
  | segments => segments

mutual

/-- Renames every lifetime, and the first segment of every path that is not global. -/
def apply (r : Renaming) (names : GenericNames) : Tree → Tree
  | .token token => .token token
  | .lifetime name => .lifetime (r.ofLifetime names name)
  | .group delimiter children => .group delimiter (r.applyAll names children)
  | .seq children => .seq (r.applyAll names children)
  | .path isGlobal segments =>
    let segments := r.applyAll names segments
    .path isGlobal (if isGlobal then segments else r.head names segments)
  | .segment name args => .segment name (r.applyAll names args)
  | .arguments turbofish items trailing =>
    .arguments turbofish (r.applyAll names items) trailing
  | .qualified selfType traitPath rest =>
    .qualified (r.apply names selfType) (r.applyAll names traitPath)
      (r.applyAll names rest)
  | .record target body =>
    .record (r.apply names target) (r.applyAll names body)
  | .initializer attributes member value =>
    .initializer (r.applyAll names attributes) member (r.applyAll names value)
  | .constrained head between clause =>
    .constrained (r.applyAll names head) (r.applyAll names between) (r.applyAll names clause)
  | .block head attributes body =>
    .block (r.applyAll names head) (r.applyAll names attributes) (r.applyAll names body)

/-- Renames each of some trees. -/
def applyAll (r : Renaming) (names : GenericNames) : List Tree → List Tree
  | [] => []
  | tree :: rest => r.apply names tree :: r.applyAll names rest

end

end Renaming

namespace Tree

/-- The canonical form of a tree: each parameter is named by its position. -/
def canonical (tree : Tree) (names : GenericNames) : String :=
  (Renaming.positional.apply names tree).render

/-- The text of a tree in which the parameters have the names that a struct gives them. -/
def restated (tree : Tree) (names : GenericNames) (struct : Generics) : String :=
  ((Renaming.toDeclared struct).apply names tree).render

mutual

/-- Whether a path in the tree begins with the word for the type being declared. -/
def mentionsSelf : Tree → Bool
  | token _ => false
  | lifetime _ => false
  | group _ children => anyMentionsSelf children
  | seq children => anyMentionsSelf children
  | path _ segments => beginsWithSelf segments || anyMentionsSelf segments
  | segment _ args => anyMentionsSelf args
  | arguments _ items _ => anyMentionsSelf items
  | qualified selfType traitPath rest =>
    mentionsSelf selfType || anyMentionsSelf traitPath
      || (traitPath.isEmpty && beginsWithSelf rest) || anyMentionsSelf rest
  | record target body => mentionsSelf target || anyMentionsSelf body
  | initializer attributes _ value => anyMentionsSelf attributes || anyMentionsSelf value
  | constrained head between clause =>
    anyMentionsSelf head || anyMentionsSelf between || anyMentionsSelf clause
  | block head attributes body =>
    anyMentionsSelf head || anyMentionsSelf attributes || anyMentionsSelf body

/-- Whether one of some trees does. -/
def anyMentionsSelf : List Tree → Bool
  | [] => false
  | tree :: rest => mentionsSelf tree || anyMentionsSelf rest

/-- Whether the first segment is the word for the type being declared. -/
def beginsWithSelf : List Tree → Bool
  | segment name _ :: _ => name == "Self"
  | _ => false

end

end Tree

end Forwarding
