import Forwarding.Definition
import Forwarding.Scan.Names
/-!
What a definition requires of its generic arguments. Bounds are written at several places: at the
parameters of the struct, in its where clause, and at the same two places of the impl block that
declares the constructor. All of them are folded into the parameters of the struct. A predicate that
bounds something else than a parameter is kept as it is.
-/

namespace Forwarding

/-- The parameters of a struct with their bounds, and the remaining predicates. -/
structure Requirements where
  params : List GenericParam
  predicates : List String
  deriving Repr, DecidableEq

/-- A declared parameter with the bounds written at it. -/
def GenericParam.ofDeclared (names : GenericNames) : GenericParameter → GenericParam
  | .type _ name bounds _ _ =>
    ⟨name, .type, bounds.map Tree.render, setOfTexts (bounds.map (·.canonical names))⟩
  | .lifetime _ name bounds _ =>
    let bounds := bounds.map Tree.lifetime
    ⟨(Tree.lifetime name).render, .lifetime, bounds.map Tree.render,
      setOfTexts (bounds.map (·.canonical names))⟩
  | .const _ name type _ => ⟨name, .const type.render, [], []⟩

namespace Requirements

/-- Requires bounds of the parameter at a position. The bounds use the given names; they are written
in the names of the struct. -/
def bound (struct : Generics) (names : GenericNames) (position : Nat) (bounds : List Tree)
    (r : Requirements) : Requirements :=
  { r with
    params := r.params.modify position fun param =>
      bounds.foldl (fun param b => param.addBound (b.restated names struct) (b.canonical names))
        param }

/-- Requires a predicate unless its text is already among the predicates. -/
def addPredicate (text : String) (r : Requirements) : Requirements :=
  if r.predicates.contains text then r else { r with predicates := r.predicates ++ [text] }

/-- Whether the parameter at a position stands for a type. -/
def isType (r : Requirements) (position : Nat) : Bool :=
  match r.params[position]? with
  | some param => param.kind == .type
  | none => false

/-- The position of the parameter that a predicate bounds and the bounds, if the predicate bounds
exactly one parameter. -/
def plainBounds? (names : GenericNames) (r : Requirements) :
    WherePredicate → Option (Nat × List Tree)
  | .type none bounded bounds _ =>
    match names.positionOf bounded with
    | some position => if r.isType position then some (position, bounds) else none
    | none => none
  | .type (some _) _ _ _ => none
  | .lifetime name bounds _ =>
    (names.lifetimePosition name).map fun position => (position, bounds.map Tree.lifetime)

/-- Requires a predicate of a where clause. -/
def addWhere (struct : Generics) (names : GenericNames) (r : Requirements)
    (predicate : WherePredicate) : Requirements :=
  match r.plainBounds? names predicate with
  | some (position, bounds) => r.bound struct names position bounds
  | none => r.addPredicate (predicate.tree.restated names struct)

/-- Requires the bounds written at a parameter of the impl block. -/
def addInline (struct : Generics) (names : GenericNames) (r : Requirements) :
    GenericParameter → Requirements
  | .type _ name bounds _ _ =>
    match names.valuePosition name with
    | some position => r.bound struct names position bounds
    | none => r
  | .lifetime _ name bounds _ =>
    match names.lifetimePosition name with
    | some position => r.bound struct names position (bounds.map Tree.lifetime)
    | none => r
  | .const .. => r

/-- What a struct itself requires. -/
def ofStruct (struct : Generics) : Requirements :=
  let names := GenericNames.declared struct
  struct.predicates.foldl (addWhere struct names)
    ⟨struct.params.map (GenericParam.ofDeclared names), []⟩

/-- What the impl block of the constructor requires on top. The block calls the parameters of the
struct by the given names. -/
def ofBlock (struct block : Generics) (names : GenericNames) (r : Requirements) : Requirements :=
  block.predicates.foldl (addWhere struct names) (block.params.foldl (addInline struct names) r)

/-- What a struct and the impl block of its constructor require. -/
def ofBoth (struct block : Generics) (names : GenericNames) : Requirements :=
  (ofStruct struct).ofBlock struct block names

end Requirements

end Forwarding
