import Forwarding.Annotation
import Forwarding.Order
import Forwarding.Source.Location
/-!
Definitions: what a scan records of a struct that carries the merge attribute. Every type, bound and
predicate is a text in two forms. The written form uses the names of the struct; in the canonical
form each generic parameter is named by its position, so that definitions which name their
parameters differently compare equal.
-/

namespace Forwarding

/-- The kind of a generic parameter. -/
inductive GenericKind where
  | type
  | lifetime
  | const (type : String)
  deriving Repr, DecidableEq

/-- A generic parameter of a definition. -/
structure GenericParam where
  /-- The name as written, a lifetime with its apostrophe. -/
  name : String
  kind : GenericKind
  /-- The written bounds, those of where clauses and of the impl block included. -/
  bounds : List String
  /-- The canonical bounds, as a set of texts. -/
  canonicalBounds : List String
  deriving Repr, DecidableEq

namespace GenericParam

/-- The parameter as it is declared. -/
def declaration (p : GenericParam) : String :=
  match p.kind with
  | .const type => "const " ++ p.name ++ ": " ++ type
  | _ => if p.bounds.isEmpty then p.name else p.name ++ ": " ++ " + ".intercalate p.bounds

/-- Whether every argument that satisfies `p` satisfies `q`: `q` requires no bound that `p` does not
require, and constants have the same type. -/
def admits (p q : GenericParam) : Bool :=
  match p.kind, q.kind with
  | .type, .type => q.canonicalBounds.all p.canonicalBounds.contains
  | .lifetime, .lifetime => q.canonicalBounds.all p.canonicalBounds.contains
  | .const a, .const b => a == b
  | _, _ => false

/-- Adds a bound unless its canonical form is already required. -/
def addBound (p : GenericParam) (written canonical : String) : GenericParam :=
  if p.canonicalBounds.contains canonical then p
  else { p with
    bounds := p.bounds ++ [written]
    canonicalBounds := insertText canonical p.canonicalBounds }

end GenericParam

/-- The type of a constructor's parameter. -/
inductive ParamShape where
  /-- A type in both forms. -/
  | concrete (type canonical : String)
  /-- Exactly the generic parameter at a position. -/
  | generic (position : Nat) (type : String)
  deriving Repr, DecidableEq

/-- The written type of a parameter. -/
def ParamShape.type : ParamShape → String
  | concrete type _ => type
  | generic _ type => type

/-- A parameter of a constructor. -/
structure ConstructorParam where
  name : String
  shape : ParamShape
  deriving Repr, DecidableEq

/-- A field that the forwarding type gives access to. -/
structure Property where
  name : String
  type : String
  /-- What the constructor's struct literal gives the field, if there is such a literal. -/
  value : Option String
  deriving Repr, DecidableEq

/-- A struct that carries the merge attribute. -/
structure Definition where
  /-- The logical name of the group. -/
  name : String
  priority : Priority
  typePath : String
  constructor : String
  params : List ConstructorParam
  generics : List GenericParam
  /-- The predicates that are no plain bounds of a parameter. -/
  predicates : List String
  /-- The properties in the order of the fields, by name without the mark of a raw identifier. -/
  properties : List (String × Property)
  location : Location
  deriving Repr, DecidableEq

/-- Sets the value of a key. A key that is present keeps its place. -/
def putKey {α : Type} (key : String) (value : α) : List (String × α) → List (String × α)
  | [] => [(key, value)]
  | (k, v) :: rest => if k = key then (key, value) :: rest else (k, v) :: putKey key value rest

end Forwarding
