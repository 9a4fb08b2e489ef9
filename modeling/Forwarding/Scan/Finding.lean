import Forwarding.Config
import Forwarding.Grammar.Text
import Forwarding.Scan.Constructor
import Forwarding.Scan.Requirements
/-!
Scanning a unit. Every declaration that carries the merge attribute is a finding: either a
definition or the reason why it cannot be one. The findings of a unit are in the order of the text,
and the first failure among them is the failure of the scan.
-/

namespace Forwarding

namespace Conventions

/-- Whether an attribute is the merge attribute: its path ends in the conventional name. -/
def marks (c : Conventions) (a : Attribute) : Bool :=
  a.names.getLast? == some c.mark

end Conventions

/-- How a misplaced attribute's declaration is called; what cannot carry attributes of interest has
no name. -/
def OtherKind.phrase? : OtherKind → Option String
  | enumeration => some "an enum"
  | union => some "a union"
  | function => some "a function"
  | traitDeclaration => some "a trait"
  | typeAlias => some "a type alias"
  | constant => some "a const"
  | static => some "a static"
  | unspecified => none

/-- The fields that other modules see, by name without the mark of a raw identifier. A name that
occurs twice keeps its first place and its last field. -/
def StructItem.properties (struct : StructItem) (values : List (String × String)) :
    List (String × Property) :=
  match struct.fields with
  | .named fields _ =>
    fields.foldl (fun properties field =>
      match field.name with
      | some name =>
        if field.visibility.isExported then
          let key := unraw name
          putKey key ⟨name, field.type.render, values.lookup key⟩ properties
        else properties
      | none => properties) []
  | _ => []

/-- The name of the accessor that changes a property. -/
def mutableName (property : String) : String :=
  property ++ "_mut"

/-- The first accessor of the properties that would collide with another function of the forwarding
type. -/
def reservedAccessor? (constructor : String) (properties : List (String × Property)) :
    Option String :=
  properties.findSome? fun (key, _) =>
    if key == constructor || key == "into_inner" then some key
    else if properties.any fun (other, _) => other == mutableName key then some (mutableName key)
    else none

/-- Whether a struct has positional fields. -/
def Fields.isPositional : Fields → Bool
  | positional .. => true
  | _ => false

namespace SourceUnit

/-- A place in a unit. -/
def location (unit : SourceUnit) (position : Position) : Location :=
  .ofPosition unit.path position

end SourceUnit

namespace Scan

/-- A declaration that carries the merge attribute. -/
abbrev Finding := Except Failure Definition

/-- What is found of a struct once the arguments of its attribute are read. `module` is the module
of the struct and `blocks` are the impl blocks of that module. -/
def describe (c : Conventions) (module : List String) (blocks : List ImplItem)
    (struct : StructItem) (arguments : Annotation) (location : Location) :
    Except Defect Definition := do
  let type := unraw struct.name
  if !struct.visibility.isExported then throw (.privateType type)
  if struct.fields.isPositional then throw (.tupleStruct type)
  let constructor ← Constructor.find type c.constructor blocks
  let names ← constructor.names type struct
  let params ← constructor.params type struct names
  let requirements := Requirements.ofBoth struct.generics constructor.block.generics names
  let properties := struct.properties (constructor.values struct)
  if let some property := reservedAccessor? c.constructor properties then
    throw (.reservedProperty type property)
  if module = ["crate"] && type = arguments.name then throw (.nameCollision arguments.name)
  return {
    name := arguments.name
    priority := arguments.priority
    typePath := ModulePath.member module struct.name
    constructor := constructor.method.signature.name
    params
    generics := requirements.params
    predicates := requirements.predicates
    properties
    location }

/-- What is found of a struct that carries the attribute once. -/
def ofStruct (c : Conventions) (unit : SourceUnit) (module : List String) (blocks : List ImplItem)
    (struct : StructItem) (mark : Attribute) : Finding :=
  match Annotation.ofAttribute mark with
  | .error error =>
    .error (.scan (unit.location error.place) (.invalidAttribute c.mark error))
  | .ok arguments =>
    let location := unit.location struct.nameStart
    match describe c module blocks struct arguments location with
    | .error defect => .error (.scan location defect)
    | .ok definition => .ok definition

/-- What is found of a struct. -/
def findingsOfStruct (c : Conventions) (unit : SourceUnit) (module : List String)
    (blocks : List ImplItem) (struct : StructItem) : List Finding :=
  match struct.attributes.filter c.marks with
  | [] => []
  | [mark] => [ofStruct c unit module blocks struct mark]
  | _ :: second :: _ =>
    let defect := .repeatedAttribute c.mark (unraw struct.name)
    [.error (.scan (unit.location second.start) defect)]

/-- The failure of a declaration that is no struct and carries the attribute. -/
def misplaced? (c : Conventions) (unit : SourceUnit) (attributes : List Attribute)
    (phrase : String) : Option Failure :=
  (attributes.find? c.marks).map fun mark =>
    .scan (unit.location mark.start) (.notAStruct c.mark phrase)

/-- A failure as a list of findings. -/
def failureFound : Option Failure → List Finding
  | some failure => [.error failure]
  | none => []

/-- The impl blocks among some declarations. -/
def blocksOf (items : List Item) : List ImplItem :=
  items.filterMap fun
    | .implementation block => some block
    | _ => none

mutual

/-- What is found of a declaration in a module with the given impl blocks. -/
def findingsOfItem (c : Conventions) (unit : SourceUnit) (module : List String)
    (blocks : List ImplItem) : Item → List Finding
  | .struct struct => findingsOfStruct c unit module blocks struct
  | .implementation block => failureFound (misplaced? c unit block.attributes "an impl block")
  | .other kind attributes _ =>
    match kind.phrase? with
    | some phrase => failureFound (misplaced? c unit attributes phrase)
    | none => []
  | .module attributes _ name content =>
    match misplaced? c unit attributes "a module" with
    | some failure => [.error failure]
    | none =>
      match content with
      | none => []
      | some items => findingsOfItems c unit (module ++ [unraw name]) (blocksOf items) items

/-- What is found of declarations in a module with the given impl blocks. -/
def findingsOfItems (c : Conventions) (unit : SourceUnit) (module : List String)
    (blocks : List ImplItem) : List Item → List Finding
  | [] => []
  | item :: rest =>
    findingsOfItem c unit module blocks item ++ findingsOfItems c unit module blocks rest

end

/-- What is found in a unit. A text that does not parse is a failure of its own. -/
def findings (c : Conventions) (unit : SourceUnit) : List Finding :=
  match Grammar.parseFile unit.text with
  | .error error => [.error (.scan (unit.location error.place) (.malformed error))]
  | .ok items => findingsOfItems c unit unit.modulePath (blocksOf items) items

/-- The definitions before the first failure. -/
def accepted : List Finding → List Definition
  | .ok definition :: rest => definition :: accepted rest
  | _ => []

/-- The definitions of a unit, or its first failure. -/
def scan (c : Conventions) (unit : SourceUnit) : Except Failure (List Definition) :=
  (findings c unit).mapM id

/-- The definitions of some units in their order, or the failure of the first unit that fails. -/
def collect (c : Conventions) (units : List SourceUnit) : Except Failure (List Definition) := do
  return (← units.mapM (scan c)).flatten

end Scan

end Forwarding
