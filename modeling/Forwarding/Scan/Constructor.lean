import Forwarding.Failure
import Forwarding.Scan.Names
/-!
The constructor of a struct: the one exported function of the conventional name among the inherent
impl blocks of the same module, the shape of its parameters, and the values that it gives to fields.
-/

namespace Forwarding

/-- A constructor with the impl block that declares it. -/
structure Constructor where
  block : ImplItem
  method : Method
  deriving Repr

namespace ImplItem

/-- The name of the type that an inherent block belongs to, without the mark of a raw identifier. -/
def inherentName? (block : ImplItem) : Option String :=
  match block.ofTrait, block.selfType with
  | none, .path _ segments => segments.getLast?.map fun segment => unraw segment.segmentName
  | _, _ => none

/-- The exported functions of a name in a block. -/
def exported (name : String) (block : ImplItem) : List Constructor :=
  block.members.filterMap fun
    | .method method =>
      if method.signature.name == name && method.visibility.isExported then some ⟨block, method⟩
      else none
    | .other _ => none

end ImplItem

namespace Constructor

/-- The constructor of a type, by the name of the type and the conventional name of constructors. -/
def find (type name : String) (blocks : List ImplItem) : Except Defect Constructor :=
  let inherent := blocks.filter fun block => block.inherentName? == some type
  match inherent.flatMap (ImplItem.exported name) with
  | [] => .error (.missingConstructor type name)
  | [constructor] => .ok constructor
  | _ => .error (.ambiguousConstructor type name)

/-- Whether the first parameter is a receiver. -/
def takesReceiver : List Parameter → Bool
  | .receiver _ :: _ => true
  | _ => false

/-- Whether a return type is the type under construction: the word for it, or a path that ends in
the name of the struct. -/
def returnsOwn (struct : StructItem) : Option Tree → Bool
  | some (.path _ segments) =>
    match segments.getLast? with
    | some segment =>
      (segment.segmentName == "Self" && segments.length == 1)
        || segment.segmentName == struct.name
    | none => false
  | _ => false

/-- The shape of a parameter's type, written in the names of the struct. -/
def shapeOf (struct : Generics) (names : GenericNames) (type : Tree) : ParamShape :=
  match names.positionOf type with
  | some position => .generic position (type.restated names struct)
  | none => .concrete (type.restated names struct) (type.canonical names)

/-- The parameter of a constructor that stands at an index. -/
def paramOf (type constructor : String) (struct : Generics) (names : GenericNames) (index : Nat) :
    Parameter → Except Defect ConstructorParam
  | .receiver _ => .error (.constructorReceiver type constructor)
  | .typed _ _ none _ => .error (.patternParameter type constructor index)
  | .typed _ _ (some name) declared =>
    if declared.mentionsSelf then .error (.selfParameter type constructor index)
    else .ok ⟨name, shapeOf struct names declared⟩

/-- The parameters of a constructor from an index on. -/
def paramsFrom (type constructor : String) (struct : Generics) (names : GenericNames) (index : Nat) :
    List Parameter → Except Defect (List ConstructorParam)
  | [] => .ok []
  | param :: rest => do
    let first ← paramOf type constructor struct names index param
    let others ← paramsFrom type constructor struct names (index + 1) rest
    return first :: others

/-- The names that the block of a constructor uses for the parameters of the struct, if the
constructor can be forwarded to at all. -/
def names (type : String) (struct : StructItem) (c : Constructor) : Except Defect GenericNames :=
  let signature := c.method.signature
  let constructor := signature.name
  if takesReceiver signature.params then .error (.constructorReceiver type constructor)
  else if signature.isAsync then .error (.asyncConstructor type constructor)
  else if !signature.generics.params.isEmpty then .error (.genericConstructor type constructor)
  else if !returnsOwn struct signature.output then .error (.constructorReturn type constructor)
  else
    let arity := struct.generics.params.length
    match GenericNames.ofImpl? c.block.generics c.block.selfType arity with
    | none => .error (.implNotGeneric type constructor)
    | some names => .ok names

/-- The parameters of a constructor. -/
def params (type : String) (struct : StructItem) (names : GenericNames) (c : Constructor) :
    Except Defect (List ConstructorParam) :=
  let signature := c.method.signature
  paramsFrom type signature.name struct.generics names 0 signature.params

end Constructor

namespace Tree

/-- Whether the name of a struct literal is accepted: that of the last segment of its path, which its
attributes stand before. -/
def builds (accepts : String → Bool) (target : Tree) : Bool :=
  let path := match target with
    | seq before => before.getLast?.getD empty
    | target => target
  match path.lastSegment? with
  | some last => accepts last.segmentName
  | none => false

mutual

/-- What stands between the braces of the first struct literal whose name is accepted, an outer
literal before those inside it. A where clause comes with the generic parameters that it
constrains, and the attributes inside braces come with those before the head. -/
def firstRecord (accepts : String → Bool) : Tree → Option (List Tree)
  | token _ => none
  | lifetime _ => none
  | group _ children => firstRecordOf accepts children
  | seq children => firstRecordOf accepts children
  | path _ segments => firstRecordOf accepts segments
  | segment _ args => firstRecordOf accepts args
  | arguments _ items _ => firstRecordOf accepts items
  | qualified selfType traitPath rest =>
    (firstRecord accepts selfType).or
      ((firstRecordOf accepts traitPath).or (firstRecordOf accepts rest))
  | record target body =>
    if target.builds accepts then some body
    else (firstRecord accepts target).or (firstRecordOf accepts body)
  | initializer attributes _ value =>
    (firstRecordOf accepts attributes).or (firstRecordOf accepts value)
  | constrained head between clause =>
    (firstRecordOf accepts head).or
      ((firstRecordOf accepts clause).or (firstRecordOf accepts between))
  | block head attributes body =>
    (firstRecordOf accepts attributes).or
      ((firstRecordOf accepts head).or (firstRecordOf accepts body))

/-- The same for trees one after another. -/
def firstRecordOf (accepts : String → Bool) : List Tree → Option (List Tree)
  | [] => none
  | tree :: rest => (firstRecord accepts tree).or (firstRecordOf accepts rest)

end

/-- The field and the value of an initializer with a named member. A field without a value has the
value of the name. -/
def assignment? : Tree → Option (String × String)
  | initializer _ (.ident name) [] => some (unraw name, name)
  | initializer _ (.ident name) value => some (unraw name, (seq value).render)
  | _ => none

end Tree

/-- The values that a constructor gives to fields, the last one first: those of the first literal of
the struct in the body. -/
def Constructor.values (struct : StructItem) (c : Constructor) : List (String × String) :=
  let accepts := fun name => name == "Self" || name == struct.name
  match Tree.firstRecordOf accepts c.method.body with
  | some body => (body.filterMap Tree.assignment?).reverse
  | none => []

end Forwarding
