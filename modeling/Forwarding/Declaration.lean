import Forwarding.Token.Lexer
import Forwarding.Tree
/-!
Declarations: attributes, visibilities, generic parameters, structs, functions, impl blocks,
modules. What lies below a declaration, such as a type or an expression, is a `Tree`, and every
declaration has a tree of its own.
-/

namespace Forwarding

/-- What follows the path of an attribute. -/
inductive AttributeBody where
  | nothing
  /-- Arguments between brackets; `stop` is the place of the closing one. -/
  | list (delimiter : Delimiter) (body : List Lexeme) (stop : Position)
  /-- A value after an equals sign, whose place is `sign`. -/
  | value (sign : Position) (expression : Tree)
  deriving Repr

/-- An attribute of a declaration, a field, a parameter or an expression. -/
structure Attribute where
  /-- The place of the hash sign. -/
  start : Position
  isInner : Bool
  isGlobal : Bool
  /-- The names of the path, at least one. -/
  names : List String
  /-- The place of the first name. -/
  pathStart : Position
  body : AttributeBody
  deriving Repr

namespace Attribute

/-- The path of the attribute. -/
def path (a : Attribute) : Tree :=
  .path a.isGlobal (a.names.map fun name => .segment name [])

/-- The hash sign and the exclamation mark of an inner attribute. -/
def sign (a : Attribute) : List Tree :=
  .operator "#" :: (if a.isInner then [.operator "!"] else [])

/-- The tree of an attribute. -/
def tree (a : Attribute) : Tree :=
  let inside := match a.body with
    | .nothing => []
    | .list delimiter body _ =>
      [.group delimiter [.ofTokens (Lexeme.tokensOf body)]]
    | .value _ expression => [.operator "=", expression]
  .seq (a.sign ++ [.group .bracket (a.path :: inside)])

/-- The attributes that stand before what they belong to. -/
def outer (attributes : List Attribute) : List Tree :=
  (attributes.filter fun a => !a.isInner).map tree

/-- The attributes that stand inside what they belong to. -/
def inner (attributes : List Attribute) : List Tree :=
  (attributes.filter (·.isInner)).map tree

end Attribute

/-- From where a declaration can be seen. -/
inductive Visibility where
  | inherited
  | everywhere
  /-- Inside a module; `spelled` tells of the word that introduces a path. -/
  | inside (spelled : Bool) (path : Tree)
  deriving Repr

namespace Visibility

/-- The tree of a visibility. -/
def tree : Visibility → List Tree
  | inherited => []
  | everywhere => [.word "pub"]
  | inside spelled path =>
    [.word "pub", .group .parenthesis ((if spelled then [.word "in"] else []) ++ [path])]

/-- Whether a declaration can be seen from the whole crate: `pub` or `pub(crate)`. -/
def isExported : Visibility → Bool
  | inherited => false
  | everywhere => true
  | inside spelled path => !spelled && path.ident? == some "crate"

/-- Whether nothing is written. -/
def isInherited : Visibility → Bool
  | inherited => true
  | _ => false

end Visibility

/-- Bounds joined by plus signs. -/
def sumTree (bounds : List Tree) (trailing : Bool) : List Tree :=
  Tree.separated (.operator "+") bounds
    ++ (if trailing && !bounds.isEmpty then [.operator "+"] else [])

/-- A declared generic parameter. The flag `trailing` tells of a plus sign after the last bound. -/
inductive GenericParameter where
  | lifetime (attributes : List Attribute) (name : String) (bounds : List String) (trailing : Bool)
  | type (attributes : List Attribute) (name : String) (bounds : List Tree) (trailing : Bool)
      (byDefault : Option Tree)
  | const (attributes : List Attribute) (name : String) (type : Tree) (byDefault : Option Tree)
  deriving Repr

namespace GenericParameter

/-- Whether a parameter is a lifetime. -/
def isLifetime : GenericParameter → Bool
  | lifetime .. => true
  | _ => false

/-- The value that a parameter has when none is given. -/
def defaultTree (byDefault : Option Tree) : List Tree :=
  match byDefault with
  | some value => [.operator "=", value]
  | none => []

/-- The tree of a parameter. A colon without bounds is not printed. -/
def tree : GenericParameter → Tree
  | lifetime attributes name bounds trailing =>
    .seq (Attribute.outer attributes ++ [.lifetime name]
      ++ (if bounds.isEmpty then [] else
        .operator ":" :: sumTree (bounds.map Tree.lifetime) trailing))
  | type attributes name bounds trailing byDefault =>
    .seq (Attribute.outer attributes ++ [.word name]
      ++ (if bounds.isEmpty then [] else .operator ":" :: sumTree bounds trailing)
      ++ defaultTree byDefault)
  | const attributes name declared byDefault =>
    .seq (Attribute.outer attributes ++ [.word "const", .word name, .operator ":", declared]
      ++ defaultTree byDefault)

end GenericParameter

/-- A condition of a where clause. -/
inductive WherePredicate where
  | lifetime (name : String) (bounds : List String) (trailing : Bool)
  /-- Bounds of a type, possibly under a binder of lifetimes. -/
  | type (binder : Option Tree) (bounded : Tree) (bounds : List Tree) (trailing : Bool)
  deriving Repr

namespace WherePredicate

/-- The tree of a predicate. -/
def tree : WherePredicate → Tree
  | lifetime name bounds trailing =>
    .seq (.lifetime name :: .operator ":" :: sumTree (bounds.map Tree.lifetime) trailing)
  | type binder bounded bounds trailing =>
    .seq (binder.toList ++ bounded :: .operator ":" :: sumTree bounds trailing)

end WherePredicate

/-- The generic parameters of a declaration and its where clause. The flags tell of a comma after
the last parameter and after the last predicate. -/
structure Generics where
  params : List GenericParameter
  trailing : Bool
  predicates : List WherePredicate
  predicatesTrailing : Bool
  deriving Repr

namespace Generics

/-- No parameters and no predicates. -/
def none : Generics := ⟨[], false, [], false⟩

/-- The parameters between angle brackets, lifetimes first; nothing when there are none. -/
def paramsTree (g : Generics) : List Tree :=
  if g.params.isEmpty then [] else
    let marked := g.params.mapIdx fun i p =>
      (p.isLifetime, p.tree, g.trailing || i + 1 < g.params.length)
    let put := fun (_, tree, separated) => tree :: (if separated then [.operator ","] else [])
    let lifetimes := marked.filter (·.1)
    let others := marked.filter (!·.1)
    let open? := match lifetimes.getLast? with
      | some (_, _, separated) => !separated
      | Option.none => false
    .operator "<" :: (lifetimes.flatMap put
      ++ (if open? && !others.isEmpty then [.operator ","] else []) ++ others.flatMap put
      ++ [.operator ">"])

/-- The where clause; nothing when it has no predicates. -/
def whereTree (g : Generics) : List Tree :=
  if g.predicates.isEmpty then [] else
    .word "where" :: (Tree.separated (.operator ",") (g.predicates.map WherePredicate.tree)
      ++ (if g.predicatesTrailing then [.operator ","] else []))

end Generics

/-- A field of a struct or a variant; a positional field has no name. -/
structure Field where
  attributes : List Attribute
  visibility : Visibility
  name : Option String
  type : Tree
  deriving Repr

/-- The tree of a field. -/
def Field.tree (f : Field) : Tree :=
  .seq (Attribute.outer f.attributes ++ f.visibility.tree
    ++ (match f.name with
      | some name => [.word name, .operator ":"]
      | none => [])
    ++ [f.type])

/-- The fields of a struct or a variant; the flag tells of a comma after the last one. -/
inductive Fields where
  | named (fields : List Field) (trailing : Bool)
  | positional (fields : List Field) (trailing : Bool)
  | unit
  deriving Repr

/-- The trees of fields with their commas. -/
def Fields.listed (fields : List Field) (trailing : Bool) : List Tree :=
  Tree.separated (.operator ",") (fields.map Field.tree)
    ++ (if trailing && !fields.isEmpty then [.operator ","] else [])

/-- A struct declaration. -/
structure StructItem where
  attributes : List Attribute
  visibility : Visibility
  name : String
  /-- The place of the name. -/
  nameStart : Position
  generics : Generics
  fields : Fields
  deriving Repr

/-- The tree of a struct. -/
def StructItem.tree (s : StructItem) : Tree :=
  let head := [.word "struct", .word s.name] ++ s.generics.paramsTree
  .seq (Attribute.outer s.attributes ++ s.visibility.tree
    ++ match s.fields with
      | .named fields trailing =>
        [.constrained head [] s.generics.whereTree,
          .group .brace (Fields.listed fields trailing)]
      | .positional fields trailing =>
        [.constrained head [.group .parenthesis (Fields.listed fields trailing)]
          s.generics.whereTree, .operator ";"]
      | .unit => [.constrained head [] s.generics.whereTree, .operator ";"])

/-- A parameter of a function. -/
inductive Parameter where
  /-- The receiver of a method. -/
  | receiver (tree : Tree)
  /-- A pattern with its type. `name` is the identifier that a plain pattern binds by value. -/
  | typed (attributes : List Attribute) (pattern : Tree) (name : Option String) (type : Tree)
  deriving Repr

/-- The tree of a parameter. -/
def Parameter.tree : Parameter → Tree
  | receiver tree => tree
  | typed attributes pattern _ type =>
    .seq (Attribute.outer attributes ++ [pattern, .operator ":", type])

/-- The signature of a function. -/
structure Signature where
  isConst : Bool
  isAsync : Bool
  isUnsafe : Bool
  /-- The calling convention, if one is written. -/
  convention : Option Tree
  name : String
  generics : Generics
  params : List Parameter
  trailing : Bool
  /-- The mark of a variable number of arguments. -/
  variadic : Option Tree
  output : Option Tree
  deriving Repr

/-- The tree of a signature. -/
def Signature.tree (s : Signature) : Tree :=
  let params := Tree.separated (.operator ",") (s.params.map Parameter.tree)
  let last := match s.variadic with
    | some dots =>
      (if s.params.isEmpty then [] else [.operator ","]) ++ [dots]
    | none => if s.trailing && !s.params.isEmpty then [.operator ","] else []
  .constrained
    ((if s.isConst then [.word "const"] else []) ++ (if s.isAsync then [.word "async"] else [])
      ++ (if s.isUnsafe then [.word "unsafe"] else []) ++ s.convention.toList
      ++ [.word "fn", .word s.name] ++ s.generics.paramsTree)
    (.group .parenthesis (params ++ last)
      :: match s.output with
        | some type => [.operator "->", type]
        | none => [])
    s.generics.whereTree

/-- A function of an impl block. -/
structure Method where
  attributes : List Attribute
  visibility : Visibility
  isDefault : Bool
  signature : Signature
  /-- The statements of the body. -/
  body : List Tree
  deriving Repr

/-- The tree of a function of an impl block. -/
def Method.tree (m : Method) : Tree :=
  .seq (Attribute.outer m.attributes ++ [.block
    (m.visibility.tree ++ (if m.isDefault then [.word "default"] else []) ++ [m.signature.tree])
    (Attribute.inner m.attributes) m.body])

/-- What an impl block holds. -/
inductive ImplMember where
  | method (method : Method)
  | other (tree : Tree)
  deriving Repr

/-- The tree of a member. -/
def ImplMember.tree : ImplMember → Tree
  | method m => m.tree
  | other tree => tree

/-- An impl block. -/
structure ImplItem where
  attributes : List Attribute
  isDefault : Bool
  isUnsafe : Bool
  generics : Generics
  /-- The trait that the block implements, with its polarity; an inherent block has none. -/
  ofTrait : Option Tree
  selfType : Tree
  members : List ImplMember
  deriving Repr

/-- The tree of an impl block. -/
def ImplItem.tree (i : ImplItem) : Tree :=
  let head :=
    (if i.isDefault then [.word "default"] else []) ++ (if i.isUnsafe then [.word "unsafe"] else [])
      ++ [.word "impl"] ++ i.generics.paramsTree
  let subject := match i.ofTrait with
    | some path => [path, .word "for", i.selfType]
    | none => [i.selfType]
  .seq (Attribute.outer i.attributes ++ [.block [.constrained head subject i.generics.whereTree]
    (Attribute.inner i.attributes) (i.members.map ImplMember.tree)])

/-- The kinds of declarations that the scanner does not look into. -/
inductive OtherKind where
  | enumeration
  | union
  | function
  | traitDeclaration
  | typeAlias
  | constant
  | static
  /-- Imports, foreign blocks, invocations and everything else. -/
  | unspecified
  deriving Repr, DecidableEq

/-- A declaration. -/
inductive Item where
  | struct (declaration : StructItem)
  | implementation (block : ImplItem)
  /-- A module, whose items are missing when they live in a file of their own. -/
  | module (attributes : List Attribute) (before : List Tree) (name : String)
      (content : Option (List Item))
  /-- Any other declaration; the tree includes the attributes. -/
  | other (kind : OtherKind) (attributes : List Attribute) (tree : Tree)
  deriving Repr

namespace Item

mutual

/-- The tree of a declaration. -/
def tree : Item → Tree
  | struct declaration => declaration.tree
  | implementation block => block.tree
  | module attributes before name content =>
    .seq (Attribute.outer attributes ++ before ++ [.word "mod", .word name]
      ++ match content with
        | none => [.operator ";"]
        | some items => [.group .brace (Attribute.inner attributes ++ treesOf items)])
  | other _ _ tree => tree

/-- The trees of declarations. -/
def treesOf : List Item → List Tree
  | [] => []
  | item :: rest => item.tree :: treesOf rest

end

end Item

end Forwarding
