import Forwarding.Grammar.Function
/-!
Declarations. What the scanner never looks into is read in full all the same, and kept as a tree.
-/

namespace Forwarding.Grammar

open Forwarding.Grammar.Parser

/-- What has been read since some lexemes were ahead, as it was written. -/
def readSince (before : List Lexeme) : Parser Tree := do
  let after := (← get).rest
  return .ofTokens (Lexeme.tokensOf (before.take (before.length - after.length)))

/-- The words besides identifiers that may begin the path of a macro. -/
def macroBeginnings : List Expectation :=
  [.identifier, .word "self", .word "super", .word "crate", .operator "::"]

/-- A macro invocation inside a block of declarations, with its semicolon. -/
def memberMacro : Parser Tree := do
  let name ← plainPath
  let (delimiter, tree) ← invocation name.tree
  if delimiter = .brace then return tree else return .seq [tree, ← operator ";"]

/-- The bounds after the colon of an associated item or a trait. -/
def boundsUntil (g : Grammar) (ends : List Expectation) : Parser (List Tree) := do
  let (bounds, trailing) ← punctuated "+" (peekAny ends) g.bound
  return join "+" bounds trailing

/-- A named field. A name that is only an underscore may have the fields of a struct as its type. -/
def namedField (g : Grammar) : Parser Field := do
  let attributes ← outerAttributes g
  let visibility ← visibility
  let nameless ← seesWord "_"
  let name ← if nameless then anyWord else identifier
  let _ ← operator ":"
  let inline := nameless
    && ((← seesWord "struct") || ((← seesWord "union") && (← peek2 (.group .brace))))
  let type ←
    if inline then
      verbatim do
        let _ ← anyWord
        grouped .brace remaining
    else g.type
  return ⟨attributes, visibility, some name, type⟩

/-- A positional field. -/
def positionalField (g : Grammar) : Parser Field := do
  let attributes ← outerAttributes g
  let visibility ← visibility
  return ⟨attributes, visibility, none, ← g.type⟩

/-- Fields in braces. -/
def namedFields (g : Grammar) : Parser Fields := do
  let (fields, trailing) ← grouped .brace (punctuated "," atEnd (namedField g))
  return .named fields trailing

/-- Fields in round brackets. -/
def positionalFields (g : Grammar) : Parser Fields := do
  let (fields, trailing) ← grouped .parenthesis (punctuated "," atEnd (positionalField g))
  return .positional fields trailing

/-- The tree of fields with their brackets. -/
def fieldsTree : Fields → List Tree
  | .named fields trailing => [.group .brace (Fields.listed fields trailing)]
  | .positional fields trailing => [.group .parenthesis (Fields.listed fields trailing)]
  | .unit => []

/-- What follows the parameters of a struct: its where clause and its fields. -/
def structBody (g : Grammar) (generics : Generics) : Parser (Generics × Fields) := do
  let clause ← seesWord "where"
  let generics ← withWhere g generics
  if !clause && (← peek (.group .parenthesis)) then
    let fields ← positionalFields g
    let late ← seesWord "where"
    let generics ← withWhere g generics
    if ← seesOperator ";" then
      let _ ← operator ";"
      return (generics, fields)
    else failExpecting (if late then [.operator ";"] else [.word "where", .operator ";"])
  else if ← peek (.group .brace) then return (generics, ← namedFields g)
  else if ← seesOperator ";" then
    let _ ← operator ";"
    return (generics, .unit)
  else failExpecting (if clause then [.group .brace, .operator ";"]
    else [.word "where", .group .parenthesis, .group .brace, .operator ";"])

/-- A struct after its attributes. -/
def structItem (g : Grammar) (attributes : List Attribute) : Parser StructItem := do
  let visibility ← visibility
  let _ ← word "struct"
  let nameStart ← place
  let name ← identifier
  let generics ← genericParameters g
  let (generics, fields) ← structBody g generics
  return ⟨attributes, visibility, name, nameStart, generics, fields⟩

/-- A variant of an enumeration. -/
def variant (g : Grammar) : Parser Tree := do
  let attributes := Attribute.outer (← outerAttributes g)
  let _ ← visibility
  let name ← identifier
  let fields ←
    if ← peek (.group .brace) then namedFields g
    else if ← peek (.group .parenthesis) then positionalFields g
    else pure .unit
  let value ←
    if ← seesOperator "=" then
      let sign ← operator "="
      pure [sign, ← g.expression]
    else pure []
  return .seq (attributes ++ .word name :: (fieldsTree fields ++ value))

/-- An enumeration after its attributes. -/
def enumeration (g : Grammar) : Parser Tree := do
  let visibility ← visibility
  let _ ← word "enum"
  let name ← identifier
  let generics ← withWhere g (← genericParameters g)
  let variants ← groupedTree .brace (commaList (variant g))
  return .seq (visibility.tree ++ [.word "enum", .word name] ++ generics.paramsTree
    ++ generics.whereTree ++ [variants])

/-- A union after its attributes. -/
def unionItem (g : Grammar) : Parser Tree := do
  let visibility ← visibility
  let _ ← word "union"
  let name ← identifier
  let generics ← withWhere g (← genericParameters g)
  let fields ← namedFields g
  return .seq (visibility.tree ++ [.word "union", .word name] ++ generics.paramsTree
    ++ generics.whereTree ++ fieldsTree fields)

/-- The name of a constant, which may be an underscore. -/
def constantName : Parser String := do
  if ← peekAny [.identifier, .word "_"] then anyWord
  else failExpecting [.identifier, .word "_"]

/-- What follows the word of a constant: its name, type and value. The flags tell of generic
parameters or a where clause, and of a missing value. -/
def constantBody (g : Grammar) : Parser (Tree × Bool × Bool) := do
  let name ← constantName
  let angled ← seesOperator "<"
  let generics ← genericParameters g
  let _ ← operator ":"
  let type ← g.type
  let value ←
    if ← seesOperator "=" then
      let sign ← operator "="
      pure [sign, ← g.expression]
    else pure []
  let clause ← seesWord "where"
  let generics ← withWhere g generics
  let _ ← operator ";"
  return (.seq (.word "const" :: .word name :: (generics.paramsTree ++ .operator ":" :: type
    :: (value ++ generics.whereTree ++ [.operator ";"]))), angled || clause, value.isEmpty)

/-- Where the where clause of a type alias stands. -/
inductive ClausePlace where
  | beforeValue
  | afterValue
  | either
  deriving Repr, DecidableEq

/-- A type alias or an associated type. The flags tell of a colon for bounds and of a value. -/
structure TypeAlias where
  tree : Tree
  isBounded : Bool
  hasValue : Bool

/-- A type alias or an associated type after its attributes. -/
def typeAlias (g : Grammar) (canDefault : Bool) (clause : ClausePlace) : Parser TypeAlias := do
  let visibility ← visibility
  let byDefault ← if canDefault then word? "default" else pure none
  let _ ← word "type"
  let name ← identifier
  let generics ← genericParameters g
  let colon ← operator? ":"
  let bounds ←
    if colon.isSome then boundsUntil g [.word "where", .operator "=", .operator ";"] else pure []
  let early ← if clause == .afterValue then pure generics else withWhere g generics
  let value ←
    if ← seesOperator "=" then
      let sign ← operator "="
      pure [sign, ← g.type]
    else pure []
  let late := clause == .afterValue || (clause == .either && early.predicates.isEmpty)
  let full ← if late then withWhere g early else pure early
  let _ ← operator ";"
  let head := visibility.tree ++ byDefault.toList ++ [.word "type", .word name]
    ++ generics.paramsTree
  let bounded := if bounds.isEmpty then [] else .operator ":" :: bounds
  let tree :=
    if late then [.constrained head (bounded ++ value) full.whereTree]
    else .constrained head bounded full.whereTree :: value
  return ⟨.seq (tree ++ [.operator ";"]), colon.isSome, !value.isEmpty⟩

/-- A function with its body after its attributes. Without a body there is no result. -/
def method? (g : Grammar) (attributes : List Attribute) : Parser (Option Method) := do
  let visibility ← visibility
  let byDefault ← word? "default"
  let signature ← signature g
  if ← seesOperator ";" then
    let _ ← operator ";"
    return none
  let (inner, body) ← braced g g.statements
  return some ⟨attributes ++ inner, visibility, byDefault.isSome, signature, body⟩

/-- A member of an impl block. -/
def implMember (g : Grammar) : Parser ImplMember := do
  let before := (← get).rest
  let attributes ← outerAttributes g
  let start ← get
  let visibility ← visibility
  let first := (← get).rest
  let byDefault ←
    if (← seesWord "default") && !(← peek2 (.operator "!")) then word? "default" else pure none
  if ← beginsSignature false then
    set start
    match ← method? g attributes with
    | some method => return .method method
    | none => return .other (← readSince before)
  else if ← seesWord "const" then
    let _ ← word "const"
    let (tree, generic, valueless) ← constantBody g
    if generic || valueless then return .other (← readSince before)
    else return .other (.seq (Attribute.outer attributes ++ visibility.tree ++ byDefault.toList
      ++ [tree]))
  else if ← seesWord "type" then
    set start
    let declared ← typeAlias g true .afterValue
    if declared.isBounded || !declared.hasValue then return .other (← readSince before)
    else return .other (.seq (Attribute.outer attributes ++ [declared.tree]))
  else if visibility.isInherited && byDefault.isNone && (← peekAny macroBeginnings) then
    return .other (.seq (Attribute.outer attributes ++ [← memberMacro]))
  else
    let rest := (← get).rest
    let tried := (if byDefault.isNone && !sees first (.word "default") then
        [Expectation.word "default"] else [])
      ++ [.word "fn", .word "const", .word "type"]
      ++ (if visibility.isInherited && byDefault.isNone then macroBeginnings else [])
    fail (.expected (tried.filter fun e => !sees rest e))

/-- Whether angle brackets after the word of an impl block hold parameters, and not a path through a
type. -/
def beginsImplGenerics : Parser Bool := do
  if !(← seesOperator "<") then return false
  if ← (peek2 (.operator ">") <||> peek2 (.operator "#") <||> peek2 (.word "const")) then
    return true
  if !((← peek2 .lifetime) || (← peek2 .identifier)) then return false
  return ((← peek3 (.operator ":")) && !(← peek3 (.operator "::"))) || (← peek3 (.operator ","))
    || (← peek3 (.operator ">")) || (← peek3 (.operator "="))

/-- An impl block after its attributes. Blocks that are no impl blocks of the language, such as those
with a visibility, are read and give nothing. -/
def implItem (g : Grammar) (attributes : List Attribute) : Parser (Option ImplItem) := do
  let visibility ← visibility
  let byDefault ← word? "default"
  let unsafety ← word? "unsafe"
  let _ ← word "impl"
  let generics ← if ← beginsImplGenerics then genericParameters g else pure .none
  let isConst := (← seesWord "const") || ((← seesOperator "?") && (← peek2 (.word "const")))
  if isConst then
    let _ ← operator? "?"
    let _ ← word "const"
  let polarity ←
    if (← seesOperator "!") && !(← peek2 (.group .brace)) then some <$> operator "!"
    else pure none
  let first ← g.type
  let isFor ← seesWord "for"
  let isPath := match first with
    | .path _ _ => true
    | _ => false
  let (ofTrait, selfType) ←
    if isFor then
      let _ ← word "for"
      let selfType ← g.type
      pure (if isPath then some (Tree.seq (polarity.toList ++ [first])) else none, selfType)
    else pure (none, .seq (polarity.toList ++ [first]))
  let selfType := if polarity.isNone && !isFor then first else selfType
  let generics ← withWhere g generics
  let (inner, members) ← braced g (untilEnd (implMember g))
  if !visibility.isInherited || isConst || (isFor && ofTrait.isNone) then return none
  else return some ⟨attributes ++ inner, byDefault.isSome, unsafety.isSome, generics, ofTrait,
    selfType, members⟩

/-- A function of a trait after its attributes. -/
def traitFunction (g : Grammar) (attributes : List Attribute) : Parser Tree := do
  let signature ← signature g
  if ← peek (.group .brace) then
    let (inner, body) ← braced g g.statements
    return .seq (Attribute.outer attributes
      ++ [.block [signature.tree] (Attribute.inner inner) body])
  else if ← seesOperator ";" then
    let sign ← operator ";"
    return .seq (Attribute.outer attributes ++ [signature.tree, sign])
  else failExpecting [.group .brace, .operator ";"]

/-- A member of a trait. -/
def traitMember (g : Grammar) : Parser Tree := do
  let before := (← get).rest
  let attributes ← outerAttributes g
  let visibility ← visibility
  let byDefault ← word? "default"
  let tree ←
    if ← beginsSignature false then traitFunction g attributes
    else if ← seesWord "const" then
      let sign ← get
      let _ ← word "const"
      if ← peekAny [.identifier, .word "_"] then
        let (tree, generic, _) ← constantBody g
        if generic then return ← readSince before
        pure (Tree.seq (Attribute.outer attributes ++ [tree]))
      else if ← peekAny [.word "async", .word "unsafe", .word "extern", .word "fn"] then
        set sign
        traitFunction g attributes
      else failExpecting [.identifier, .word "_", .word "async", .word "unsafe", .word "extern",
        .word "fn"]
    else if ← seesWord "type" then
      let declared ← typeAlias g false .afterValue
      pure (Tree.seq (Attribute.outer attributes ++ [declared.tree]))
    else if visibility.isInherited && byDefault.isNone && (← peekAny macroBeginnings) then
      pure (Tree.seq (Attribute.outer attributes ++ [← memberMacro]))
    else
      failExpecting ([.word "fn", .word "const", .word "type"]
        ++ (if visibility.isInherited && byDefault.isNone then macroBeginnings else []))
  if visibility.isInherited && byDefault.isNone then return tree else readSince before

/-- What follows the parameters of a trait: its bounds, where clause and members. -/
def traitBody (g : Grammar) (head : List Tree) (generics : Generics) :
    Parser (List Attribute × Tree) := do
  let colon ← operator? ":"
  let bounds ←
    if colon.isSome then boundsUntil g [.word "where", .group .brace] else pure []
  let full ← withWhere g generics
  let (inner, members) ← braced g (untilEnd (traitMember g))
  let bounded := if bounds.isEmpty then [] else .operator ":" :: bounds
  return (inner, .block [.constrained (head ++ generics.paramsTree) bounded full.whereTree]
    (Attribute.inner inner) members)

/-- A trait or an alias of a trait, after its attributes. -/
def traitItem (g : Grammar) : Parser (OtherKind × List Attribute × Tree) := do
  let visibility ← visibility
  let unsafety ← word? "unsafe"
  let auto ← if ← seesWord "auto" then word? "auto" else pure none
  let _ ← word "trait"
  let name ← identifier
  let generics ← genericParameters g
  let head := visibility.tree ++ unsafety.toList ++ auto.toList ++ [.word "trait", .word name]
  let plain := unsafety.isNone && auto.isNone
  if plain && (← seesOperator "=") then
    let _ ← operator "="
    let bounds ← boundsUntil g [.word "where", .operator ";"]
    let full ← withWhere g generics
    let _ ← operator ";"
    return (.unspecified, [], .seq [
      .constrained (head ++ generics.paramsTree) (.operator "=" :: bounds) full.whereTree,
      .operator ";"])
  if plain && !(← peekAny [.group .brace, .operator ":", .word "where"]) then
    failExpecting [.group .brace, .operator ":", .word "where", .operator "="]
  let (inner, tree) ← traitBody g head generics
  return (.traitDeclaration, inner, tree)

/-- A member of a foreign block. One that says that it is safe, one with a body or a value and a type
with bounds are kept as they were written. -/
def foreignMember (g : Grammar) : Parser Tree := do
  let before := (← get).rest
  let attributes ← outerAttributes g
  let start ← get
  let visibility ← visibility
  let marked := (← seesWord "unsafe") || (← seesWord "safe")
  if ← beginsSignature true then
    let safe ← if ← seesWord "safe" then word? "safe" else pure none
    let signature ← signature g
    if ← peek (.group .brace) then
      let _ ← braced g g.statements
      readSince before
    else
      let sign ← operator ";"
      if safe.isSome then readSince before
      else return .seq (Attribute.outer attributes ++ visibility.tree ++ [signature.tree, sign])
  else if (← seesWord "static") || (marked && (← peek2 (.word "static"))) then
    if marked then
      let _ ← anyWord
    let _ ← word "static"
    let mutable ← word? "mut"
    let name ← identifier
    let _ ← operator ":"
    let type ← g.type
    let hasValue ← seesOperator "="
    if hasValue then
      let _ ← operator "="
      let _ ← g.expression
    let sign ← operator ";"
    if marked || hasValue then readSince before
    else return .seq (Attribute.outer attributes ++ visibility.tree ++ .word "static"
      :: (mutable.toList ++ [.word name, .operator ":", type, sign]))
  else if ← seesWord "type" then
    set start
    let declared ← typeAlias g false .either
    if declared.isBounded || declared.hasValue then readSince before
    else return .seq (Attribute.outer attributes ++ [declared.tree])
  else if visibility.isInherited && (← peekAny macroBeginnings) then
    return .seq (Attribute.outer attributes ++ [← memberMacro])
  else
    failExpecting ([.word "fn", .word "static", .word "type"]
      ++ (if visibility.isInherited then macroBeginnings else []))

/-- A block of foreign declarations after its attributes. -/
def foreignBlock (g : Grammar) : Parser (List Attribute × Tree) := do
  let unsafety ← word? "unsafe"
  let abi ← convention
  let (inner, members) ← braced g (untilEnd (foreignMember g))
  return (inner, .seq (unsafety.toList
    ++ [abi, .group .brace (Attribute.inner inner ++ members)]))

/-- What may begin a tree of imports. -/
def importBeginnings : List Expectation :=
  [.identifier, .word "self", .word "super", .word "crate", .word "try", .operator "*",
    .group .brace]

/-- The trees of imports in braces, at most so many. The flag tells of a path from the root of all
crates. -/
def importList (g : Grammar) (rooted : Bool) : Nat → Parser (List Tree × Bool)
  | 0 => return ([], false)
  | count + 1 => do
    if ← atEnd then return ([], false)
    let root ← if rooted then operator? "::" else pure none
    let tree ← g.imports (rooted && root.isNone)
    let odd := root.isSome || tree.isNone
    if ← atEnd then return (tree.toList, odd)
    let comma ← operator ","
    let (more, moreOdd) ← importList g rooted count
    return (tree.toList ++ comma :: more, odd || moreOdd)

/-- A tree of imports. -/
def importsOf (g : Grammar) (rooted : Bool) : Parser (Option Tree) := do
  if ← peekAny [.identifier, .word "self", .word "super", .word "crate", .word "try"] then
    let name ← anyWord
    if ← seesOperator "::" then
      let colons ← operator "::"
      let rest ← g.imports false
      return rest.map fun tree => .seq [.word name, colons, tree]
    else if ← seesWord "as" then
      let sign ← word "as"
      let other ←
        if ← peek .identifier then identifier
        else if ← seesWord "_" then anyWord
        else fail (.expected [.phrase "identifier or underscore"])
      return some (.seq [.word name, sign, .word other])
    else return some (.word name)
  else if ← seesOperator "*" then return some (← operator "*")
  else if ← peek (.group .brace) then
    let (trees, odd) ← grouped .brace do
      importList g rooted ((← get).rest.length + 1)
    return if odd then none else some (.group .brace trees)
  else failExpecting importBeginnings

/-- An import after its attributes; one that names the root of all crates inside braces gives
nothing. -/
def useItem (g : Grammar) : Parser (Option Tree) := do
  let visibility ← visibility
  let _ ← word "use"
  let colons ← operator? "::"
  let tree ← g.imports colons.isNone
  let _ ← operator ";"
  return tree.map fun tree =>
    .seq (visibility.tree ++ .word "use" :: (colons.toList ++ [tree, .operator ";"]))

/-- The import of a whole crate after its attributes. -/
def externCrate : Parser Tree := do
  let visibility ← visibility
  let sign ← word "extern"
  let «crate» ← word "crate"
  let name ← if ← seesWord "self" then anyWord else identifier
  let rename ←
    if ← seesWord "as" then
      let as ← word "as"
      pure [as, Tree.word (← if ← seesWord "_" then anyWord else identifier)]
    else pure []
  return .seq (visibility.tree ++ [sign, «crate», .word name] ++ rename ++ [← operator ";"])

/-- A module after its attributes. -/
def moduleItem (g : Grammar) (attributes : List Attribute) : Parser Item := do
  let visibility ← visibility
  let unsafety ← word? "unsafe"
  let _ ← word "mod"
  let name ← if ← seesWord "try" then anyWord else identifier
  let before := visibility.tree ++ unsafety.toList
  if ← seesOperator ";" then
    let _ ← operator ";"
    return .module attributes before name none
  else if ← peek (.group .brace) then
    let (inner, items) ← braced g (untilEnd g.item)
    return .module (attributes ++ inner) before name (some items)
  else failExpecting [.operator ";", .group .brace]

/-- The invocation of a macro as a declaration, after its attributes. -/
def macroItem : Parser Tree := do
  let name ← plainPath
  let bang ← operator "!"
  let defined ←
    if ← seesWord "try" then pure [Tree.word (← anyWord)]
    else if ← peek .identifier then pure [Tree.word (← identifier)]
    else pure []
  let (delimiter, body) ← anyGroup
  let tree := Tree.seq (name.tree :: bang :: (defined ++ [body]))
  if delimiter = .brace then return tree else return .seq [tree, ← operator ";"]

/-- The definition of a macro by its own word, after its visibility. -/
def macroDefinition : Parser Unit := do
  let _ ← word "macro"
  let _ ← identifier
  let listed ← peek (.group .parenthesis)
  if listed then
    let _ ← grouped .parenthesis remaining
  if ← peek (.group .brace) then
    let _ ← grouped .brace remaining
  else
    failExpecting (if listed then [.group .brace] else [.group .parenthesis, .group .brace])

/-- A static variable after its attributes; one without a type or a value gives nothing. -/
def staticItem (g : Grammar) : Parser (Option Tree) := do
  let visibility ← visibility
  let _ ← word "static"
  let mutable ← word? "mut"
  let name ← identifier
  if ← seesOperator "=" then
    let _ ← operator "="
    let _ ← g.expression
    let _ ← operator ";"
    return none
  let _ ← operator ":"
  let type ← g.type
  if ← seesOperator ";" then
    let _ ← operator ";"
    return none
  let _ ← operator "="
  let value ← g.expression
  let _ ← operator ";"
  return some (.seq (visibility.tree ++ .word "static" :: (mutable.toList
    ++ [.word name, .operator ":", type, .operator "=", value, .operator ";"])))

/-- What may begin a declaration, in the order of the messages. A macro is invoked only without a
visibility before it. -/
def itemBeginnings (inherited : Bool) : List Expectation :=
  [.word "fn", .word "extern", .word "use", .word "static", .word "const", .word "unsafe",
    .word "mod", .word "type", .word "struct", .word "enum", .word "union", .word "trait",
    .word "auto", .word "impl", .word "default", .word "macro"]
    ++ (if inherited then macroBeginnings else [])

/-- A declaration. -/
def itemOf (g : Grammar) : Parser Item := do
  let before := (← get).rest
  let attributes ← outerAttributes g
  let outer := Attribute.outer attributes
  let start ← get
  let visibility ← visibility
  let ahead ← get
  let plain (kind : OtherKind) (p : Parser Tree) : Parser Item := do
    set start
    return .other kind attributes (.seq (outer ++ [← p]))
  let orSource (kind : OtherKind) (p : Parser (Option Tree)) : Parser Item := do
    set start
    match ← p with
    | some tree => return .other kind attributes (.seq (outer ++ [tree]))
    | none => return .other .unspecified [] (← readSince before)
  let withInner (p : Parser (OtherKind × List Attribute × Tree)) : Parser Item := do
    set start
    let (kind, inner, tree) ← p
    return .other kind (attributes ++ inner) (.seq (outer ++ [tree]))
  let implementation : Parser Item := do
    set start
    match ← implItem g attributes with
    | some found => return .implementation found
    | none => return .other .unspecified [] (← readSince before)
  if ← beginsSignature false then
    set start
    match ← method? g attributes with
    | some method => return .other .function method.attributes method.tree
    | none => return .other .unspecified [] (← readSince before)
  else if ← seesWord "extern" then
    let _ ← word "extern"
    if ← seesWord "crate" then plain .unspecified externCrate
    else if ← peek (.group .brace) then
      withInner do return (.unspecified, ← foreignBlock g)
    else if ← peek .stringLiteral then
      let _ ← stringLiteral
      if ← peek (.group .brace) then withInner do return (.unspecified, ← foreignBlock g)
      else failExpecting [.group .brace]
    else failExpecting [.word "crate", .group .brace, .stringLiteral]
  else if ← seesWord "use" then orSource .unspecified (useItem g)
  else if ← seesWord "static" then orSource .static (staticItem g)
  else if ← seesWord "const" then
    orSource .constant do
      let visibility ← Grammar.visibility
      let _ ← word "const"
      let (tree, generic, valueless) ← constantBody g
      return if generic || valueless then none else some (.seq (visibility.tree ++ [tree]))
  else if ← seesWord "unsafe" then
    let _ ← word "unsafe"
    if (← seesWord "trait") || ((← seesWord "auto") && (← peek2 (.word "trait"))) then
      withInner (traitItem g)
    else if ← seesWord "impl" then implementation
    else if ← seesWord "extern" then
      withInner do return (.unspecified, ← foreignBlock g)
    else if ← seesWord "mod" then
      set start
      moduleItem g attributes
    else failExpecting [.word "trait", .word "auto", .word "impl", .word "extern", .word "mod"]
  else if ← seesWord "mod" then
    set start
    moduleItem g attributes
  else if ← seesWord "type" then
    orSource .typeAlias do
      let declared ← typeAlias g false .beforeValue
      return if declared.isBounded || !declared.hasValue then none else some declared.tree
  else if ← seesWord "struct" then
    set start
    return .struct (← structItem g attributes)
  else if ← seesWord "enum" then plain .enumeration (enumeration g)
  else if (← seesWord "union") && (← peek2 .identifier) then plain .union (unionItem g)
  else if (← seesWord "trait") || ((← seesWord "auto") && (← peek2 (.word "trait"))) then
    withInner (traitItem g)
  else if (← seesWord "impl") || ((← seesWord "default") && !(← peek2 (.operator "!"))) then
    implementation
  else if ← seesWord "macro" then
    macroDefinition
    return .other .unspecified [] (← readSince before)
  else if visibility.isInherited && (← peekAny macroBeginnings) then plain .unspecified macroItem
  else
    set ahead
    failExpecting (itemBeginnings visibility.isInherited)

end Forwarding.Grammar
