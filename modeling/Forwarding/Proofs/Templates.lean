import Forwarding.Proofs.PassingBlocks
/-!
What the parts of an artifact are printed as. Each part is a struct or an impl block around the
fragments of the winner.
-/

namespace Forwarding

namespace ForwardingType

open Grammar.Parser

section Lists

theorem tokensOf_listed (trees : List Tree) :
    Tree.tokensOf (listed trees) = Token.separated "," false (trees.map Tree.tokens) := by
  have joined := Tree.tokensOf_join "," trees false
  rwa [join, Bool.false_and, if_neg Bool.false_ne_true, List.append_nil] at joined

theorem tokensOf_angled (trees : List Tree) :
    Tree.tokensOf (angled trees) = angledTokens (trees.map Tree.tokens) := by
  rw [angled, angledTokens, List.isEmpty_map]
  split
  · rfl
  · rw [Tree.tokensOf, Tree.tokensOf_append, tokensOf_listed]
    rfl

theorem tokensOf_whereClause (t : ForwardingType) :
    Tree.tokensOf t.whereClause = whereTokens (t.predicates.map Tree.tokens) := by
  rw [whereClause, whereTokens, List.isEmpty_map]
  split
  · rfl
  · rw [Tree.tokensOf, tokensOf_listed]
    rfl

end Lists

variable (t : ForwardingType)

/-- The tokens of the type of the winner. -/
def innerTokens : List Token :=
  Tree.tokensOf t.inner

/-- The constructor as printed. -/
def printedConstructor : PrintedFunction where
  visible := true
  name := t.constructor
  params := Token.separated "," false (t.params.map fun p => parameterTokens p.1 p.2.tokens)
  output := [.ident "Self"]
  body := literalTokens t.innerTokens t.constructor (t.params.map (·.1))

/-- A function that gives a reference into the winner, as printed. -/
def printedReference (visible mutable : Bool) (name : String) (target : List Token)
    (fields : List String) : PrintedFunction where
  visible
  name
  params := receiverTokens (some mutable)
  output := referenceTokens mutable target
  body := referenceTokens mutable (chainTokens fields)

/-- The two accessors of a property as printed. -/
def printedAccessors (name : String) (type : List Token) : List PrintedFunction :=
  [printedReference true false name type ["inner", name],
    printedReference true true (unraw name ++ "_mut") type ["inner", name]]

/-- The function that gives the winner back, as printed. -/
def printedUnwrapping : PrintedFunction where
  visible := true
  name := "into_inner"
  params := receiverTokens none
  output := t.innerTokens
  body := chainTokens ["inner"]

/-- The functions of the inherent block as printed. -/
def printedFunctions : List PrintedFunction :=
  t.printedConstructor
    :: (t.properties.flatMap fun p => printedAccessors p.1 p.2.tokens) ++ [t.printedUnwrapping]

theorem tokensOf_params :
    Tree.tokensOf
        (listed (t.params.map fun p => Tree.seq [Tree.word p.1, Tree.operator ":", p.2])) =
      t.printedConstructor.params := by
  rw [tokensOf_listed, List.map_map]
  refine congrArg (Token.separated "," false) (List.map_congr_left fun p _ => ?_)
  simp [Tree.tokens, Tree.tokensOf, Tree.word, Tree.tokens_operator, parameterTokens]
  rfl

theorem tokensOf_names (names : List String) :
    Tree.tokensOf (listed (names.map Tree.word)) =
      Token.separated "," false (names.map fun name => [.ident name]) := by
  rw [tokensOf_listed, List.map_map]
  rfl

theorem tokensOf_function (name : String) (params output inner : List Tree) :
    Tree.tokensOf (function name params output ++ [braced inner]) =
      functionTokens name (Tree.tokensOf params)
        (Tree.tokensOf output ++ bodyTokens (Tree.tokensOf inner)) := by
  simp [function, braced, parenthesized, Tree.tokensOf_append, Tree.tokensOf, Tree.tokens,
    Tree.word, Tree.tokens_operator, functionTokens, bodyTokens]

/-- The body of the constructor. -/
theorem tokensOf_literal (names : List String) :
    Tree.tokensOf [Tree.word "Self", braced ([Tree.word "inner", Tree.operator ":"]
        ++ (Tree.operator "<" :: t.inner ++ [Tree.operator ">", Tree.operator "::",
          Tree.word t.constructor, parenthesized (listed (names.map Tree.word))])
        ++ [Tree.operator ","])] = literalTokens t.innerTokens t.constructor names := by
  simp only [braced, parenthesized, Tree.tokensOf_append, Tree.tokensOf, Tree.tokens,
    Tree.tokens_operator, tokensOf_names, literalTokens, callTokens, List.cons_append,
    List.append_assoc]
  rfl

theorem tokensOf_constructorFunction :
    Tree.tokensOf t.constructorFunction = t.printedConstructor.tokens := by
  have arguments : t.params.map (fun p => Tree.word p.1) = (t.params.map (·.1)).map Tree.word := by
    rw [List.map_map]
    rfl
  have own : Tree.tokensOf t.constructorFunction = .ident "pub" :: Tree.tokensOf
      (function t.constructor (listed (t.params.map fun p => .seq [.word p.1, .operator ":", p.2]))
        [Tree.word "Self"] ++ [braced [Tree.word "Self", braced ([Tree.word "inner",
          Tree.operator ":"] ++ (Tree.operator "<" :: t.inner ++ [Tree.operator ">",
            Tree.operator "::", Tree.word t.constructor,
            parenthesized (listed (t.params.map fun p => .word p.1))])
          ++ [Tree.operator ","])]]) := rfl
  rw [own, tokensOf_function, tokensOf_params, arguments, tokensOf_literal]
  rfl

theorem tokensOf_accessors (name : String) (type : Tree) :
    Tree.tokensOf (accessors name type) =
      ((printedAccessors name type.tokens).map PrintedFunction.tokens).flatten := by
  simp [accessors, function, wrapped, braced, parenthesized, Tree.tokensOf, Tree.tokens,
    Tree.tokens_operator, Tree.word, printedAccessors, printedReference, PrintedFunction.tokens,
    functionTokens, bodyTokens, referenceTokens, chainTokens, receiverTokens, fieldTokens]
  rfl

theorem tokensOf_unwrapping : Tree.tokensOf t.unwrapping = t.printedUnwrapping.tokens := by
  have own : Tree.tokensOf t.unwrapping = .ident "pub" :: Tree.tokensOf
      (function "into_inner" [Tree.word "self"] t.inner ++ [braced wrapped]) := rfl
  rw [own, tokensOf_function]
  rfl

/-- The members of the inherent block. -/
theorem tokensOf_functions :
    Tree.tokensOf (t.constructorFunction
        ++ t.properties.flatMap (fun p => accessors p.1 p.2) ++ t.unwrapping) =
      (t.printedFunctions.map PrintedFunction.tokens).flatten := by
  have each : Tree.tokensOf (t.properties.flatMap fun p => accessors p.1 p.2) =
      ((t.properties.flatMap fun p => printedAccessors p.1 p.2.tokens).map
        PrintedFunction.tokens).flatten := by
    induction t.properties with
    | nil => rfl
    | cons p others ih =>
      rw [List.flatMap_cons, List.flatMap_cons, Tree.tokensOf_append, ih, tokensOf_accessors,
        List.map_append, List.flatten_append]
  rw [Tree.tokensOf_append, Tree.tokensOf_append, each, tokensOf_constructorFunction,
    tokensOf_unwrapping]
  simp [printedFunctions]

/-- The tokens of a line of documentation. -/
def documentedTokens (line : String) : List Token :=
  attributeTokens "doc" [.punct '=' false, .literal (Text.quoteLiteral line)]

/-- The tokens of an attribute that allows what its arguments name. -/
def allowTokens (inner : List Token) : List Token :=
  attributeTokens "allow" (callTokens inner)

/-- The attributes of the struct as printed. -/
def structAttributes (documentation : List String) : List (List Token) :=
  documentation.map documentedTokens ++ [allowTokens [.ident "dead_code"]]

/-- The attributes of the inherent block as printed. -/
def inherentAttributes : List (List Token) :=
  [allowTokens (.ident "dead_code" :: .punct ',' false :: .ident "clippy" ::
    (Token.operator "::" ++ [.ident "new_without_default"]))]

/-- The tokens of the declared generic parameters. -/
def declaredTokens : List (List Token) :=
  t.declared.map Tree.tokens

/-- The tokens of the predicates. -/
def predicateTokens : List (List Token) :=
  t.predicates.map Tree.tokens

/-- The tokens of the forwarding type itself. -/
def selfTokens : List Token :=
  .ident t.name :: angledTokens (t.arguments.map Tree.tokens)

theorem tokensOf_documentation (documentation : List String) :
    Tree.tokensOf (documentation.flatMap documented) =
      (documentation.map documentedTokens).flatten := by
  induction documentation with
  | nil => rfl
  | cons line rest ih =>
    rw [List.flatMap_cons, Tree.tokensOf_append, ih, tokensOf_documented]
    rfl

/-- The tokens of the struct after its attributes. -/
def declarationTokens : List Token :=
  structTokens t.name t.declaredTokens t.predicateTokens "inner" t.innerTokens

theorem tokensOf_struct (documentation : List String) :
    Tree.tokensOf (t.declaration documentation) =
      (structAttributes documentation).flatten ++ t.declarationTokens := by
  simp only [declaration, braced, Tree.tokensOf_append, Tree.tokensOf, Tree.tokens,
    tokensOf_documentation, tokensOf_angled, tokensOf_whereClause, structAttributes,
    declarationTokens, structTokens, bodyTokens,
    parameterTokens, List.flatten_append, List.append_assoc, List.append_nil,
    List.cons_append]
  rfl

/-- An impl block of the forwarding type; what stands before the type is a trait, if anything. -/
theorem tokensOf_block (head : List Tree) {members : List Tree} {parts : List (List Token)}
    (same : Tree.tokensOf members = parts.flatten) :
    Tree.tokensOf ([Tree.word "impl"] ++ angled t.declared ++ head ++ t.self ++ t.whereClause
        ++ [braced members]) =
      .ident "impl" :: (angledTokens t.declaredTokens ++ (Tree.tokensOf head ++ t.selfTokens
        ++ (whereTokens t.predicateTokens ++ bodyTokens parts.flatten))) := by
  simp only [self, braced, Tree.tokensOf_append, Tree.tokensOf, Tree.tokens, tokensOf_angled,
    tokensOf_whereClause, same, List.append_assoc, List.append_nil]
  rfl

/-- The tokens of the inherent block after its attributes. -/
def inherentTokens : List Token :=
  implTokens t.declaredTokens none t.selfTokens t.predicateTokens
    (t.printedFunctions.map PrintedFunction.tokens)

theorem tokensOf_inherent :
    Tree.tokensOf t.inherent = inherentAttributes.flatten ++ t.inherentTokens := by
  have block := t.tokensOf_block [] t.tokensOf_functions
  have split : t.inherent = marked [Tree.word "allow", parenthesized [Tree.word "dead_code",
        Tree.operator ",", Tree.word "clippy", Tree.operator "::",
        Tree.word "new_without_default"]] ++ ([Tree.word "impl"] ++ angled t.declared ++ []
      ++ t.self ++ t.whereClause ++ [braced (t.constructorFunction
        ++ t.properties.flatMap (fun p => accessors p.1 p.2) ++ t.unwrapping)]) := by
    simp only [inherent, List.append_assoc, List.nil_append]
  rw [split, Tree.tokensOf_append, block]
  rfl

/-- The tokens of a trait of dereferencing. -/
def traitTokens (name : String) : List Token :=
  Token.operator "::" ++ .ident "core" :: (Token.operator "::" ++ .ident "ops" ::
    (Token.operator "::" ++ [.ident name]))

/-- The tokens of the type that dereferencing gives. -/
def targetTokens : List Token :=
  .ident "Self" :: (Token.operator "::" ++ [.ident "Target"])

/-- A function of a trait of dereferencing as printed. -/
def printedDereference (mutable : Bool) : PrintedFunction :=
  printedReference false mutable (if mutable then "deref_mut" else "deref") targetTokens ["inner"]

/-- The tokens of a block of dereferencing with some members. -/
def dereferenceTokens (name : String) (members : List (List Token)) : List Token :=
  implTokens t.declaredTokens (some (traitTokens name)) t.selfTokens t.predicateTokens members

theorem tokensOf_dereferenceBlock (name : String) {members : List Tree}
    {parts : List (List Token)} (same : Tree.tokensOf members = parts.flatten) :
    Tree.tokensOf (t.dereferenceBlock name members) = t.dereferenceTokens name parts :=
  t.tokensOf_block _ same

/-- The two blocks of dereferencing. -/
theorem tokensOf_dereferencing :
    Tree.tokensOf t.dereferencing =
      t.dereferenceTokens "Deref"
          [aliasTokens "Target" t.innerTokens, (printedDereference false).tokens]
        ++ t.dereferenceTokens "DerefMut" [(printedDereference true).tokens] := by
  have reading : Tree.tokensOf ([Tree.word "type", Tree.word "Target", Tree.operator "="] ++ t.inner
      ++ [Tree.operator ";"] ++ function "deref" [Tree.operator "&", Tree.word "self"]
        [Tree.operator "&", Tree.word "Self", Tree.operator "::", Tree.word "Target"]
      ++ [braced (Tree.operator "&" :: wrapped)]) =
      [aliasTokens "Target" t.innerTokens, (printedDereference false).tokens].flatten := by
    have first : Tree.tokensOf ([Tree.word "type", Tree.word "Target", Tree.operator "="]
        ++ t.inner ++ [Tree.operator ";"]) = aliasTokens "Target" t.innerTokens := by
      rw [List.append_assoc, Tree.tokensOf_append, Tree.tokensOf_append]
      rfl
    rw [List.append_assoc, Tree.tokensOf_append, tokensOf_function, first, List.flatten_cons]
    rfl
  have changing : Tree.tokensOf (function "deref_mut"
        [Tree.operator "&", Tree.word "mut", Tree.word "self"] [Tree.operator "&", Tree.word "mut",
          Tree.word "Self", Tree.operator "::", Tree.word "Target"]
      ++ [braced ([Tree.operator "&", Tree.word "mut"] ++ wrapped)]) =
      [(printedDereference true).tokens].flatten := by
    rw [tokensOf_function]
    rfl
  rw [dereferencing, Tree.tokensOf_append]
  exact congrArg₂ _ (t.tokensOf_dereferenceBlock "Deref" reading)
    (t.tokensOf_dereferenceBlock "DerefMut" changing)

end ForwardingType

section Lexable

open Token Grammar.Parser Lexer

variable {tokens rest : List Token} {parts : List (List Token)}

theorem Token.IsLexable.symbol {symbol : Char} (listed : symbol ∈ operatorSymbols)
    (more : IsLexable rest) : IsLexable (punct symbol false :: rest) :=
  ⟨.operator (.tail _ listed) more.printable, more.matched.leaf rfl⟩

theorem Token.IsLexable.listed (each : ∀ part ∈ parts, IsLexable part) :
    IsLexable (Token.separated "," false parts) :=
  .separated false (.operator "," (by decide)) each

theorem isLexable_angledTokens (each : ∀ part ∈ parts, IsLexable part) :
    IsLexable (angledTokens parts) := by
  rw [angledTokens]
  split
  · exact .nil
  · exact .symbol (by decide) ((IsLexable.listed each).append
      (.symbol (by decide) .nil))

theorem isLexable_whereTokens (each : ∀ part ∈ parts, IsLexable part) :
    IsLexable (whereTokens parts) := by
  rw [whereTokens]
  split
  · exact .nil
  · exact .word (by decide) (.listed each)

theorem isLexable_parameterTokens {name : String} (named : IsName name) (type : IsLexable tokens) :
    IsLexable (parameterTokens name tokens) :=
  .word named (.symbol (by decide) type)

theorem isLexable_referenceTokens (mutable : Bool) (lexable : IsLexable tokens) :
    IsLexable (referenceTokens mutable tokens) := by
  refine .symbol (by decide) ?_
  cases mutable with
  | true => exact .word (by decide) lexable
  | false => exact lexable

theorem isLexable_receiverTokens (reference : Option Bool) :
    IsLexable (receiverTokens reference) := by
  have own : IsLexable [Token.ident "self"] := .word (by decide) .nil
  cases reference with
  | none => exact own
  | some mutable => exact isLexable_referenceTokens mutable own

theorem isLexable_flatten (each : ∀ part ∈ parts, IsLexable part) : IsLexable parts.flatten := by
  induction parts with
  | nil => exact .nil
  | cons part parts ih =>
    rw [List.flatten_cons]
    exact (each part List.mem_cons_self).append
      (ih fun p member => each p (List.mem_cons_of_mem _ member))

theorem isLexable_chainTokens {names : List String} (named : ∀ name ∈ names, IsName name) :
    IsLexable (chainTokens names) := by
  refine .word (by decide) (isLexable_flatten ?_)
  rw [List.forall_mem_map]
  exact fun name member => .symbol (by decide) (.word (named name member) .nil)

theorem isLexable_literalTokens {constructor : String} {names : List String}
    (inner : IsLexable tokens) (called : IsName constructor)
    (named : ∀ name ∈ names, IsName name) :
    IsLexable (literalTokens tokens constructor names) := by
  have arguments : IsLexable (Token.separated "," false (names.map fun name => [.ident name])) := by
    refine .listed ?_
    rw [List.forall_mem_map]
    exact fun name member => .word (named name member) .nil
  refine .word (by decide)
    (.group .brace (.word (by decide) (.symbol (by decide) ?_)))
  refine (IsLexable.symbol (by decide) (inner.append (.symbol (by decide) ?_))).append
    (.symbol (by decide) .nil)
  exact (IsLexable.operator "::" (by decide)).append (.word called (.group .parenthesis arguments))

theorem isLexable_attributeTokens {name : String} (named : IsName name) (body : IsLexable tokens) :
    IsLexable (attributeTokens name tokens) :=
  .symbol (by decide) (.group .bracket (.word named body))

theorem isLexable_structTokens {name field : String} {declared predicates : List (List Token)}
    (named : IsName name) (named' : IsName field) (declares : ∀ part ∈ declared, IsLexable part)
    (requires : ∀ part ∈ predicates, IsLexable part) (type : IsLexable tokens) :
    IsLexable (structTokens name declared predicates field tokens) :=
  .word (by decide) (.word (by decide) (.word named
    ((isLexable_angledTokens declares).append ((isLexable_whereTokens requires).append
      (.group .brace ((isLexable_parameterTokens named' type).append
        (.symbol (by decide) .nil)))))))

theorem isLexable_implTokens {declared predicates members : List (List Token)}
    {trait? : Option (List Token)} {self : List Token}
    (declares : ∀ part ∈ declared, IsLexable part) (trait : ∀ trait ∈ trait?, IsLexable trait)
    (own : IsLexable self) (requires : ∀ part ∈ predicates, IsLexable part)
    (holds : ∀ part ∈ members, IsLexable part) :
    IsLexable (implTokens declared trait? self predicates members) := by
  have head : IsLexable ((trait?.map (· ++ [Token.ident "for"])).getD []) := by
    cases trait? with
    | none => exact .nil
    | some tokens => exact (trait tokens rfl).append (.word (by decide) .nil)
  exact .word (by decide) ((isLexable_angledTokens declares).append
    ((head.append own).append ((isLexable_whereTokens requires).append
      (.group .brace (isLexable_flatten holds)))))

theorem isLexable_aliasTokens {name : String} (named : IsName name) (type : IsLexable tokens) :
    IsLexable (aliasTokens name tokens) :=
  .word (by decide) (.word named (.symbol (by decide)
    (type.append (.symbol (by decide) .nil))))

open ForwardingType in
theorem isLexable_traitTokens {name : String} (named : IsName name) :
    IsLexable (traitTokens name) := by
  have colons : IsLexable (Token.operator "::") := .operator "::" (by decide)
  exact colons.append (.word (by decide) (colons.append (.word (by decide)
    (colons.append (.word named .nil)))))

open ForwardingType in
theorem isLexable_documentedTokens (line : String) : IsLexable (documentedTokens line) := by
  refine isLexable_attributeTokens (by decide) (.symbol (by decide) ⟨?_, .leaf rfl .nil⟩)
  exact .literal (isLiteral_quoteLiteral line) .nil

open ForwardingType in
theorem isLexable_allowTokens (inner : IsLexable tokens) : IsLexable (allowTokens tokens) :=
  isLexable_attributeTokens (by decide) (.group .parenthesis inner)

end Lexable

section Attributes

open Grammar Grammar.Parser

namespace ForwardingType

theorem isAttribute_documentedTokens (g : Grammar) (line : String) :
    IsAttribute g (documentedTokens line) where
  lexable := isLexable_documentedTokens line
  begins := ⟨_, rfl⟩
  read _ := passes_readAttribute rfl rfl (.leaf rfl (.leaf rfl .nil)) (passes_attributeBody_value _)

theorem isAttribute_allowTokens (g : Grammar) {inner : List Token}
    (lexable : Token.IsLexable inner) : IsAttribute g (allowTokens inner) where
  lexable := isLexable_allowTokens lexable
  begins := ⟨_, rfl⟩
  read _ := passes_readAttribute rfl rfl (.group _ lexable.matched .nil)
    (passes_attributeBody_list lexable.matched)

theorem isAttribute_structAttributes (g : Grammar) (documentation : List String) :
    ∀ part ∈ structAttributes documentation, IsAttribute g part := by
  rw [structAttributes, List.forall_mem_append, List.forall_mem_map, List.forall_mem_singleton]
  exact ⟨fun line _ => isAttribute_documentedTokens g line,
    isAttribute_allowTokens g (.word (by decide) .nil)⟩

theorem isAttribute_inherentAttributes (g : Grammar) :
    ∀ part ∈ inherentAttributes, IsAttribute g part := by
  rw [inherentAttributes, List.forall_mem_singleton]
  exact isAttribute_allowTokens g (.word (by decide) (.symbol (by decide)
    (.word (by decide) ((Token.IsLexable.operator "::" (by decide)).append
      (.word (by decide) .nil)))))

end ForwardingType

end Attributes

end Forwarding
