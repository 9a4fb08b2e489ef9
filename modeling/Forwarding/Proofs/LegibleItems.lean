import Forwarding.Proofs.LegibleExpressions
/-!
Legible fields, functions, structs and aliases.
-/

set_option mvcgen.warning false

open Std.Do

namespace Forwarding

open Lexer (IsName)

theorem Tree.areLegible_listed {trees : List Tree} {trailing : Bool} (each : AreLegible trees) :
    AreLegible (separated (.operator ",") trees
      ++ (if trailing && !trees.isEmpty then [.operator ","] else [])) := by
  have between : AreLegible (separated (.operator ",") trees) :=
    areLegible_separated (by simp) each
  cases trailing <;> cases trees <;> simp_all

theorem Tree.areLegible_ite {condition : Prop} [Decidable condition] {trees others : List Tree} :
    AreLegible (if condition then trees else others) ↔
      (condition → AreLegible trees) ∧ (¬ condition → AreLegible others) := by
  split <;> simp_all

theorem Field.isLegible_tree {f : Field} (before : Attribute.AreLegible f.attributes)
    (seen : Tree.AreLegible f.visibility.tree) (named : ∀ name ∈ f.name, IsName name)
    (typed : f.type.IsLegible) : f.tree.IsLegible := by
  obtain ⟨attributes, visibility, name, type⟩ := f
  cases name <;> simp_all [tree, before.outer]

namespace Fields

theorem areLegible_listed {fields : List Field} {trailing : Bool}
    (each : ∀ f ∈ fields, f.tree.IsLegible) : Tree.AreLegible (listed fields trailing) := by
  have trees : Tree.AreLegible (fields.map Field.tree) :=
    Tree.areLegible_iff.mpr (List.forall_mem_map.mpr each)
  have whole : Tree.AreLegible (Tree.separated (.operator ",") (fields.map Field.tree)
      ++ (if trailing && !(fields.map Field.tree).isEmpty then [.operator ","] else [])) :=
    Tree.areLegible_listed trees
  simpa [listed] using whole

end Fields

theorem StructItem.isLegible_tree {s : StructItem} (before : Attribute.AreLegible s.attributes)
    (seen : Tree.AreLegible s.visibility.tree) (named : IsName s.name)
    (constrained : s.generics.IsLegible) (inside : Tree.AreLegible (Grammar.fieldsTree s.fields)) :
    s.tree.IsLegible := by
  have params := constrained.paramsTree
  have clause := constrained.whereTree
  obtain ⟨attributes, visibility, name, nameStart, generics, fields⟩ := s
  cases fields <;> simp_all [tree, before.outer, Grammar.fieldsTree]

theorem Signature.isLegible_tree {s : Signature} (abi : Tree.AreLegible s.convention.toList)
    (named : IsName s.name) (constrained : s.generics.IsLegible)
    (each : Tree.AreLegible (s.params.map Parameter.tree))
    (last : Tree.AreLegible s.variadic.toList) (output : Tree.AreLegible (Grammar.outputTree s.output)) :
    s.tree.IsLegible := by
  have params := constrained.paramsTree
  have clause := constrained.whereTree
  have between : Tree.AreLegible (Tree.separated (.operator ",")
      (s.params.map Parameter.tree)) := Tree.areLegible_separated (by simp) each
  have flag (given : Bool) (text : String) (named : IsName text) :
      Tree.AreLegible (if given then [.word text] else []) := by
    cases given <;> simp [named]
  unfold tree
  simp only [Tree.IsLegible, Tree.areLegible_append, Tree.areLegible_cons, Tree.isLegible_word]
  refine ⟨⟨⟨⟨⟨⟨?_, ?_⟩, ?_⟩, abi⟩, ?_, named, trivial⟩, params⟩, ⟨⟨between, ?_⟩, output⟩, clause⟩
  · exact flag _ _ (by decide)
  · exact flag _ _ (by decide)
  · exact flag _ _ (by decide)
  · decide
  · cases variadic : s.variadic with
    | some dots =>
      have dots : dots.IsLegible := by simpa [variadic] using last
      cases s.params <;> simp [dots]
    | none => cases s.params <;> cases s.trailing <;> simp

theorem Method.isLegible_tree {m : Method} (before : Attribute.AreLegible m.attributes)
    (seen : Tree.AreLegible m.visibility.tree) (signed : m.signature.tree.IsLegible)
    (body : Tree.AreLegible m.body) : m.tree.IsLegible := by
  obtain ⟨attributes, visibility, isDefault, signature, statements⟩ := m
  cases isDefault <;> simp_all [tree, before.outer, before.inner]

theorem ImplItem.isLegible_tree {i : ImplItem} (before : Attribute.AreLegible i.attributes)
    (constrained : i.generics.IsLegible) (subject : Tree.AreLegible i.ofTrait.toList)
    (typed : i.selfType.IsLegible) (each : ∀ member ∈ i.members, member.tree.IsLegible) :
    i.tree.IsLegible := by
  have members : Tree.AreLegible (i.members.map ImplMember.tree) :=
    Tree.areLegible_iff.mpr (List.forall_mem_map.mpr each)
  have params := constrained.paramsTree
  have clause := constrained.whereTree
  obtain ⟨attributes, isDefault, isUnsafe, generics, ofTrait, selfType, members⟩ := i
  cases isDefault <;> cases isUnsafe <;> cases ofTrait <;>
    simp_all [tree, before.outer, before.inner]

theorem Item.isLegible_module {attributes : List Attribute} {visible : List Tree} {name : String}
    {content : Option (List Item)} (before : Attribute.AreLegible attributes)
    (seen : Tree.AreLegible visible) (named : IsName name)
    (each : ∀ items, content = some items → ∀ item ∈ items, item.tree.IsLegible) :
    (Item.module attributes visible name content).tree.IsLegible := by
  have trees (items : List Item) : treesOf items = items.map tree := by
    induction items with
    | nil => rfl
    | cons item rest ih => rw [treesOf, ih, List.map_cons]
  cases content with
  | none => simp_all [tree, before.outer]
  | some items =>
    have inside : Tree.AreLegible (items.map tree) :=
      Tree.areLegible_iff.mpr (List.forall_mem_map.mpr (each items rfl))
    simp_all [tree, before.outer, before.inner]

/-- Whether a parameter can be told from its text. -/
def Grammar.ParameterOrDots.IsLegible : ParameterOrDots → Prop
  | parameter param _ => param.tree.IsLegible
  | dots tree => tree.IsLegible

namespace Grammar.Legibly

open Forwarding.Grammar.Parser

attribute [local spec high] yields_word yields_operator yields_lifetime yields_anyWord
  yields_identifier yields_literal yields_stringLiteral yields_anyGroup yields_word?
  yields_operator? yields_lifetime? yields_groupedTree yields_trees yields_punctuated yields_sum
  yields_commaList yields_verbatim

attribute [local spec high] yields_type yields_expression yields_statements yields_bound
  yields_pattern yields_itemTree yields_plainPath yields_outerAttributes yields_visibility
  yields_invocation yields_convention yields_convention? yields_output? yields_genericParameters
  yields_withWhere

variable [Telling] {g : Grammar} [Legible g] {attributes : List Attribute}

theorem yields_receiver : Yields (receiver g) Tree.IsLegible := by
  unfold receiver
  mvcgen <;> first | with_reducible exact And.left ‹_› | simp_all

theorem yields_attempt : Yields (attempt (receiver g)) fun found => Tree.AreLegible found.toList :=
  Yields.mono (Parser.yields_attempt yields_receiver) fun found each => by simp_all

attribute [local spec high] yields_attempt

theorem yields_parameterOrDots (before : Attribute.AreLegible attributes) :
    Yields (parameterOrDots g attributes) ParameterOrDots.IsLegible := by
  unfold parameterOrDots
  mvcgen <;> first
    | with_reducible exact And.left ‹_›
    | simp_all [ParameterOrDots.IsLegible, Parameter.tree, before.outer]

attribute [local spec high] yields_parameterOrDots

theorem yields_parametersUpTo {some? received : Bool} {count : Nat} :
    Yields (parametersUpTo g some? received count) fun found =>
      Tree.AreLegible (found.params.map Parameter.tree) ∧ Tree.AreLegible found.variadic.toList := by
  induction count generalizing some? received with
  | zero =>
    unfold parametersUpTo
    mvcgen
  | succ count ih =>
    unfold parametersUpTo
    mvcgen [ih] <;> first
      | with_reducible exact And.left ‹_›
      | simp_all [ParameterOrDots.IsLegible, Attribute.AreLegible.outer]

theorem yields_parameters {p : Parser Parameters}
    (yields : ∀ inst : Telling, @Yields _ inst.toInvariant p fun found =>
      Tree.AreLegible (found.params.map Parameter.tree) ∧ Tree.AreLegible found.variadic.toList) :
    Yields (grouped .parenthesis p) fun found =>
      Tree.AreLegible (found.params.map Parameter.tree) ∧ Tree.AreLegible found.variadic.toList :=
  yields_grouped yields

attribute [local spec high] yields_parametersUpTo yields_parameters

theorem yields_signature : Yields (signature g) fun found => found.tree.IsLegible := by
  unfold signature
  mvcgen <;> first | with_reducible exact And.left ‹_› | simp_all [Signature.isLegible_tree]

attribute [local spec high] yields_signature

theorem yields_namedField : Yields (namedField g) fun found => found.tree.IsLegible := by
  unfold namedField
  mvcgen <;> first | with_reducible exact And.left ‹_› | simp_all [Field.isLegible_tree]

theorem yields_positionalField : Yields (positionalField g) fun found => found.tree.IsLegible := by
  unfold positionalField
  mvcgen <;> first | with_reducible exact And.left ‹_› | simp_all [Field.isLegible_tree]

theorem yields_fields {delimiter : Delimiter} {p : Parser Field}
    (yields : ∀ inst : Telling, @Yields _ inst.toInvariant p fun found => found.tree.IsLegible) :
    Yields (grouped delimiter (punctuated "," atEnd p)) fun found =>
      ∀ f ∈ found.1, f.tree.IsLegible :=
  yields_grouped fun inst => Parser.yields_punctuated (by mvcgen [atEnd]) (yields inst)

attribute [local spec high] yields_namedField yields_positionalField yields_fields

theorem yields_namedFields :
    Yields (namedFields g) fun found => Tree.AreLegible (fieldsTree found) := by
  unfold namedFields
  mvcgen
  simp_all [fieldsTree, Fields.areLegible_listed]

theorem yields_positionalFields :
    Yields (positionalFields g) fun found => Tree.AreLegible (fieldsTree found) := by
  unfold positionalFields
  mvcgen
  simp_all [fieldsTree, Fields.areLegible_listed]

attribute [local spec high] yields_namedFields yields_positionalFields

theorem yields_structBody {generics : Generics} (before : generics.IsLegible) :
    Yields (structBody g generics) fun found =>
      found.1.IsLegible ∧ Tree.AreLegible (fieldsTree found.2) := by
  unfold structBody
  mvcgen <;> first | with_reducible exact And.left ‹_› | simp_all [fieldsTree]

attribute [local spec high] yields_structBody

theorem yields_structItem (before : Attribute.AreLegible attributes) :
    Yields (structItem g attributes) fun found => found.tree.IsLegible := by
  unfold structItem
  mvcgen <;> first | with_reducible exact And.left ‹_› | simp_all [StructItem.isLegible_tree]

omit [Legible g] in
theorem yields_memberMacro : Yields memberMacro Tree.IsLegible := by
  unfold memberMacro
  mvcgen <;> first | with_reducible exact And.left ‹_› | simp_all

theorem yields_boundsUntil {ends : List Expectation} :
    Yields (boundsUntil g ends) Tree.AreLegible := by
  unfold boundsUntil
  mvcgen
  simp_all [areLegible_join]

attribute [local spec high] yields_structItem yields_memberMacro yields_boundsUntil

theorem yields_variant : Yields (variant g) Tree.IsLegible := by
  unfold variant
  mvcgen <;> first
    | with_reducible exact And.left ‹_›
    | simp_all +zetaDelta [Attribute.AreLegible.outer, fieldsTree]

attribute [local spec high] yields_variant

theorem yields_enumeration : Yields (enumeration g) Tree.IsLegible := by
  unfold enumeration
  mvcgen <;> first
    | with_reducible exact And.left ‹_›
    | simp_all [Generics.IsLegible.paramsTree, Generics.IsLegible.whereTree]

theorem yields_unionItem : Yields (unionItem g) Tree.IsLegible := by
  unfold unionItem
  mvcgen <;> first
    | with_reducible exact And.left ‹_›
    | simp_all [Generics.IsLegible.paramsTree, Generics.IsLegible.whereTree]

omit [Legible g] in
theorem yields_constantName : Yields constantName IsName := by
  unfold constantName
  mvcgen

attribute [local spec high] yields_constantName

theorem yields_constantBody : Yields (constantBody g) fun found => found.1.IsLegible := by
  unfold constantBody
  mvcgen <;> first
    | with_reducible exact And.left ‹_›
    | simp_all [Generics.IsLegible.paramsTree, Generics.IsLegible.whereTree]

theorem yields_typeAlias {canDefault : Bool} {clause : ClausePlace} :
    Yields (typeAlias g canDefault clause) fun found => found.tree.IsLegible := by
  unfold typeAlias
  refine yields_visibility.bind fun visibility seen =>
    .either yields_word? (yields_pure trivial) fun byDefault flagged => ?_
  refine yields_word.bind fun _ ⟨_, word⟩ => yields_identifier.bind fun name named =>
    yields_genericParameters.bind fun generics constrained => yields_operator?.bind fun colon _ =>
      .either yields_boundsUntil (yields_pure trivial) fun bounds bounded => ?_
  refine .either (yields_pure constrained) (yields_withWhere constrained) fun early limited => ?_
  refine keeps_seesOperator.bind fun _ => ?_
  extract_lets -underBinder valued
  refine .join valued Tree.AreLegible (fun later => .ite (fun _ => ?_) fun _ =>
    (yields_pure trivial).bind later) fun value given => ?_
  · exact yields_operator.bind fun sign legible => yields_type.bind fun type typed =>
      (yields_pure ⟨legible, typed, trivial⟩).bind later
  refine .either (yields_withWhere limited) (yields_pure limited) fun full held =>
    yields_operator.bind fun _ _ => yields_pure ?_
  have head : Tree.AreLegible (visibility.tree ++ byDefault.toList ++ [.word "type", .word name]
      ++ generics.paramsTree) := by
    simp [seen, flagged, word, named, constrained.paramsTree]
  have bounded : Tree.AreLegible (if bounds.isEmpty then [] else .operator ":" :: bounds) := by
    split <;> simp [bounded]
  refine .inr (Tree.areLegible_append.mpr ⟨?_, by simp⟩)
  split
  · exact ⟨⟨head, Tree.areLegible_append.mpr ⟨bounded, given⟩, held.whereTree⟩, trivial⟩
  · exact ⟨⟨head, bounded, held.whereTree⟩, given⟩

attribute [local spec high] yields_enumeration yields_unionItem yields_constantBody yields_typeAlias

theorem yields_bodies :
    Yields (braced g g.statements) fun found =>
      Attribute.AreLegible found.1 ∧ Tree.AreLegible found.2 :=
  yields_braced fun _ => yields_statements

attribute [local spec high] yields_bodies

theorem yields_method? (before : Attribute.AreLegible attributes) :
    Yields (method? g attributes) fun found => ∀ method, found = some method →
      method.tree.IsLegible := by
  unfold method?
  mvcgen <;> first | with_reducible exact And.left ‹_› | simp_all [Method.isLegible_tree]

attribute [local spec high] yields_method?

omit [Legible g] in
theorem isLegible_since {before after : List Lexeme} (start : Invariant.Holds before)
    (stop : Invariant.Holds after) :
    (Tree.ofTokens (Lexeme.tokensOf (before.take (before.length - after.length)))).IsLegible :=
  Tree.isLegible_ofTokens (Telling.piece start stop)

theorem yields_readSince {before : List Lexeme} (known : Invariant.Holds before) :
    Yields (readSince before) Tree.IsLegible :=
  yields_get.bind fun _ later => yields_pure (isLegible_since known later)

theorem yields_implMember : Yields (implMember g) fun found => found.tree.IsLegible := by
  unfold implMember
  refine yields_get.bind fun i known => ?_
  extract_lets -underBinder before
  refine yields_outerAttributes.bind fun attributes above => yields_get.bind fun start here =>
    yields_visibility.bind fun visibility seen => keeps_get.bind fun _ => ?_
  extract_lets -underBinder first
  have source : Yields (do return ImplMember.other (← readSince before))
      fun found => found.tree.IsLegible :=
    (yields_readSince known).bind fun _ legible => yields_pure legible
  refine keeps_seesWord.bind fun _ => keeps_peek2.bind fun _ =>
    .either yields_word? (yields_pure trivial) fun byDefault flagged => ?_
  refine keeps_beginsSignature.choose ?function <| keeps_seesWord.choose ?constant <|
    keeps_seesWord.choose ?synonym <| keeps_peekAny.choose ?invocation <|
      keeps_get.bind fun _ => yields_fail
  case function =>
    refine (keeps_set here).bind fun _ => (yields_method? above).bind fun found legible => ?_
    cases found with
    | none => exact source
    | some method => exact yields_pure (legible method rfl)
  case constant =>
    refine keeps_word.bind fun _ => yields_constantBody.bind fun found legible => ?_
    obtain ⟨tree, generic, valueless⟩ := found
    refine .ite (fun _ => source) fun _ => yields_pure (.inr ?_)
    simp [above.outer, seen, flagged, legible]
  case synonym =>
    exact (keeps_set here).bind fun _ => yields_typeAlias.bind fun declared legible =>
      .ite (fun _ => source) fun _ => yields_pure (above.isLegible_seq legible)
  case invocation =>
    exact yields_memberMacro.bind fun _ legible => yields_pure (above.isLegible_seq legible)

end Grammar.Legibly

end Forwarding
