import Forwarding.Proofs.LegibleReading
/-!
Legible paths, types and generic parameters. Below a grammar whose notions give legible trees from
legible lexemes, their readers do.
-/

set_option mvcgen.warning false

open Std.Do

namespace Forwarding

namespace Attribute

/-- Attributes whose trees can be told from their text. -/
def AreLegible (attributes : List Attribute) : Prop :=
  ∀ a ∈ attributes, a.tree.IsLegible

@[simp]
theorem areLegible_append {before after : List Attribute} :
    AreLegible (before ++ after) ↔ AreLegible before ∧ AreLegible after :=
  List.forall_mem_append

theorem AreLegible.outer {attributes : List Attribute} (legible : AreLegible attributes) :
    Tree.AreLegible (Attribute.outer attributes) := by
  rw [Tree.areLegible_iff, Attribute.outer, List.forall_mem_map]
  exact fun a member => legible a (List.mem_filter.mp member).1

/-- A tree behind the attributes that stand before it. -/
theorem AreLegible.isLegible_seq {attributes : List Attribute} (legible : AreLegible attributes)
    {tree : Tree} (told : tree.IsLegible) :
    (Tree.seq (Attribute.outer attributes ++ [tree])).IsLegible :=
  .inr (Tree.areLegible_append.mpr ⟨legible.outer, told, trivial⟩)

theorem AreLegible.inner {attributes : List Attribute} (legible : AreLegible attributes) :
    Tree.AreLegible (Attribute.inner attributes) := by
  rw [Tree.areLegible_iff, Attribute.inner, List.forall_mem_map]
  exact fun a member => legible a (List.mem_filter.mp member).1

end Attribute

/-- Whether what follows the path of an attribute can be told from its text. -/
def AttributeBody.IsLegible : AttributeBody → Prop
  | nothing => True
  | list _ body _ => Token.IsLegible (Lexeme.tokensOf body)
  | value _ expression => expression.IsLegible

theorem Tree.areLegible_names {names : List String} (named : ∀ name ∈ names, Lexer.IsName name) :
    Tree.AreLegible (names.map fun name => .segment name []) := by
  simpa [Tree.areLegible_iff] using named

theorem Attribute.isLegible_tree {a : Attribute} (named : ∀ name ∈ a.names, Lexer.IsName name)
    (inside : a.body.IsLegible) : a.tree.IsLegible := by
  have names := Tree.areLegible_names named
  obtain ⟨start, isInner, isGlobal, names, pathStart, body⟩ := a
  cases body with
  | nothing => cases isInner <;> simp_all [tree, sign, Attribute.path]
  | list delimiter body stop =>
    have inside := Tree.isLegible_ofTokens inside
    cases isInner <;> simp_all [tree, sign, Attribute.path]
  | value sign expression =>
    have inside : expression.IsLegible := inside
    cases isInner <;> simp_all [tree, Attribute.sign, Attribute.path]

/-- The words that are printed of flags. -/
@[simp]
theorem isName_words :
    Lexer.IsName "pub" ∧ Lexer.IsName "in" ∧ Lexer.IsName "_" ∧ Lexer.IsName "const" ∧
      Lexer.IsName "async" ∧ Lexer.IsName "unsafe" ∧ Lexer.IsName "fn" ∧ Lexer.IsName "default" ∧
      Lexer.IsName "where" ∧ Lexer.IsName "struct" ∧ Lexer.IsName "impl" ∧ Lexer.IsName "for" ∧
      Lexer.IsName "mod" := by
  decide +kernel

theorem Tree.areLegible_lifetimes {names : List String} (named : ∀ name ∈ names, Lexer.IsName name) :
    Tree.AreLegible (names.map Tree.lifetime) := by
  simpa [Tree.areLegible_iff] using named

theorem Tree.areLegible_flatMap {α : Type} {f : α → List Tree} {items : List α}
    (each : ∀ item ∈ items, Tree.AreLegible (f item)) : Tree.AreLegible (items.flatMap f) := by
  simp only [Tree.areLegible_iff, List.mem_flatMap] at each ⊢
  rintro tree ⟨item, member, inside⟩
  exact each item member tree inside

theorem areLegible_sumTree {bounds : List Tree} {trailing : Bool} (each : Tree.AreLegible bounds) :
    Tree.AreLegible (sumTree bounds trailing) := by
  have between : Tree.AreLegible (Tree.separated (.operator "+") bounds) :=
    Tree.areLegible_separated (by simp) each
  cases trailing <;> cases bounds <;> simp_all [sumTree]

namespace GenericParameter

theorem areLegible_defaultTree {byDefault : Option Tree}
    (value : ∀ tree, byDefault = some tree → tree.IsLegible) :
    Tree.AreLegible (defaultTree byDefault) := by
  cases byDefault <;> simp_all [defaultTree]

variable {attributes : List Attribute} {name : String} {trailing : Bool}

theorem isLegible_lifetime {bounds : List String} (before : Attribute.AreLegible attributes)
    (named : Lexer.IsName name) (each : ∀ b ∈ bounds, Lexer.IsName b) :
    (lifetime attributes name bounds trailing).tree.IsLegible := by
  have sum : Tree.AreLegible (sumTree (bounds.map Tree.lifetime) trailing) :=
    areLegible_sumTree (Tree.areLegible_lifetimes each)
  cases bounds <;> simp_all [tree, before.outer]

theorem isLegible_type {bounds : List Tree} {byDefault : Option Tree}
    (before : Attribute.AreLegible attributes) (named : Lexer.IsName name)
    (each : Tree.AreLegible bounds) (value : ∀ tree, byDefault = some tree → tree.IsLegible) :
    (type attributes name bounds trailing byDefault).tree.IsLegible := by
  have sum : Tree.AreLegible (sumTree bounds trailing) := areLegible_sumTree each
  cases bounds <;> simp_all [tree, before.outer, areLegible_defaultTree]

theorem isLegible_const {declared : Tree} {byDefault : Option Tree}
    (before : Attribute.AreLegible attributes) (named : Lexer.IsName name)
    (typed : declared.IsLegible) (value : ∀ tree, byDefault = some tree → tree.IsLegible) :
    (const attributes name declared byDefault).tree.IsLegible := by
  simp_all [tree, before.outer, areLegible_defaultTree]

end GenericParameter

namespace WherePredicate

variable {trailing : Bool}

theorem isLegible_lifetime {name : String} {bounds : List String} (named : Lexer.IsName name)
    (each : ∀ b ∈ bounds, Lexer.IsName b) : (lifetime name bounds trailing).tree.IsLegible := by
  have sum : Tree.AreLegible (sumTree (bounds.map Tree.lifetime) trailing) :=
    areLegible_sumTree (Tree.areLegible_lifetimes each)
  simp_all [tree]

theorem isLegible_type {binder : Option Tree} {bounded : Tree} {bounds : List Tree}
    (before : ∀ tree, binder = some tree → tree.IsLegible) (typed : bounded.IsLegible)
    (each : Tree.AreLegible bounds) : (type binder bounded bounds trailing).tree.IsLegible := by
  have sum : Tree.AreLegible (sumTree bounds trailing) := areLegible_sumTree each
  simp_all [tree]

end WherePredicate

namespace Generics

/-- Whether parameters and their where clause can be told from their text. -/
structure IsLegible (g : Generics) : Prop where
  params : ∀ p ∈ g.params, p.tree.IsLegible
  predicates : ∀ p ∈ g.predicates, p.tree.IsLegible

theorem isLegible_iff {g : Generics} :
    g.IsLegible ↔ (∀ p ∈ g.params, p.tree.IsLegible) ∧ ∀ p ∈ g.predicates, p.tree.IsLegible :=
  ⟨fun ⟨params, predicates⟩ => ⟨params, predicates⟩, fun ⟨params, predicates⟩ => ⟨params, predicates⟩⟩

theorem IsLegible.paramsTree {g : Generics} (legible : g.IsLegible) : Tree.AreLegible g.paramsTree := by
  have comma (needed : Bool) : Tree.AreLegible (if needed then [.operator ","] else []) := by
    cases needed <;> simp
  have put : ∀ item ∈ g.params.mapIdx fun i p =>
      (p.isLifetime, p.tree, g.trailing || decide (i + 1 < g.params.length)),
      Tree.AreLegible (item.2.1 :: if item.2.2 = true then [.operator ","] else []) := by
    intro item member
    obtain ⟨i, inside, rfl⟩ := List.mem_mapIdx.mp member
    exact Tree.areLegible_cons.mpr ⟨legible.params _ (List.getElem_mem inside), comma _⟩
  unfold Generics.paramsTree
  split
  · trivial
  refine Tree.areLegible_cons.mpr ⟨by simp, ?_⟩
  simp only [Tree.areLegible_append]
  exact ⟨⟨⟨Tree.areLegible_flatMap fun item member => put item (List.mem_filter.mp member).1, comma _⟩,
    Tree.areLegible_flatMap fun item member => put item (List.mem_filter.mp member).1⟩, by simp⟩

theorem IsLegible.whereTree {g : Generics} (legible : g.IsLegible) : Tree.AreLegible g.whereTree := by
  have each : Tree.AreLegible (g.predicates.map WherePredicate.tree) := by
    rw [Tree.areLegible_iff, List.forall_mem_map]
    exact legible.predicates
  have between : Tree.AreLegible (Tree.separated (.operator ",")
      (g.predicates.map WherePredicate.tree)) := Tree.areLegible_separated (by simp) each
  unfold Generics.whereTree
  split
  · trivial
  · split <;> simp_all

end Generics

namespace Grammar

/-- What can be told from the text of a notion. -/
def Nonterminal.IsLegible : (n : Nonterminal) → n.Result → Prop
  | type _, tree => tree.IsLegible
  | bound _ _, found => found.tree.IsLegible
  | expression _, found => found.tree.IsLegible
  | operand _, found => found.tree.IsLegible
  | standalone, found => found.tree.IsLegible
  | pattern, found => found.tree.IsLegible
  | statements, trees => Tree.AreLegible trees
  | item, found => found.tree.IsLegible
  | imports _, found => Tree.AreLegible found.toList

/-- A grammar whose notions give legible trees. -/
class Legible (g : Grammar) : Prop where
  yields [Telling] (n : Nonterminal) : Yields (g.parse n) n.IsLegible

namespace Legibly

open Forwarding.Grammar.Parser
open Lexer (IsName)

attribute [local spec high] yields_word yields_operator yields_lifetime yields_anyWord
  yields_identifier yields_literal yields_stringLiteral yields_anyGroup yields_word?
  yields_operator? yields_lifetime?

variable [Telling] {g : Grammar} [Legible g]

instance Legible.steady : Steady g :=
  ⟨fun n => keeps_of_yields (Legible.yields n)⟩

theorem yields_type : Yields g.type Tree.IsLegible :=
  Legible.yields (.type true)

theorem yields_typeWithoutPlus : Yields g.typeWithoutPlus Tree.IsLegible :=
  Legible.yields (.type false)

theorem yields_typeBound {captures constant : Bool} :
    Yields (g.typeBound captures constant) fun found => found.tree.IsLegible :=
  Legible.yields (.bound captures constant)

theorem yields_bound : Yields g.bound Tree.IsLegible := by
  have read := Legible.yields (g := g) (.bound false true)
  unfold Grammar.bound
  mvcgen [read]

theorem yields_expressionWith {braces : Bool} :
    Yields (g.expressionWith braces) fun found => found.tree.IsLegible :=
  Legible.yields (.expression braces)

theorem yields_expression : Yields g.expression Tree.IsLegible := by
  have read : Yields (g.expressionWith true) fun found => found.tree.IsLegible :=
    yields_expressionWith
  unfold Grammar.expression
  mvcgen [read]

theorem yields_statements : Yields g.statements Tree.AreLegible :=
  Legible.yields .statements

attribute [local spec high] yields_type yields_typeWithoutPlus yields_typeBound yields_bound
  yields_expressionWith yields_expression yields_statements

omit [Legible g] in
theorem yields_plainNamesUpTo {count : Nat} :
    Yields (plainNamesUpTo count) fun found => ∀ name ∈ found.1, IsName name := by
  induction count with
  | zero =>
    unfold plainNamesUpTo
    mvcgen
  | succ count ih =>
    unfold plainNamesUpTo
    mvcgen [ih] <;> first | with_reducible exact And.left ‹_› | simp_all

omit [Legible g] in
theorem yields_plainPath :
    Yields plainPath fun found => (∀ name ∈ found.names, IsName name) ∧ found.tree.IsLegible := by
  unfold plainPath
  mvcgen [yields_plainNamesUpTo] <;>
    first | with_reducible exact And.left ‹_› | simp_all [PlainPath.tree, Tree.areLegible_names]

theorem yields_attributeBody : Yields (attributeBody g) AttributeBody.IsLegible := by
  unfold attributeBody
  mvcgen
  · rename_i known _ _ _ _ _ ahead
    exact Invariant.drop_group known ahead
  · rename_i known _ _ _ _ _ ahead _ _ later
    exact ⟨later, (ahead ▸ Telling.legible known).of_group.1.isLegible⟩
  all_goals simp_all

omit [Legible g] in
theorem yields_bracketed {p : Parser Attribute}
    (inside : ∀ inst : Telling, @Yields _ inst.toInvariant p fun found => found.tree.IsLegible) :
    Yields (grouped .bracket p) fun found => found.tree.IsLegible :=
  yields_grouped inside

attribute [local spec high] yields_plainPath yields_attributeBody yields_bracketed

theorem yields_readAttribute {isInner : Bool} :
    Yields (readAttribute g isInner) fun found => found.tree.IsLegible := by
  unfold readAttribute
  mvcgen <;> first | with_reducible exact And.left ‹_› | simp_all [Attribute.isLegible_tree]

omit [Legible g] in
theorem yields_attributes {step : Parser (Option Attribute)}
    (yields : Yields step fun found => ∀ a, found = some a → a.tree.IsLegible) :
    Yields (repeated step) Attribute.AreLegible :=
  yields_repeated (Yields.mono yields fun _ each a member => each a member)

attribute [local spec high] yields_readAttribute yields_attributes

theorem yields_outerAttributes : Yields (outerAttributes g) Attribute.AreLegible := by
  unfold outerAttributes
  mvcgen <;> first | with_reducible exact And.left ‹_› | simp_all

theorem yields_innerAttributes : Yields (innerAttributes g) Attribute.AreLegible := by
  unfold innerAttributes
  mvcgen <;> first | with_reducible exact And.left ‹_› | simp_all

attribute [local spec high] yields_outerAttributes yields_innerAttributes

theorem yields_braced {α : Type} {kind : α → Prop} {p : Parser α}
    (yields : ∀ inst : Telling, @Yields α inst.toInvariant p kind) :
    Yields (braced g p) fun found => Attribute.AreLegible found.1 ∧ kind found.2 := by
  unfold braced
  refine yields_grouped fun inst => ?_
  have inside := yields inst
  mvcgen [inside] <;> first | with_reducible exact And.left ‹_› | simp_all

theorem yields_blockAfter {head : List Tree} (before : Tree.AreLegible head) :
    Yields (blockAfter g head) Tree.IsLegible := by
  have inside : Yields (braced g g.statements) fun found =>
    Attribute.AreLegible found.1 ∧ Tree.AreLegible found.2 := yields_braced fun _ => yields_statements
  unfold blockAfter
  mvcgen [inside]
  simp_all [Attribute.AreLegible.inner]

theorem yields_block : Yields (block g) Tree.IsLegible :=
  yields_blockAfter trivial

omit [Legible g] in
theorem yields_restricted :
    Yields visibility.restricted fun found => Tree.AreLegible found.tree := by
  refine yields_grouped fun inst => ?_
  mvcgen <;> first | with_reducible exact And.left ‹_› | simp_all [Visibility.tree]

attribute [local spec high] yields_restricted

omit [Legible g] in
theorem yields_visibility : Yields visibility fun found => Tree.AreLegible found.tree := by
  unfold visibility
  mvcgen
  · rename_i known _ _ _ _ ahead _ _ _ _
    exact Invariant.drop_group known.1 ahead
  · rename_i known _ _ _ _ ahead _ _ inside _ _ _ later
    have within := (ahead ▸ Telling.legible known.1).of_group.1
    rw [inside] at within
    exact ⟨later, by simpa [Visibility.tree] using isName_of_leaf within⟩
  all_goals simp_all [Visibility.tree]

attribute [local spec high] yields_visibility yields_block yields_groupedTree yields_trees
  yields_punctuated yields_sum yields_commaList

theorem yields_constArgument : Yields (constArgument g) Tree.IsLegible := by
  unfold constArgument
  mvcgen
  simp_all

theorem yields_binder : Yields (binder g) Tree.IsLegible := by
  unfold binder
  mvcgen <;> first
    | with_reducible exact And.left ‹_›
    | simp_all [areLegible_join, Attribute.AreLegible.outer]

attribute [local spec high] yields_constArgument yields_binder

theorem yields_binder? : Yields (binder? g) fun found => Tree.AreLegible found.toList := by
  unfold binder?
  mvcgen
  simp_all

omit [Legible g] in
theorem yields_captured {count : Nat} :
    Yields (capture.items count) fun found => Tree.AreLegible found.1 := by
  induction count with
  | zero =>
    unfold capture.items
    mvcgen
  | succ count ih =>
    unfold capture.items
    mvcgen [ih] <;> first | with_reducible exact And.left ‹_› | simp_all

omit [Legible g] in
theorem yields_capture : Yields capture Tree.IsLegible := by
  unfold capture
  mvcgen [yields_captured] <;> first | with_reducible exact And.left ‹_› | simp_all

theorem yields_genericArgument : Yields (genericArgument g) Tree.IsLegible := by
  unfold genericArgument
  mvcgen <;> first | with_reducible exact And.left ‹_› | simp_all [areLegible_join]

attribute [local spec high] yields_binder? yields_capture yields_genericArgument

theorem yields_genericArguments : Yields (genericArguments g) Tree.IsLegible := by
  unfold genericArguments
  mvcgen <;> first | with_reducible exact And.left ‹_› | simp_all

attribute [local spec high] yields_genericArguments

theorem yields_segment {inExpression : Bool} : Yields (segment g inExpression) Tree.IsLegible := by
  unfold segment
  mvcgen <;> first | with_reducible exact And.left ‹_› | simp_all

attribute [local spec high] yields_segment

theorem yields_path {inExpression : Bool} : Yields (path g inExpression) Tree.IsLegible := by
  unfold path moreSegments
  mvcgen <;> first | with_reducible exact And.left ‹_› | simp_all

theorem yields_segmentsUpTo {inExpression : Bool} {count : Nat} :
    Yields (segmentsUpTo g inExpression count) Tree.AreLegible := by
  induction count with
  | zero =>
    unfold segmentsUpTo
    mvcgen
  | succ count ih =>
    unfold segmentsUpTo
    mvcgen [ih] <;> first | with_reducible exact And.left ‹_› | simp_all

attribute [local spec high] yields_path yields_segmentsUpTo

theorem yields_qualifiedPath {inExpression : Bool} :
    Yields (qualifiedPath g inExpression) Tree.IsLegible := by
  unfold qualifiedPath
  mvcgen <;> first | with_reducible exact And.left ‹_› | simp_all

theorem yields_output? {plus : Bool} :
    Yields (output? g plus) fun found => Tree.AreLegible (outputTree found) := by
  unfold output?
  mvcgen <;> first | with_reducible exact And.left ‹_› | simp_all [outputTree]

attribute [local spec high] yields_qualifiedPath yields_output?

theorem yields_parenthesizedArguments : Yields (parenthesizedArguments g) Tree.AreLegible := by
  unfold parenthesizedArguments
  mvcgen <;> first | with_reducible exact And.left ‹_› | simp_all

attribute [local spec high] yields_parenthesizedArguments

omit [Telling] [Legible g] in
theorem areLegible_getLast? {trees : List Tree} {last : Tree} (found : trees.getLast? = some last) :
    Tree.AreLegible trees ↔ Tree.AreLegible trees.dropLast ∧ last.IsLegible := by
  obtain ⟨before, rfl⟩ := List.getLast?_eq_some_iff.mp found
  simp

theorem yields_traitBound {constant : Bool} :
    Yields (traitBound g constant) fun found => found.1.IsLegible := by
  unfold traitBound
  refine yields_binder?.bind fun before bound => keeps_place.bind fun start =>
    keeps_seesOperator.bind fun _ => keeps_seesWord.bind fun _ => ?_
  extract_lets -underBinder modified
  refine .join modified (fun _ => True) (fun later => ?_) fun mode _ => ?_
  · exact .ite (fun _ => yields_operator.bind fun _ _ => yields_word.bind fun _ _ =>
        (yields_pure trivial).bind later)
      fun _ => .ite (fun _ => yields_word.bind fun _ _ => (yields_pure trivial).bind later)
        fun _ => (yields_pure trivial).bind later
  unfold modified
  extract_lets -underBinder allowed
  refine .join allowed (fun _ => True) (fun later => ?_) fun _ _ => ?_
  · cases mode with
    | none => exact later () trivial
    | some mode => exact .ite (fun _ => yields_failAt.bind later) fun _ => later () trivial
  refine keeps_place.bind fun question => yields_operator?.bind fun maybe questioned =>
    .either yields_binder? (yields_pure trivial) fun between _ => ?_
  refine yields_path.bind fun name named => ?_
  extract_lets -underBinder completed
  refine .join completed Tree.IsLegible (fun later => ?_) fun name named => ?_
  · have bare := (yields_pure named).bind later
    split
    · split
      · rename_i isGlobal segments _ last args found
        obtain ⟨earlier, ends⟩ := (areLegible_getLast? found).mp named
        refine keeps_seesParenthesized.choose (yields_operator?.bind fun _ _ =>
          yields_parenthesizedArguments.bind fun inputs given => (yields_pure ?_).bind later) bare
        exact Tree.areLegible_append.mpr ⟨earlier, ⟨ends.1, given⟩, trivial⟩
      · exact bare
    · exact bare
  have whole : (Tree.seq (maybe.toList ++ before.toList ++ [name])).IsLegible := by
    simp [questioned, bound, named]
  exact .ite (fun _ => yields_failAt.bind fun _ (_ : True) => yields_pure whole)
    fun _ => yields_pure whole

theorem yields_traits {constant : Bool} {delimiter : Delimiter} :
    Yields (grouped delimiter (traitBound g constant)) fun found => found.1.IsLegible :=
  yields_grouped fun _ => yields_traitBound

attribute [local spec high] yields_traitBound yields_traits

theorem yields_boundOf {captures constant : Bool} :
    Yields (boundOf g captures constant) fun found => found.tree.IsLegible := by
  unfold boundOf
  mvcgen <;> first
    | with_reducible exact And.left ‹_›
    | simp_all +zetaDelta [Telling.piece, Tree.isLegible_ofTokens]

/-- The trees of some bounds can be told from their text. -/
theorem yields_typeBoundsUpTo {plus captures constant : Bool} {count : Nat} :
    Yields (typeBoundsUpTo g plus captures constant count) fun found =>
      Tree.AreLegible (found.1.map Bound.tree) := by
  induction count with
  | zero =>
    unfold typeBoundsUpTo
    mvcgen
  | succ count ih =>
    unfold typeBoundsUpTo
    mvcgen [beginsBound, ih] <;> first | with_reducible exact And.left ‹_› | simp_all

theorem yields_typeBounds {plus captures constant : Bool} :
    Yields (typeBounds g plus captures constant) fun found =>
      Tree.AreLegible (found.1.map Bound.tree) := by
  unfold typeBounds
  mvcgen [yields_typeBoundsUpTo]

omit [Legible g] in
theorem yields_invocation {name : Tree} (named : name.IsLegible) :
    Yields (invocation name) fun found => found.2.IsLegible := by
  unfold invocation
  mvcgen <;> first | with_reducible exact And.left ‹_› | simp_all

attribute [local spec high] yields_typeBounds yields_invocation

theorem yields_moreObjectBounds {first : Tree} (before : first.IsLegible) :
    Yields (moreObjectBounds g first) Tree.IsLegible := by
  unfold moreObjectBounds
  mvcgen <;> first | with_reducible exact And.left ‹_› | simp_all [areLegible_join]

attribute [local spec high] yields_moreObjectBounds

theorem yields_parenthesizedContent :
    Yields (parenthesizedType.content g) fun found => Tree.AreLegible found.1 := by
  unfold parenthesizedType.content
  mvcgen <;> first | with_reducible exact And.left ‹_› | simp_all

theorem yields_parenthesizedContents {delimiter : Delimiter} :
    Yields (grouped delimiter (parenthesizedType.content g)) fun found => Tree.AreLegible found.1 :=
  yields_grouped fun _ => yields_parenthesizedContent

theorem yields_parenthesizedType {plus : Bool} :
    Yields (parenthesizedType g plus) Tree.IsLegible := by
  unfold parenthesizedType
  mvcgen [yields_parenthesizedContents] <;>
    first | with_reducible exact And.left ‹_› | simp_all +zetaDelta

theorem yields_bracketedType : Yields (bracketedType g) Tree.IsLegible := by
  unfold bracketedType
  mvcgen <;> first | with_reducible exact And.left ‹_› | simp_all

omit [Legible g] in
theorem yields_convention : Yields convention Tree.IsLegible := by
  unfold convention
  mvcgen <;> first | with_reducible exact And.left ‹_› | simp_all

attribute [local spec high] yields_convention

omit [Legible g] in
theorem yields_convention? : Yields convention? fun found => Tree.AreLegible found.toList := by
  unfold convention?
  mvcgen
  simp_all

attribute [local spec high] yields_parenthesizedType yields_bracketedType yields_convention?
  yields_verbatim

theorem yields_functionTypeParameter {first : Bool} :
    Yields (functionTypeParameter g first) Tree.AreLegible := by
  unfold functionTypeParameter
  mvcgen [functionTypeParameter.mutableReceiver] <;>
    first | with_reducible exact And.left ‹_› | simp_all

attribute [local spec high] yields_functionTypeParameter

theorem yields_functionTypeParameters {first : Bool} {count : Nat} :
    Yields (functionTypeParameters g first count) Tree.AreLegible := by
  induction count generalizing first with
  | zero =>
    unfold functionTypeParameters
    mvcgen
  | succ count ih =>
    unfold functionTypeParameters
    mvcgen [ih] <;>
      first | with_reducible exact And.left ‹_› | simp_all +zetaDelta [Attribute.AreLegible.outer]

attribute [local spec high] yields_functionTypeParameters

theorem yields_functionType : Yields (functionType g) Tree.AreLegible := by
  unfold functionType
  mvcgen <;> first | with_reducible exact And.left ‹_› | simp_all

theorem yields_pathBoundsUpTo {count : Nat} :
    Yields (pathType.boundsUpTo g count) fun found => Tree.AreLegible found.1 := by
  induction count with
  | zero =>
    unfold pathType.boundsUpTo
    mvcgen
  | succ count ih =>
    unfold pathType.boundsUpTo
    mvcgen [ih] <;> first | with_reducible exact And.left ‹_› | simp_all

theorem yields_sumAfter {first : Tree} (before : first.IsLegible) :
    Yields (pathType.sumAfter g first) Tree.IsLegible := by
  unfold pathType.sumAfter
  mvcgen [yields_pathBoundsUpTo] <;>
    first | with_reducible exact And.left ‹_› | simp_all [areLegible_join]

attribute [local spec high] yields_functionType yields_sumAfter

theorem yields_pathType {plus : Bool} {binder : Option Tree}
    (before : Tree.AreLegible binder.toList) : Yields (pathType g plus binder) Tree.IsLegible := by
  unfold pathType
  cases binder <;> mvcgen <;> first | with_reducible exact And.left ‹_› | simp_all +zetaDelta

theorem yields_objectBounds {plus : Bool} {start : Position} :
    Yields (objectBounds g plus start) Tree.AreLegible := by
  unfold objectBounds
  mvcgen
  simp_all [areLegible_join]

attribute [local spec high] yields_pathType yields_objectBounds

theorem yields_typeOf {plus : Bool} : Yields (typeOf g plus) Tree.IsLegible := by
  unfold typeOf
  refine keeps_place.bind fun start => yields_binder?.bind fun binder bound => ?_
  extract_lets -underBinder checked
  refine .join checked (fun _ => True) (fun later => ?_) fun _ _ => ?_
  · exact .ite (fun _ => keeps_peekAny.bind fun _ =>
      keeps_seesWord.choose (yields_failExpecting.bind later) (later () trivial))
      fun _ => later () trivial
  unfold checked
  mvcgen <;>
    first
      | with_reducible exact And.left ‹_›
      | simp_all +zetaDelta [Telling.piece, Tree.isLegible_ofTokens, areLegible_join]

section Parameters

variable {stop : Parser Bool} {attributes : List Attribute}

omit [Legible g] in
theorem yields_lifetimeBounds (stops : Keeps stop) :
    Yields (lifetimeBounds stop) fun found => ∀ name ∈ found.1, IsName name :=
  Parser.yields_sum stops yields_lifetime

attribute [local spec high] yields_lifetimeBounds

theorem yields_lifetimeParameter (before : Attribute.AreLegible attributes) :
    Yields (lifetimeParameter g attributes) fun found => found.tree.IsLegible := by
  unfold lifetimeParameter
  mvcgen <;>
    first | with_reducible exact And.left ‹_› | simp_all [GenericParameter.isLegible_lifetime]

theorem yields_typeParameter (before : Attribute.AreLegible attributes) :
    Yields (typeParameter g attributes) fun found => found.tree.IsLegible := by
  unfold typeParameter
  mvcgen <;> first | with_reducible exact And.left ‹_› | simp_all [GenericParameter.isLegible_type]

theorem yields_constParameter (before : Attribute.AreLegible attributes) :
    Yields (constParameter g attributes) fun found => found.tree.IsLegible := by
  unfold constParameter
  mvcgen <;> first | with_reducible exact And.left ‹_› | simp_all [GenericParameter.isLegible_const]

attribute [local spec high] yields_lifetimeParameter yields_typeParameter yields_constParameter

theorem yields_listedParameter :
    Yields (listedParameter g) fun found => found.tree.IsLegible := by
  unfold listedParameter
  mvcgen <;> first | with_reducible exact And.left ‹_› | simp_all [GenericParameter.isLegible_type]

theorem yields_listedParameters {stop : Parser Bool} (stops : Keeps stop) :
    Yields (punctuated "," stop (listedParameter g)) fun found => ∀ p ∈ found.1, p.tree.IsLegible :=
  Parser.yields_punctuated stops yields_listedParameter

theorem yields_genericParameters : Yields (genericParameters g) Generics.IsLegible := by
  unfold genericParameters
  mvcgen [yields_listedParameters] <;>
    first | with_reducible exact And.left ‹_› | simp_all [Generics.isLegible_iff, Generics.none]

theorem yields_wherePredicate : Yields (wherePredicate g) fun found => found.tree.IsLegible := by
  unfold wherePredicate
  mvcgen <;> first
    | with_reducible exact And.left ‹_›
    | simp_all [WherePredicate.isLegible_lifetime, WherePredicate.isLegible_type]

attribute [local spec high] yields_wherePredicate

theorem yields_predicatesUpTo {count : Nat} :
    Yields (predicatesUpTo g count) fun found => ∀ p ∈ found.1, p.tree.IsLegible := by
  induction count with
  | zero =>
    unfold predicatesUpTo
    mvcgen
    simp_all
  | succ count ih =>
    unfold predicatesUpTo
    mvcgen [ih] <;> first | with_reducible exact And.left ‹_› | simp_all

attribute [local spec high] yields_predicatesUpTo

theorem yields_withWhere {generics : Generics} (before : generics.IsLegible) :
    Yields (withWhere g generics) Generics.IsLegible := by
  unfold withWhere
  mvcgen <;> first | with_reducible exact And.left ‹_› | simp_all [Generics.isLegible_iff]

end Parameters

end Legibly

end Grammar

end Forwarding
