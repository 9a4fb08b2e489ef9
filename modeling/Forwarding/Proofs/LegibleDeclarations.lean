import Forwarding.Proofs.LegibleItems
/-!
Legible blocks, traits, imports and modules, and so the trees that the grammars of every depth give.
-/

set_option mvcgen.warning false

open Std.Do

namespace Forwarding

@[simp]
theorem Attribute.areLegible_nil : AreLegible [] :=
  nofun

@[simp]
theorem Generics.isLegible_none : Generics.none.IsLegible :=
  ⟨nofun, nofun⟩

namespace Grammar.Legibly

open Forwarding.Grammar.Parser
open Lexer (IsName)

attribute [local spec high] yields_word yields_operator yields_lifetime yields_anyWord
  yields_identifier yields_literal yields_stringLiteral yields_anyGroup yields_word?
  yields_operator? yields_lifetime? yields_groupedTree yields_trees yields_punctuated yields_sum
  yields_commaList yields_verbatim

attribute [local spec high] yields_type yields_expression yields_statements yields_bound
  yields_itemTree yields_plainPath yields_outerAttributes yields_innerAttributes yields_visibility
  yields_invocation yields_convention yields_genericParameters yields_withWhere yields_signature
  yields_memberMacro yields_boundsUntil yields_constantBody yields_typeAlias yields_bodies
  yields_method? yields_implMember yields_structItem yields_enumeration yields_unionItem

attribute [local spec] readSince

variable [Telling] {g : Grammar} [Legible g] {attributes : List Attribute}

theorem yields_members {p : Parser ImplMember}
    (yields : ∀ inst : Telling, @Yields _ inst.toInvariant p fun found => found.tree.IsLegible) :
    Yields (braced g (untilEnd p)) fun found =>
      Attribute.AreLegible found.1 ∧ ∀ member ∈ found.2, member.tree.IsLegible :=
  yields_braced fun inst => Parser.yields_untilEnd (yields inst)

theorem yields_declarations {p : Parser Tree}
    (yields : ∀ inst : Telling, @Yields _ inst.toInvariant p Tree.IsLegible) :
    Yields (braced g (untilEnd p)) fun found =>
      Attribute.AreLegible found.1 ∧ Tree.AreLegible found.2 :=
  yields_braced fun inst => yields_untilEnd (yields inst)

theorem yields_items {p : Parser Item}
    (yields : ∀ inst : Telling, @Yields _ inst.toInvariant p fun found => found.tree.IsLegible) :
    Yields (braced g (untilEnd p)) fun found =>
      Attribute.AreLegible found.1 ∧ ∀ item ∈ found.2, item.tree.IsLegible :=
  yields_braced fun inst => Parser.yields_untilEnd (yields inst)

attribute [local spec high] yields_members yields_declarations yields_items

theorem yields_implItem (before : Attribute.AreLegible attributes) :
    Yields (implItem g attributes) fun found => ∀ i, found = some i → i.tree.IsLegible := by
  unfold implItem
  refine yields_visibility.bind fun visibility _ => yields_word?.bind fun byDefault _ =>
    yields_word?.bind fun unsafety _ => yields_word.bind fun _ _ => ?_
  refine keeps_beginsImplGenerics.bind fun _ =>
    .either yields_genericParameters (yields_pure Generics.isLegible_none)
      fun generics constrained => ?_
  refine keeps_seesWord.bind fun _ => keeps_seesOperator.bind fun _ => keeps_peek2.bind fun _ => ?_
  extract_lets -underBinder isConst unsigned
  refine .join unsigned (fun _ => True) (fun later => ?_) fun _ _ => ?_
  · exact .ite (fun _ => yields_operator?.bind fun _ _ => yields_word.bind fun _ _ =>
      later () trivial) fun _ => later () trivial
  have negated : Yields (some <$> operator "!") fun polarity => Tree.AreLegible polarity.toList :=
    yields_operator.map fun _ legible => ⟨legible, trivial⟩
  refine keeps_seesOperator.bind fun _ => keeps_peek2.bind fun _ =>
    .either negated (yields_pure trivial) fun polarity sign => ?_
  refine yields_type.bind fun first typed => keeps_seesWord.bind fun isFor => ?_
  have signed : (Tree.seq (polarity.toList ++ [first])).IsLegible := by simp [sign, typed]
  extract_lets -underBinder isPath ended
  refine .join ended (fun found => Tree.AreLegible found.1.toList ∧ found.2.IsLegible)
    (fun later => .ite (fun _ => ?_) fun _ => ?_) fun ⟨ofTrait, other⟩ ⟨subject, named⟩ => ?_
  · refine yields_word.bind fun _ _ => yields_type.bind fun selfType typed =>
      (yields_pure ⟨?_, typed⟩).bind later
    cases isPath
    · exact trivial
    · exact ⟨signed, trivial⟩
  · exact (yields_pure ⟨trivial, signed⟩).bind later
  refine (yields_withWhere constrained).bind fun generics constrained =>
    (yields_members fun _ => yields_implMember).bind fun ⟨inner, members⟩ ⟨within, each⟩ => ?_
  refine .ite (fun _ => yields_pure nofun) fun _ => yields_pure ?_
  rintro _ ⟨⟩
  refine ImplItem.isLegible_tree (Attribute.areLegible_append.mpr ⟨before, within⟩) constrained
    subject ?_ each
  split
  · exact typed
  · exact named

theorem yields_traitFunction (before : Attribute.AreLegible attributes) :
    Yields (traitFunction g attributes) Tree.IsLegible := by
  unfold traitFunction
  mvcgen <;> first
    | with_reducible exact And.left ‹_›
    | simp_all [Attribute.AreLegible.outer, Attribute.AreLegible.inner]

attribute [local spec high] yields_traitFunction

theorem yields_traitMember : Yields (traitMember g) Tree.IsLegible := by
  unfold traitMember
  mvcgen <;> first
    | with_reducible exact And.left ‹_›
    | simp_all +zetaDelta [Attribute.AreLegible.outer, isLegible_since]

attribute [local spec high] yields_traitMember

theorem yields_traitBody {head : List Tree} {generics : Generics} (before : Tree.AreLegible head)
    (constrained : generics.IsLegible) :
    Yields (traitBody g head generics) fun found =>
      Attribute.AreLegible found.1 ∧ found.2.IsLegible := by
  unfold traitBody
  mvcgen <;> first
    | with_reducible exact And.left ‹_›
    | simp_all [Attribute.AreLegible.inner, Generics.IsLegible.paramsTree,
    Generics.IsLegible.whereTree, Tree.areLegible_ite]

attribute [local spec high] yields_traitBody

theorem yields_traitItem :
    Yields (traitItem g) fun found => Attribute.AreLegible found.2.1 ∧ found.2.2.IsLegible := by
  unfold traitItem
  mvcgen <;> first
    | with_reducible exact And.left ‹_›
    | simp_all +zetaDelta [Generics.IsLegible.paramsTree, Generics.IsLegible.whereTree]

theorem yields_foreignMember : Yields (foreignMember g) Tree.IsLegible := by
  unfold foreignMember
  refine yields_get.bind fun i known => ?_
  extract_lets -underBinder before
  refine yields_outerAttributes.bind fun attributes above => yields_get.bind fun start here =>
    yields_visibility.bind fun visibility seen => keeps_seesWord.bind fun _ =>
    keeps_seesWord.bind fun _ => ?_
  extract_lets -underBinder marked
  have source := yields_readSince known
  refine keeps_beginsSignature.choose ?function <|
    keeps_seesWord.bind fun _ => keeps_peek2.choose ?static <|
    keeps_seesWord.choose ?synonym <| keeps_peekAny.choose ?invocation yields_failExpecting
  case function =>
    refine keeps_seesWord.bind fun _ => .either yields_word? (yields_pure trivial) fun safe _ =>
      yields_signature.bind fun signature signed => keeps_peek.choose
        (yields_bodies.bind fun _ _ => source) <| yields_operator.bind fun sign ended =>
          .ite (fun _ => source) fun _ => yields_pure (.inr ?_)
    simp [above.outer, seen, signed, ended]
  case static =>
    extract_lets -underBinder declared
    refine .join declared (fun _ => True) (fun later => .ite (fun _ => keeps_anyWord.bind fun _ =>
      later () trivial) fun _ => later () trivial) fun _ _ => ?_
    refine yields_word.bind fun _ ⟨_, word⟩ => yields_word?.bind fun mutable flagged =>
      yields_identifier.bind fun name named => keeps_operator.bind fun _ =>
      yields_type.bind fun type typed => keeps_seesOperator.bind fun hasValue => ?_
    extract_lets -underBinder ended
    refine .join ended (fun _ => True) (fun later => .ite (fun _ => keeps_operator.bind fun _ =>
      yields_expression.bind fun _ _ => later () trivial) fun _ => later () trivial) fun _ _ => ?_
    refine yields_operator.bind fun sign legible => .ite (fun _ => source) fun _ =>
      yields_pure (.inr ?_)
    simp [above.outer, seen, word, flagged, named, typed, legible]
  case synonym =>
    exact (keeps_set here).bind fun _ => yields_typeAlias.bind fun declared legible =>
      .ite (fun _ => source) fun _ => yields_pure (above.isLegible_seq legible)
  case invocation =>
    exact yields_memberMacro.bind fun _ legible => yields_pure (above.isLegible_seq legible)

attribute [local spec high] yields_foreignMember

theorem yields_foreignBlock :
    Yields (foreignBlock g) fun found => Attribute.AreLegible found.1 ∧ found.2.IsLegible := by
  unfold foreignBlock
  mvcgen <;> first | with_reducible exact And.left ‹_› | simp_all [Attribute.AreLegible.inner]

theorem yields_imports {rooted : Bool} :
    Yields (g.imports rooted) fun found => Tree.AreLegible found.toList :=
  Legible.yields (.imports rooted)

attribute [local spec high] yields_imports

theorem yields_importList {rooted : Bool} {count : Nat} :
    Yields (importList g rooted count) fun found => Tree.AreLegible found.1 := by
  induction count generalizing rooted with
  | zero =>
    unfold importList
    mvcgen
  | succ count ih =>
    unfold importList
    mvcgen [ih] <;> first | with_reducible exact And.left ‹_› | simp_all

theorem yields_importGroup {p : Parser (List Tree × Bool)}
    (yields : ∀ inst : Telling, @Yields _ inst.toInvariant p fun found => Tree.AreLegible found.1) :
    Yields (grouped .brace p) fun found => Tree.AreLegible found.1 :=
  yields_grouped yields

attribute [local spec high] yields_importList yields_importGroup

theorem yields_importsOf {rooted : Bool} :
    Yields (importsOf g rooted) fun found => Tree.AreLegible found.toList := by
  unfold importsOf
  mvcgen <;> first | with_reducible exact And.left ‹_› | simp_all

theorem yields_useItem : Yields (useItem g) fun found => Tree.AreLegible found.toList := by
  unfold useItem
  mvcgen <;> first | with_reducible exact And.left ‹_› | simp_all

omit [Legible g] in
theorem yields_externCrate : Yields externCrate Tree.IsLegible := by
  unfold externCrate
  mvcgen <;> first | with_reducible exact And.left ‹_› | simp_all

theorem yields_moduleItem (before : Attribute.AreLegible attributes) :
    Yields (moduleItem g attributes) fun found => found.tree.IsLegible := by
  unfold moduleItem
  mvcgen <;> first | with_reducible exact And.left ‹_› | simp_all +zetaDelta [Item.isLegible_module]

omit [Legible g] in
theorem yields_macroItem : Yields macroItem Tree.IsLegible := by
  unfold macroItem
  mvcgen <;> first | with_reducible exact And.left ‹_› | simp_all +zetaDelta

theorem yields_staticItem : Yields (staticItem g) fun found => Tree.AreLegible found.toList := by
  unfold staticItem
  mvcgen <;> first | with_reducible exact And.left ‹_› | simp_all

attribute [local spec high] yields_implItem yields_traitItem yields_foreignBlock yields_useItem
  yields_externCrate yields_moduleItem yields_macroItem yields_staticItem

theorem yields_itemOf : Yields (itemOf g) fun found => found.tree.IsLegible := by
  unfold itemOf
  refine yields_get.bind fun i known => ?_
  extract_lets -underBinder before
  refine yields_outerAttributes.bind fun attributes above => ?_
  extract_lets -underBinder outer
  refine yields_get.bind fun start here => yields_visibility.bind fun _ _ =>
    yields_get.bind fun ahead there => ?_
  extract_lets -underBinder plain orSource withInner implementation
  -- the readers that all choices share go back to the place behind the attributes
  have source : Yields (do return Item.other .unspecified [] (← readSince before))
      fun found => found.tree.IsLegible :=
    (yields_readSince known).bind fun _ legible => yields_pure legible
  have plainly (kind : OtherKind) {p : Parser Tree} (yields : Yields p Tree.IsLegible) :
      Yields (plain kind p) fun found => found.tree.IsLegible :=
    (keeps_set here).bind fun _ => yields.bind fun _ legible =>
      yields_pure (above.isLegible_seq legible)
  have optional (kind : OtherKind) {p : Parser (Option Tree)}
      (yields : Yields p fun found => Tree.AreLegible found.toList) :
      Yields (orSource kind p) fun found => found.tree.IsLegible := by
    refine (keeps_set here).bind fun _ => yields.bind fun found legible => ?_
    cases found with
    | none => exact source
    | some tree => exact yields_pure (above.isLegible_seq legible.1)
  have inner {p : Parser (OtherKind × List Attribute × Tree)}
      (yields : Yields p fun found => found.2.2.IsLegible) :
      Yields (withInner p) fun found => found.tree.IsLegible :=
    (keeps_set here).bind fun _ => yields.bind fun ⟨_, _, _⟩ legible =>
      yields_pure (above.isLegible_seq legible)
  have block : Yields implementation fun found => found.tree.IsLegible := by
    refine (keeps_set here).bind fun _ => (yields_implItem above).bind fun found legible => ?_
    cases found with
    | none => exact source
    | some found => exact yields_pure (legible found rfl)
  have foreign : Yields (do return (OtherKind.unspecified, ← foreignBlock g))
      fun found => found.2.2.IsLegible :=
    yields_foreignBlock.bind fun _ legible => yields_pure legible.2
  have traits : Yields (traitItem g) fun found => found.2.2.IsLegible :=
    yields_traitItem.mono fun _ legible => legible.2
  have module := (keeps_set here).bind fun _ => yields_moduleItem (g := g) above
  -- the choices in the order in which they are tried
  refine keeps_beginsSignature.choose ?function <|
    keeps_seesWord.choose ?external <|
    keeps_seesWord.choose (optional _ yields_useItem) <|
    keeps_seesWord.choose (optional _ yields_staticItem) <|
    keeps_seesWord.choose (optional _ ?constant) <|
    keeps_seesWord.choose ?marked <|
    keeps_seesWord.choose module <|
    keeps_seesWord.choose (optional _ ?synonym) <|
    keeps_seesWord.choose ((keeps_set here).bind fun _ =>
      (yields_structItem above).bind fun _ legible => yields_pure legible) <|
    keeps_seesWord.choose (plainly _ yields_enumeration) <|
    keeps_seesWord.bind fun _ => keeps_peek2.choose (plainly _ yields_unionItem) <|
    keeps_seesWord.bind fun _ => keeps_seesWord.bind fun _ => keeps_peek2.choose (inner traits) <|
    keeps_seesWord.bind fun _ => keeps_seesWord.bind fun _ => keeps_peek2.choose block <|
    keeps_seesWord.choose (keeps_macroDefinition.bind fun _ => source) <|
    keeps_peekAny.choose (plainly _ yields_macroItem) <|
    (keeps_set there).bind fun _ => yields_failExpecting
  case function =>
    refine (keeps_set here).bind fun _ => (yields_method? above).bind fun found legible => ?_
    cases found with
    | none => exact source
    | some method => exact yields_pure (legible method rfl)
  case external =>
    exact keeps_word.bind fun _ => keeps_seesWord.choose (plainly _ yields_externCrate) <|
      keeps_peek.choose (inner foreign) <|
      keeps_peek.choose (keeps_stringLiteral.bind fun _ =>
        keeps_peek.choose (inner foreign) yields_failExpecting) yields_failExpecting
  case constant =>
    refine yields_visibility.bind fun visibility seen => keeps_word.bind fun _ =>
      yields_constantBody.bind fun ⟨tree, _, _⟩ legible => yields_pure ?_
    split
    · exact trivial
    · exact ⟨.inr (Tree.areLegible_append.mpr ⟨seen, legible, trivial⟩), trivial⟩
  case marked =>
    exact keeps_word.bind fun _ => keeps_seesWord.bind fun _ => keeps_seesWord.bind fun _ =>
      keeps_peek2.choose (inner traits) <|
      keeps_seesWord.choose block <|
      keeps_seesWord.choose (inner foreign) <|
      keeps_seesWord.choose module yields_failExpecting
  case synonym =>
    refine yields_typeAlias.bind fun declared legible => yields_pure ?_
    split
    · exact trivial
    · exact ⟨legible, trivial⟩

theorem yields_rule (n : Nonterminal) : Yields (rule g n) n.IsLegible := by
  cases n with
  | type plus => exact yields_typeOf
  | bound captures constant => exact yields_boundOf
  | expression braces => exact yields_expressionOf
  | operand braces => exact yields_operandOf
  | standalone => exact yields_standaloneOf
  | pattern => exact yields_patternOf
  | statements => exact yields_statementsOf
  | item => exact yields_itemOf
  | imports rooted => exact yields_importsOf

end Grammar.Legibly

namespace Grammar

/-- The grammars give legible trees, however deep notions nest. -/
instance legible_ofDepth (depth : Nat) : Legible (ofDepth depth) := by
  induction depth with
  | zero => exact ⟨fun _ => triple_iff.mpr fun _ _ _ _ ran => absurd ran Parser.reads_fail⟩
  | succ depth ih => exact ⟨Legibly.yields_rule⟩

end Grammar

end Forwarding
