import Forwarding.Proofs.LegibleTypes
/-!
Legible patterns, expressions and statements.
-/

set_option mvcgen.warning false

open Std.Do

namespace Forwarding.Grammar.Legibly

open Forwarding.Grammar.Parser
open Lexer (IsName)

attribute [local spec high] yields_word yields_operator yields_lifetime yields_anyWord
  yields_identifier yields_literal yields_stringLiteral yields_anyGroup yields_word?
  yields_operator? yields_lifetime? yields_groupedTree yields_trees yields_punctuated yields_sum
  yields_commaList yields_verbatim

attribute [local spec high] yields_type yields_typeWithoutPlus yields_expressionWith yields_expression
  yields_statements yields_plainPath yields_outerAttributes yields_block yields_blockAfter
  yields_binder? yields_genericArguments yields_qualifiedPath yields_invocation

attribute [local spec] seesAlternative endsPattern

variable [Telling] {g : Grammar} [Legible g]

theorem yields_pattern : Yields g.pattern fun found => found.tree.IsLegible :=
  Legible.yields .pattern

theorem yields_operand {braces : Bool} :
    Yields (g.operand braces) fun found => found.tree.IsLegible :=
  Legible.yields (.operand braces)

theorem yields_standalone : Yields g.standalone fun found => found.tree.IsLegible :=
  Legible.yields .standalone

theorem yields_condition : Yields g.condition Tree.IsLegible := by
  have read : Yields (g.expressionWith false) fun found => found.tree.IsLegible :=
    yields_expressionWith
  unfold condition
  mvcgen [read]

attribute [local spec high] yields_pattern yields_operand yields_standalone yields_condition

theorem yields_alternatives : Yields (alternatives g) fun found => found.tree.IsLegible := by
  unfold alternatives
  mvcgen <;> first | with_reducible exact And.left ‹_› | simp_all [areLegible_join]

attribute [local spec high] yields_alternatives

theorem yields_patternList : Yields (patternList g) Tree.AreLegible := by
  unfold patternList
  mvcgen

omit [Legible g] in
theorem yields_patternLimits : Yields patternLimits fun found => found.1.IsLegible := by
  unfold patternLimits
  mvcgen
  simp_all

theorem yields_rangeBound? : Yields (rangeBound? g) fun found => Tree.AreLegible found.toList := by
  unfold rangeBound?
  mvcgen <;> first | with_reducible exact And.left ‹_› | simp_all

attribute [local spec high] yields_patternList yields_patternLimits yields_rangeBound?

theorem yields_rangeAfter {start : Tree} (before : start.IsLegible) :
    Yields (rangeAfter g start) fun found => found.tree.IsLegible := by
  unfold rangeAfter
  mvcgen <;> first | with_reducible exact And.left ‹_› | simp_all

theorem yields_rangeFrom : Yields (rangeFrom g) fun found => found.tree.IsLegible := by
  unfold rangeFrom
  mvcgen <;> first | with_reducible exact And.left ‹_› | simp_all

omit [Telling] [Legible g] in
theorem isLegible_number (n : Nat) : Token.IsLegible [.literal n.repr] :=
  .literal (Literal.isLiteral_toString n)

omit [Legible g] in
theorem yields_tupleIndex : Yields tupleIndex fun found => Token.IsLegible [found] := by
  unfold tupleIndex
  mvcgen
  simp_all [isLegible_number]

attribute [local spec high] yields_rangeAfter yields_rangeFrom yields_tupleIndex

omit [Legible g] in
theorem yields_fieldMember : Yields fieldMember fun found => Token.IsLegible [found] := by
  unfold fieldMember
  mvcgen
  simp_all [Token.IsLegible.word]

attribute [local spec high] yields_fieldMember

theorem yields_fieldPattern : Yields (fieldPattern g) Tree.AreLegible := by
  unfold fieldPattern
  mvcgen <;> first | with_reducible exact And.left ‹_› | simp_all +zetaDelta

attribute [local spec high] yields_fieldPattern

theorem yields_fieldPatterns {count : Nat} : Yields (fieldPatterns g count) Tree.AreLegible := by
  induction count with
  | zero =>
    unfold fieldPatterns
    mvcgen
  | succ count ih =>
    unfold fieldPatterns
    mvcgen [ih] <;>
      first | with_reducible exact And.left ‹_› | simp_all +zetaDelta [Attribute.AreLegible.outer]

attribute [local spec high] yields_fieldPatterns

theorem yields_pathPattern : Yields (pathPattern g) fun found => found.tree.IsLegible := by
  unfold pathPattern
  mvcgen <;> first | with_reducible exact And.left ‹_› | simp_all

theorem yields_bindingPattern : Yields (bindingPattern g) fun found => found.tree.IsLegible := by
  unfold bindingPattern
  mvcgen <;> first | with_reducible exact And.left ‹_› | simp_all +zetaDelta

theorem yields_tuplePattern : Yields (tuplePattern g) fun found => found.tree.IsLegible := by
  unfold tuplePattern
  mvcgen

theorem yields_slicedPattern : Yields (slicedPattern g) Tree.IsLegible := by
  unfold slicedPattern
  mvcgen

attribute [local spec high] yields_pathPattern yields_bindingPattern yields_tuplePattern
  yields_slicedPattern

theorem yields_patternOf : Yields (patternOf g) fun found => found.tree.IsLegible := by
  unfold patternOf
  mvcgen <;> first | with_reducible exact And.left ‹_› | simp_all

attribute [local spec] peekPrecedence climbFuel beginsExpression

omit [Legible g] in
theorem yields_rangeLimits : Yields rangeLimits fun found => found.1.IsLegible := by
  unfold rangeLimits
  mvcgen

omit [Telling] [Legible g] in
/-- Whether a climb goes on from a legible tree. -/
def Climb.IsLegible : Climb → Prop
  | .onward left _ => left.tree.IsLegible
  | .right _ => True
  | .tighten operand _ => operand.tree.IsLegible

attribute [local spec high] yields_rangeLimits

theorem yields_climb {braces : Bool} {fuel : Nat} {state : Climb} (before : Climb.IsLegible state) :
    Yields (climb g braces fuel state) fun found => found.tree.IsLegible := by
  induction fuel generalizing state with
  | zero =>
    unfold climb
    mvcgen
  | succ fuel ih =>
    cases state with
    | right precedence =>
      unfold climb
      mvcgen [ih] <;> first | with_reducible exact And.left ‹_› | simp_all [Climb.IsLegible]
    | tighten operand precedence =>
      unfold climb
      mvcgen [ih] <;> first | with_reducible exact And.left ‹_› | simp_all [Climb.IsLegible]
    | onward left base =>
      unfold climb
      extract_lets -underBinder isRange
      have joined {sign last : Tree} (form : ExpressionForm) (told : sign.IsLegible)
          (later : last.IsLegible) :
          Yields (climb g braces fuel (.onward ⟨.seq [left.tree, sign, last], form⟩ base))
            fun found => found.tree.IsLegible := ih (.inr ⟨before, told, later, trivial⟩)
      have read (precedence : Precedence) : Yields (climb g braces fuel (.right precedence))
          fun found => found.tree.IsLegible := ih trivial
      refine .ite (fun _ => yields_pure before) fun _ => keeps_get.bind fun here => ?_
      split
      · refine .ite (fun _ => yields_pure before) fun _ => ?_
        extract_lets -underBinder applied
        refine .join applied (fun _ => True) (fun later => .ite (fun _ => yields_fail.bind later)
          fun _ => later () trivial) fun _ _ => ?_
        exact yields_operator.bind fun _ sign => (read _).bind fun _ right =>
          joined _ sign right
      · refine keeps_seesOperator.bind fun _ => keeps_seesOperator.choose
            (yields_operator.bind fun _ sign => (read _).bind fun _ right =>
              joined _ sign right) <|
          keeps_seesOperator.choose ?range <|
          keeps_seesWord.choose (yields_word.bind fun _ sign =>
            yields_typeWithoutPlus.bind fun _ typed => keeps_checkCast.bind fun _ =>
              joined _ sign.1 typed) (yields_pure before)
        refine yields_rangeLimits.bind fun limits told => ?_
        obtain ⟨sign, closed⟩ := limits
        exact keeps_endsRange.choose (ih (.inr ⟨before, told, trivial⟩)) <|
          (read _).bind fun _ right => joined _ told right

theorem yields_onward {braces : Bool} {fuel : Nat} {left : Expression} {base : Precedence}
    (before : left.tree.IsLegible) :
    Yields (climb g braces fuel (.onward left base)) fun found => found.tree.IsLegible :=
  yields_climb before

theorem yields_rightOperand {braces : Bool} {fuel : Nat} {precedence : Precedence} :
    Yields (climb g braces fuel (.right precedence)) fun found => found.tree.IsLegible :=
  yields_climb trivial

attribute [local spec high] yields_onward yields_rightOperand

theorem yields_continued {braces : Bool} {left : Expression} {base : Precedence}
    (before : left.tree.IsLegible) :
    Yields (continued g braces left base) fun found => found.tree.IsLegible := by
  unfold continued
  mvcgen

attribute [local spec high] yields_continued

theorem yields_rangeEnd {braces closed : Bool} : Yields (rangeEnd g braces closed) Tree.AreLegible := by
  unfold rangeEnd
  mvcgen
  simp_all

theorem yields_expressionOf {braces : Bool} :
    Yields (expressionOf g braces) fun found => found.tree.IsLegible := by
  unfold expressionOf
  mvcgen <;> first | with_reducible exact And.left ‹_› | simp_all

theorem yields_expressionList : Yields (expressionList g) Tree.AreLegible := by
  unfold expressionList
  mvcgen

omit [Legible g] in
theorem yields_fieldOfPart {start : Position} {part : String} :
    Yields (fieldOfPart start part) Tree.IsLegible := by
  unfold fieldOfPart
  mvcgen
  simp_all [isLegible_number]

attribute [local spec high] yields_rangeEnd yields_expressionList yields_fieldOfPart

omit [Legible g] in
theorem yields_fieldParts {start : Position} {parts : List String} :
    Yields (parts.mapM (fieldOfPart start)) Tree.AreLegible := by
  induction parts with
  | nil =>
    rw [List.mapM_nil]
    mvcgen
  | cons part rest ih =>
    rw [List.mapM_cons]
    mvcgen [ih] <;> first | with_reducible exact And.left ‹_› | simp_all

attribute [local spec high] yields_fieldParts

theorem yields_afterDotMember : Yields (afterDot.member g) Tree.AreLegible := by
  unfold afterDot.member
  mvcgen <;> first | with_reducible exact And.left ‹_› | simp_all

attribute [local spec high] yields_afterDotMember

theorem yields_afterDot : Yields (afterDot g) Tree.AreLegible := by
  unfold afterDot
  mvcgen
  · rename_i known _ _ _ ahead _
    exact Invariant.drop_literal known ahead
  all_goals simp_all +zetaDelta [Tree.areLegible_separated]

attribute [local spec high] yields_afterDot

theorem yields_trailer? {isRange : Bool} :
    Yields (trailer? g isRange) fun found => ∀ trees ∈ found, Tree.AreLegible trees := by
  unfold trailer?
  mvcgen <;> first | with_reducible exact And.left ‹_› | simp_all

theorem yields_parts {isRange : Bool} :
    Yields (repeated (trailer? g isRange)) fun found => Tree.AreLegible found.flatten := by
  refine Yields.mono (yields_repeated yields_trailer?) fun found each => ?_
  simp only [Tree.areLegible_iff, List.mem_flatten] at each ⊢
  rintro tree ⟨trees, member, inside⟩
  exact each trees member tree inside

attribute [local spec high] yields_parts

theorem yields_trailers {atom : Expression} (before : atom.tree.IsLegible) :
    Yields (trailers g atom) fun found => found.tree.IsLegible := by
  unfold trailers
  mvcgen <;> first | with_reducible exact And.left ‹_› | simp_all

omit [Legible g] in
theorem yields_label : Yields label Tree.AreLegible := by
  unfold label
  mvcgen <;> first | with_reducible exact And.left ‹_› | simp_all

theorem yields_branch : Yields (conditional.branch g) Tree.AreLegible := by
  unfold conditional.branch
  mvcgen <;> first | with_reducible exact And.left ‹_› | simp_all

attribute [local spec high] yields_trailers yields_label yields_branch

theorem yields_branchesUpTo {count : Nat} :
    Yields (conditional.branchesUpTo g count) Tree.AreLegible := by
  induction count with
  | zero =>
    unfold conditional.branchesUpTo
    mvcgen
  | succ count ih =>
    unfold conditional.branchesUpTo
    mvcgen [ih] <;> first | with_reducible exact And.left ‹_› | simp_all

theorem yields_conditional : Yields (conditional g) Tree.IsLegible := by
  unfold conditional
  mvcgen [yields_branchesUpTo] <;> first | with_reducible exact And.left ‹_› | simp_all

theorem yields_whileLoop : Yields (whileLoop g) Tree.IsLegible := by
  unfold whileLoop
  mvcgen <;> first | with_reducible exact And.left ‹_› | simp_all

theorem yields_forLoop : Yields (forLoop g) Tree.IsLegible := by
  unfold forLoop
  mvcgen <;> first | with_reducible exact And.left ‹_› | simp_all

theorem yields_endlessLoop : Yields (endlessLoop g) Tree.IsLegible := by
  unfold endlessLoop
  mvcgen <;> first | with_reducible exact And.left ‹_› | simp_all

theorem yields_wordBlock {text : String} : Yields (wordBlock g text) Tree.IsLegible := by
  unfold wordBlock
  mvcgen <;> first | with_reducible exact And.left ‹_› | simp_all

theorem yields_tryBlock : Yields (tryBlock g) Tree.IsLegible := by
  unfold tryBlock
  mvcgen <;> first | with_reducible exact And.left ‹_› | simp_all

attribute [local spec high] yields_conditional yields_whileLoop yields_forLoop yields_endlessLoop
  yields_wordBlock yields_tryBlock

theorem yields_labelled : Yields (labelled g) Tree.IsLegible := by
  unfold labelled
  mvcgen <;> first | with_reducible exact And.left ‹_› | simp_all

theorem yields_closureParameter : Yields (closureParameter g) Tree.IsLegible := by
  unfold closureParameter
  mvcgen <;>
    first | with_reducible exact And.left ‹_› | simp_all +zetaDelta [Attribute.AreLegible.outer]

attribute [local spec high] yields_labelled yields_closureParameter

theorem yields_closure {braces : Bool} : Yields (closure g braces) Tree.IsLegible := by
  unfold closure
  mvcgen <;> first | with_reducible exact And.left ‹_› | simp_all [areLegible_join]

theorem yields_asyncBlock : Yields (asyncBlock g) Tree.IsLegible := by
  unfold asyncBlock
  mvcgen <;> first | with_reducible exact And.left ‹_› | simp_all

theorem yields_fieldInitializer : Yields (fieldInitializer g) Tree.IsLegible := by
  unfold fieldInitializer
  mvcgen <;>
    first | with_reducible exact And.left ‹_› | simp_all +zetaDelta [Attribute.AreLegible.outer]

attribute [local spec high] yields_closure yields_asyncBlock yields_fieldInitializer

theorem yields_initializersUpTo {count : Nat} : Yields (initializersUpTo g count) Tree.AreLegible := by
  induction count with
  | zero =>
    unfold initializersUpTo
    mvcgen
  | succ count ih =>
    unfold initializersUpTo
    mvcgen [ih] <;> first | with_reducible exact And.left ‹_› | simp_all

theorem yields_initializers {delimiter : Delimiter} {p : Parser (List Tree)}
    (yields : ∀ inst : Telling, @Yields _ inst.toInvariant p Tree.AreLegible) :
    Yields (grouped delimiter p) Tree.AreLegible :=
  yields_grouped yields

attribute [local spec high] yields_initializersUpTo yields_initializers

theorem yields_pathExpression {braces : Bool} :
    Yields (pathExpression g braces) fun found => found.tree.IsLegible := by
  unfold pathExpression
  mvcgen <;> first | with_reducible exact And.left ‹_› | simp_all

theorem yields_bracketedExpression : Yields (bracketedExpression g) Tree.IsLegible := by
  unfold bracketedExpression
  mvcgen

theorem yields_arrayExpression : Yields (arrayExpression g) Tree.IsLegible := by
  unfold arrayExpression
  mvcgen <;> first | with_reducible exact And.left ‹_› | simp_all

omit [Legible g] in
theorem yields_builtin : Yields builtin Tree.IsLegible := by
  unfold builtin
  mvcgen <;> with_reducible exact And.left ‹_›

theorem yields_breakExpression {braces : Bool} : Yields (breakExpression g braces) Tree.IsLegible := by
  unfold breakExpression
  mvcgen <;> first | with_reducible exact And.left ‹_› | simp_all

theorem yields_withValue {text : String} : Yields (withValue g text) Tree.IsLegible := by
  unfold withValue
  mvcgen <;> first | with_reducible exact And.left ‹_› | simp_all

theorem yields_letExpression {braces : Bool} : Yields (letExpression g braces) Tree.IsLegible := by
  unfold letExpression
  mvcgen <;> first | with_reducible exact And.left ‹_› | simp_all

theorem yields_arm : Yields (arm g) Tree.IsLegible := by
  unfold arm
  mvcgen <;>
    first | with_reducible exact And.left ‹_› | simp_all +zetaDelta [Attribute.AreLegible.outer]

theorem yields_arms :
    Yields (braced g (untilEnd (arm g))) fun found =>
      Attribute.AreLegible found.1 ∧ Tree.AreLegible found.2 :=
  yields_braced fun _ => yields_untilEnd yields_arm

attribute [local spec high] yields_pathExpression yields_bracketedExpression yields_arrayExpression
  yields_builtin yields_breakExpression yields_withValue yields_letExpression yields_arms

theorem yields_choiceExpression : Yields (choiceExpression g) Tree.IsLegible := by
  unfold choiceExpression
  mvcgen <;> first | with_reducible exact And.left ‹_› | simp_all [Attribute.AreLegible.inner]

attribute [local spec high] yields_choiceExpression

theorem yields_formed {p : Parser Tree} (yields : Yields p Tree.IsLegible)
    (form : ExpressionForm) :
    Yields (do return (⟨← p, form⟩ : Expression)) fun found => found.tree.IsLegible :=
  yields.bind fun _ legible => yields_pure legible

theorem yields_atom {braces : Bool} : Yields (atom g braces) fun found => found.tree.IsLegible := by
  unfold atom
  extract_lets -underBinder plain asBlock
  have plainly {p : Parser Tree} (yields : Yields p Tree.IsLegible) :
      Yields (plain p) fun found => found.tree.IsLegible := yields_formed yields _
  have block {p : Parser Tree} (yields : Yields p Tree.IsLegible) :
      Yields (asBlock p) fun found => found.tree.IsLegible := yields_formed yields _
  refine keeps_peek2.bind fun _ => keeps_peek2.bind fun _ => keeps_peek3.bind fun _ => ?_
  extract_lets -underBinder asyncBody
  -- the choices in the order in which they are tried
  refine keeps_peek.choose (plainly yields_literal) <|
    keeps_seesWord.choose (plainly yields_asyncBlock) <|
    keeps_seesWord.bind fun _ => keeps_peek2.choose (block yields_tryBlock) <|
    keeps_beginsClosure.choose (plainly yields_closure) <|
    keeps_seesWord.bind fun _ => keeps_peek2.choose (plainly yields_builtin) <|
    keeps_peekAny.bind fun _ => keeps_seesWord.bind fun _ => keeps_peek2.bind fun _ =>
    keeps_peek2.choose yields_pathExpression <|
    keeps_peek.choose (plainly yields_bracketedExpression) <|
    keeps_seesWord.choose (plainly yields_breakExpression) <|
    keeps_seesWord.choose ?continuing <|
    keeps_seesWord.choose (plainly yields_withValue) <|
    keeps_seesWord.choose (plainly (yields_verbatim ?become)) <|
    keeps_peek.choose (plainly yields_arrayExpression) <|
    keeps_seesWord.choose (plainly yields_letExpression) <|
    keeps_seesWord.choose (block yields_conditional) <|
    keeps_seesWord.choose (block yields_whileLoop) <|
    keeps_seesWord.choose (block yields_forLoop) <|
    keeps_seesWord.choose (block yields_endlessLoop) <|
    keeps_seesWord.choose (block yields_choiceExpression) <|
    keeps_seesWord.choose (plainly yields_withValue) <|
    keeps_seesWord.choose (block yields_wordBlock) <|
    keeps_seesWord.choose (block yields_wordBlock) <|
    keeps_peek.choose (block yields_block) <|
    keeps_seesOperator.choose ?range <|
    keeps_seesWord.choose (plainly (yields_word.mono fun _ legible => legible.1)) <|
    keeps_peek.choose (block yields_labelled) yields_fail
  case continuing =>
    exact yields_word.bind fun _ sign => yields_lifetime?.bind fun _ named =>
      yields_pure (.inr ⟨sign.1, named⟩)
  case become =>
    have read : Yields (do let _ ← word "become"; let _ ← g.expression) fun _ => True :=
      keeps_word.bind fun _ => yields_expression.bind fun _ _ => yields_pure trivial
    exact keeps_of_yields read
  case range =>
    exact yields_rangeLimits.bind fun _ sign => yields_rangeEnd.bind fun _ last =>
      yields_pure (.inr ⟨sign, last⟩)

section Attributed

omit [Telling] [Legible g]

variable {attributes : List Tree} {tree : Tree}

/-- Attributes are printed before the expression that they stand before. -/
theorem tokens_attributed (f : Mention → String) :
    ((attributed attributes tree).mapNames f).tokens =
      Tree.tokensOf (Tree.mapNamesAll f attributes) ++ (tree.mapNames f).tokens := by
  fun_induction attributed attributes tree with
  | case1 before body =>
    simp [Tree.mapNames, Tree.mapNamesAll_eq_map, Tree.tokens, Tree.tokensOf_append]
  | case2 target body =>
    simp [Tree.mapNames, Tree.mapNamesAll_eq_map, Tree.tokens, Tree.tokensOf_append, Tree.tokensOf]
  | case3 left sign rest joins ih =>
    simp [Tree.mapNames, Tree.mapNamesAll, Tree.tokens, Tree.tokensOf, ih]
  | case4 left sign rest =>
    simp [Tree.mapNames, Tree.mapNamesAll_eq_map, Tree.tokens, Tree.tokensOf_append, Tree.tokensOf]
  | case5 tree =>
    simp [Tree.mapNames, Tree.mapNamesAll_eq_map, Tree.tokens, Tree.tokensOf_append, Tree.tokensOf]

theorem isLegible_attributed (before : Tree.AreLegible attributes) (legible : tree.IsLegible) :
    (attributed attributes tree).IsLegible := by
  have after {trees : List Tree} (told : (Tree.seq trees).IsLegible) :
      (Tree.seq (attributes ++ trees)).IsLegible := by
    refine .inl fun f named => ?_
    rw [Tree.mapNamesAll_eq_map, List.map_append, Tree.tokensOf_append, ← Tree.mapNamesAll_eq_map,
      ← Tree.mapNamesAll_eq_map]
    exact (before.tokensOf named).append (told.tokens named)
  unfold attributed
  split
  · exact ⟨after legible.1, legible.2⟩
  · exact ⟨after (.inr ⟨legible.1, trivial⟩), legible.2⟩
  · split
    · -- the first tree by itself may be half of a lifetime
      refine .inl fun f named => ?_
      rw [Tree.mapNamesAll, Tree.tokensOf, tokens_attributed, List.append_assoc]
      exact (before.tokensOf named).append (legible.tokens named)
    · exact after (.inr ⟨legible, trivial⟩)
  · exact after (.inr ⟨legible, trivial⟩)

theorem isLegible_whole (before : Tree.AreLegible attributes) (legible : tree.IsLegible) :
    (if attributes = [] then tree else attributed attributes tree).IsLegible := by
  split
  · exact legible
  · exact isLegible_attributed before legible

end Attributed

attribute [local spec high] yields_atom

theorem yields_operandOf {braces : Bool} :
    Yields (operandOf g braces) fun found => found.tree.IsLegible := by
  unfold operandOf
  mvcgen <;> first
    | with_reducible exact And.left ‹_›
    | simp_all +zetaDelta [Attribute.AreLegible.outer, isLegible_attributed]

theorem yields_standaloneOf : Yields (standaloneOf g) fun found => found.tree.IsLegible := by
  unfold standaloneOf
  refine yields_outerAttributes.bind fun attributes before => keeps_seesWord.bind fun _ =>
    keeps_peek2.bind fun _ => keeps_peek3.bind fun _ => keeps_peek3.bind fun _ => ?_
  extract_lets -underBinder binding asBlock
  refine keeps_seesWord.bind fun _ => keeps_seesWord.bind fun _ => keeps_seesWord.bind fun _ =>
    keeps_seesWord.bind fun _ => keeps_seesWord.bind fun _ => keeps_seesWord.bind fun _ =>
      keeps_peek2.bind fun _ => keeps_seesWord.bind fun _ => keeps_seesWord.bind fun _ =>
        keeps_peek2.bind fun _ => keeps_peek.bind fun _ => keeps_peek.bind fun _ => ?_
  extract_lets -underBinder ended
  refine .join ended (fun first => first.tree.IsLegible) (fun later => ?_) fun first legible => ?_
  · have block {p : Parser Tree} (yields : Yields p Tree.IsLegible) :
        Yields (asBlock p >>= ended) fun found => found.tree.IsLegible := by
      have whole : Yields (asBlock p) fun found => found.tree.IsLegible := by
        unfold asBlock
        exact yields.bind fun _ legible => yields_pure legible
      exact whole.bind later
    exact .ite (fun _ => block yields_conditional) fun _ =>
      .ite (fun _ => block yields_whileLoop) fun _ =>
      .ite (fun _ => block yields_forLoop) fun _ =>
      .ite (fun _ => block yields_endlessLoop) fun _ =>
      .ite (fun _ => block yields_choiceExpression) fun _ =>
      .ite (fun _ => block yields_tryBlock) fun _ =>
      .ite (fun _ => block yields_wordBlock) fun _ =>
      .ite (fun _ => block yields_wordBlock) fun _ =>
      .ite (fun _ => block yields_block) fun _ =>
      .ite (fun _ => block yields_labelled) fun _ => yields_operand.bind later
  have put {e : Expression} (legible : e.tree.IsLegible) :
      (if (Attribute.outer attributes).isEmpty then e
        else ⟨attributed (Attribute.outer attributes) e.tree,
          e.form⟩ : Expression).tree.IsLegible := by
    split
    · exact legible
    · exact isLegible_attributed before.outer legible
  exact .ite (fun _ => yields_continued (put legible)) fun _ => keeps_seesOperator.bind fun _ =>
    keeps_seesOperator.bind fun _ => keeps_seesOperator.choose
      ((yields_trailers legible).bind fun _ legible => yields_continued (put legible)) <|
    yields_pure (put legible)

attribute [local spec] beginsItem

theorem yields_localStatement : Yields (localStatement g) Tree.AreLegible := by
  unfold localStatement
  mvcgen <;> first | with_reducible exact And.left ‹_› | simp_all

theorem yields_itemTree : Yields g.item fun found => found.tree.IsLegible :=
  Legible.yields .item

attribute [local spec high] yields_localStatement yields_itemTree

theorem yields_statement : Yields (statement g) fun found => found.tree.IsLegible := by
  unfold statement
  mvcgen <;> first
    | with_reducible exact And.left ‹_›
    | simp_all +zetaDelta [Attribute.AreLegible.outer, isLegible_whole]

attribute [local spec high] yields_statement

theorem yields_statementsUpTo {count : Nat} : Yields (statementsUpTo g count) Tree.AreLegible := by
  induction count with
  | zero =>
    unfold statementsUpTo
    mvcgen
  | succ count ih =>
    unfold statementsUpTo
    mvcgen [ih] <;> first | with_reducible exact And.left ‹_› | simp_all

theorem yields_statementsOf : Yields (statementsOf g) Tree.AreLegible := by
  unfold statementsOf
  mvcgen [yields_statementsUpTo]

end Forwarding.Grammar.Legibly
