import Forwarding.Grammar.Expression
import Forwarding.Proofs.FollowingPatterns
/-!
Expressions on the same tokens, below a grammar and below a deeper one.
-/

namespace Forwarding.Grammar.Parser

variable {g g' : Grammar}

section Operators

/-- Both readers have as many lexemes ahead. -/
theorem same_length_bind {γ δ : Type} {others : γ → δ → Prop} {f : Input → Parser γ}
    {h : Input → Parser δ}
    (next : ∀ i j, i.rest.length = j.rest.length → Follows .bare others (f i) (h j)) :
    Follows .bare others (get >>= f) (get >>= h) :=
  same_get_bind fun i j prolongs => next i j (Input.Prolongs.alike prolongs).length_eq

/-- Both readers see the same next. -/
theorem same_sees_bind {γ δ : Type} {others : γ → δ → Prop} {f : Input → Parser γ}
    {h : Input → Parser δ}
    (next : ∀ i j, sees i.rest = sees j.rest → Follows .bare others (f i) (h j)) :
    Follows .bare others (get >>= f) (get >>= h) :=
  same_get_bind fun i j prolongs => next i j (funext (sees_alike (Input.Prolongs.alike prolongs)))

theorem binaryOperator?_eq {ahead ahead' : List Lexeme} (same : sees ahead = sees ahead') :
    binaryOperator? ahead = binaryOperator? ahead' := by
  simp only [binaryOperator?, same]

theorem same_peekPrecedence : Follows .bare Eq peekPrecedence peekPrecedence := by
  refine same_sees_bind fun i j same => ?_
  simp only [binaryOperator?_eq same, same]
  cases binaryOperator? j.rest with
  | some found => exact follows_pure rfl
  | none => exact .ite (follows_pure rfl) (.ite (follows_pure rfl) (.ite (follows_pure rfl)
      (follows_pure rfl)))

theorem same_endsRange (braces : Bool) : Follows .bare Eq (endsRange braces) (endsRange braces) :=
  same_atEnd.bind fun _ => .ite (follows_pure rfl) (same_seesOperator.bind fun _ =>
    same_seesOperator.bind fun _ => .ite (follows_pure rfl) (same_peek.bind fun _ =>
    .ite (follows_pure rfl) same_peekAny))

theorem same_rangeLimits : Follows .bare Eq rangeLimits rangeLimits :=
  same_seesOperator.bind fun _ => .ite (follows_operator.bind fun _ => follows_pure rfl)
    (same_seesOperator.bind fun _ => same_seesOperator.bind fun _ =>
      .ite (follows_operator.bind fun _ => follows_pure rfl) follows_failExpecting)

theorem same_checkCast : Follows .bare Eq checkCast checkCast := by
  refine same_seesOperator.bind fun _ => same_seesOperator.bind fun _ => .ite ?_
    (same_seesOperator.bind fun _ => .ite follows_fail (same_peek.bind fun _ => .ite follows_fail
    (same_peek.bind fun _ => .ite follows_fail (follows_pure rfl))))
  exact same_peek2.bind fun _ => .ite follows_fail (same_peek2.bind fun _ => same_peek3.bind fun _ =>
    same_peek3.bind fun _ => .ite follows_fail follows_fail)

theorem same_operand (deeper : Deeper g g') (braces : Bool) :
    Follows .bare Eq (g.operand braces) (g'.operand braces) :=
  deeper.parse (.operand braces)

theorem same_climb (deeper : Deeper g g') (braces : Bool) (fuel : Nat) (step : Climb) :
    Follows .bare Eq (climb g braces fuel step) (climb g' braces fuel step) := by
  induction fuel generalizing step with
  | zero => exact follows_fail
  | succ fuel ih =>
    cases step with
    | right precedence => exact (same_operand deeper braces).bind fun _ => ih _
    | tighten operand precedence =>
      refine same_peekPrecedence.bind fun _ => .ite ?_ (follows_pure rfl)
      refine same_length_bind fun i j same => (ih _).bind fun _ => same_length_bind fun k l same' => ?_
      rw [same, same']
      exact .ite (follows_pure rfl) (ih _)
    | onward left base =>
      refine .ite (follows_pure rfl) (same_sees_bind fun i j same => ?_)
      rw [binaryOperator?_eq same]
      cases binaryOperator? j.rest with
      | some found =>
        refine .ite (follows_pure rfl) (.ite follows_fail_bind ?_)
        exact follows_operator.bind fun _ => (ih _).bind fun _ => ih _
      | none =>
        refine same_seesOperator.bind fun _ => same_seesOperator.bind fun _ => .ite ?_
          (same_seesOperator.bind fun _ => .ite ?_ (follows_seesWord.bind fun _ => .ite ?_
          (follows_pure rfl)))
        · exact follows_operator.bind fun _ => (ih _).bind fun _ => ih _
        · exact same_rangeLimits.bind fun ⟨_, _⟩ => (same_endsRange braces).bind fun _ =>
            .ite (ih _) ((ih _).bind fun _ => ih _)
        · exact follows_word.bind fun _ => (deeper.type _ false).bind fun _ =>
            same_checkCast.bind fun _ => ih _

theorem same_climbFuel : Follows .bare Eq climbFuel climbFuel :=
  same_length_bind fun _ _ same => by rw [same]; exact follows_pure rfl

theorem same_continued (deeper : Deeper g g') (braces : Bool) (left : Expression)
    (base : Precedence) :
    Follows .bare Eq (continued g braces left base) (continued g' braces left base) :=
  same_climbFuel.bind fun _ => same_climb deeper braces _ _

theorem same_rangeEnd (deeper : Deeper g g') (braces closed : Bool) :
    Follows .bare Eq (rangeEnd g braces closed) (rangeEnd g' braces closed) :=
  (same_endsRange braces).bind fun _ => .ite (follows_pure rfl) (same_climbFuel.bind fun _ =>
    (same_climb deeper braces _ _).bind fun _ => follows_pure rfl)

theorem same_expressionOf (deeper : Deeper g g') (braces : Bool) :
    Follows .bare Eq (expressionOf g braces) (expressionOf g' braces) :=
  (same_operand deeper braces).bind fun _ => same_continued deeper braces _ _

theorem same_beginsExpression : Follows .bare Eq beginsExpression beginsExpression := by
  refine same_get_bind fun i j prolongs => ?_
  have next : sees i.rest = sees j.rest := funext (sees_alike (Input.Prolongs.alike prolongs))
  refine follows_pure ?_
  simp only [next, Input.Prolongs.seesAnyWord_eq prolongs Context.bare.ends]

end Operators

section Parts

theorem same_expressionList (deeper : Deeper g g') :
    Follows .bare Eq (expressionList g) (expressionList g') :=
  same_commaList (same_expression deeper)

theorem same_condition (deeper : Deeper g g') : Follows .bare Eq g.condition g'.condition :=
  (same_expressionWith deeper false).bind fun _ => follows_pure rfl

theorem same_statements (deeper : Deeper g g') : Follows .bare Eq g.statements g'.statements :=
  deeper.parse .statements

theorem same_fieldOfPart (start start' : Position) (part : String) :
    Follows .bare Eq (fieldOfPart start part) (fieldOfPart start' part) := by
  unfold fieldOfPart
  rcases Literal.integer? part with _ | ⟨value, _ | _⟩
  · exact follows_failAt
  · exact .ite (follows_pure rfl) follows_failAt
  · exact follows_failAt

theorem same_afterDotMember (deeper : Deeper g g') :
    Follows .bare Eq (afterDot.member g) (afterDot.member g') := by
  have ended (name : Token) (isName : Bool) (turbofish : List Tree) : Follows .bare Eq
      (do
        if isName && (!turbofish.isEmpty || (← peek (.group .parenthesis))) then
          let args ← groupedTree .parenthesis (expressionList g)
          return .token name :: (turbofish ++ [args])
        else return [.token name])
      (do
        if isName && (!turbofish.isEmpty || (← peek (.group .parenthesis))) then
          let args ← groupedTree .parenthesis (expressionList g')
          return .token name :: (turbofish ++ [args])
        else return [.token name]) := by
    refine same_peek.bind fun _ => .ite ?_ (follows_pure rfl)
    exact (follows_groupedTree (same_expressionList deeper)).bind fun _ => follows_pure rfl
  refine follows_seesWord.bind fun _ => .ite (follows_word.bind fun _ => follows_pure rfl) ?_
  refine same_fieldMember.bind fun name => same_seesOperator.bind fun _ => .ite ?_
    (follows_pure_bind (ended _ _ _))
  refine follows_operator.bind fun _ => (follows_genericArguments deeper).bind fun tree => ?_
  cases tree with
  | arguments turbofish items trailing => exact follows_pure_bind (ended _ _ _)
  | _ => exact follows_pure_bind (ended _ _ _)

theorem same_afterDot (deeper : Deeper g g') : Follows .bare Eq (afterDot g) (afterDot g') := by
  refine follows_place_bind fun start start' => same_get_bind fun i j prolongs => ?_
  have ahead := Input.Prolongs.alike prolongs
  generalize i.rest = rest at ahead ⊢
  generalize j.rest = rest' at ahead ⊢
  cases ahead with
  | leaf token place place' later =>
    cases token with
    | literal spelling =>
      refine .ite (same_skip.bind fun _ => ?_) (same_afterDotMember deeper)
      refine (same_mapM (same_fieldOfPart start start')).bind fun _ => .ite ?_ (follows_pure rfl)
      exact (same_afterDotMember deeper).bind fun _ => follows_pure rfl
    | _ => exact same_afterDotMember deeper
  | _ => exact same_afterDotMember deeper

theorem same_trailer? (deeper : Deeper g g') (isRange : Bool) :
    Follows .bare Eq (trailer? g isRange) (trailer? g' isRange) := by
  refine same_peek.bind fun _ => .ite ?arguments (same_seesOperator.bind fun _ =>
    same_seesOperator.bind fun _ => .ite ?member (same_peek.bind fun _ => .ite ?index
    (same_seesOperator.bind fun _ => .ite (follows_operator.bind fun _ => follows_pure rfl)
    (follows_pure rfl))))
  case arguments =>
    exact (follows_groupedTree (same_expressionList deeper)).bind fun _ => follows_pure rfl
  case member =>
    exact follows_operator.bind fun _ => (same_afterDot deeper).bind fun _ => follows_pure rfl
  case index =>
    refine (follows_groupedTree ?_).bind fun _ => follows_pure rfl
    exact (same_expression deeper).bind fun _ => follows_pure rfl

theorem same_trailers (deeper : Deeper g g') (atom : Expression) :
    Follows .bare Eq (trailers g atom) (trailers g' atom) :=
  (same_repeated (same_trailer? deeper _)).bind fun _ => .ite (follows_pure rfl) (follows_pure rfl)

end Parts

section Blocks

theorem same_label : Follows .bare Eq label label :=
  follows_lifetime.bind fun _ => follows_operator.bind fun _ => follows_pure rfl

theorem same_branch (deeper : Deeper g g') :
    Follows .bare Eq (conditional.branch g) (conditional.branch g') :=
  follows_word.bind fun _ => (same_condition deeper).bind fun _ =>
    (follows_groupedTree (same_statements deeper)).bind fun _ => follows_pure rfl

theorem same_branchesUpTo (deeper : Deeper g g') (n : Nat) :
    Follows .bare Eq (conditional.branchesUpTo g n) (conditional.branchesUpTo g' n) := by
  induction n with
  | zero => exact follows_pure rfl
  | succ n ih =>
    refine follows_seesWord.bind fun _ => .ite (follows_pure rfl) (follows_word.bind fun _ =>
      follows_seesWord.bind fun _ => .ite ?_ (same_peek.bind fun _ => .ite ?_ follows_failExpecting))
    · exact (same_branch deeper).bind fun _ => ih.bind fun _ => follows_pure rfl
    · exact (follows_groupedTree (same_statements deeper)).bind fun _ => follows_pure rfl

theorem same_conditional (deeper : Deeper g g') :
    Follows .bare Eq (conditional g) (conditional g') :=
  (same_branch deeper).bind fun _ => Follows.bindHere
    (follows_bare_fuel fun n => same_branchesUpTo deeper n) fun _ => follows_pure rfl

theorem same_whileLoop (deeper : Deeper g g') : Follows .bare Eq (whileLoop g) (whileLoop g') :=
  follows_word.bind fun _ => (same_condition deeper).bind fun _ => follows_blockAfter deeper _

theorem same_forLoop (deeper : Deeper g g') : Follows .bare Eq (forLoop g) (forLoop g') := by
  refine follows_word.bind fun _ => same_bind (same_alternatives deeper) fun _ _ same =>
    follows_word.bind fun _ => (same_condition deeper).bind fun _ => ?_
  rw [same.tree]
  exact follows_blockAfter deeper _

theorem same_endlessLoop (deeper : Deeper g g') :
    Follows .bare Eq (endlessLoop g) (endlessLoop g') :=
  follows_word.bind fun _ => follows_blockAfter deeper _

theorem same_wordBlock (deeper : Deeper g g') (text : String) :
    Follows .bare Eq (wordBlock g text) (wordBlock g' text) :=
  follows_word.bind fun _ => follows_blockAfter deeper _

theorem same_tryBlock (deeper : Deeper g g') : Follows .bare Eq (tryBlock g) (tryBlock g') :=
  follows_word.bind fun _ => (follows_groupedTree (same_statements deeper)).bind fun _ =>
    follows_pure rfl

theorem same_labelled (deeper : Deeper g g') : Follows .bare Eq (labelled g) (labelled g') := by
  have ended (before : List Tree) (body : Tree) : Follows .bare Eq
      (pure (Tree.seq (before ++ [body]))) (pure (Tree.seq (before ++ [body]))) := follows_pure rfl
  exact same_label.bind fun before => follows_seesWord.bind fun _ => follows_seesWord.bind fun _ =>
    follows_seesWord.bind fun _ => same_peek.bind fun _ =>
    .ite ((same_whileLoop deeper).bind (ended before)) (.ite ((same_forLoop deeper).bind (ended before))
    (.ite ((same_endlessLoop deeper).bind (ended before)) (.ite ((same_block deeper).bind (ended before))
    follows_fail_bind)))

theorem same_asyncBlock (deeper : Deeper g g') : Follows .bare Eq (asyncBlock g) (asyncBlock g') :=
  follows_word.bind fun _ => follows_word?.bind fun _ =>
    (follows_groupedTree (same_statements deeper)).bind fun _ => follows_pure rfl

end Blocks

section Closures

theorem same_closureParameter (deeper : Deeper g g') :
    Follows .bare Eq (closureParameter g) (closureParameter g') := by
  refine same_bind (follows_outerAttributes deeper) fun _ _ attributes => ?_
  rw [Attribute.Alike.outer_eq attributes]
  refine same_bind (same_pattern deeper) fun _ _ same => ?_
  rw [same.tree]
  refine same_seesOperator.bind fun _ => .ite ?_ (follows_pure rfl)
  exact follows_operator.bind fun _ => (deeper.type _ true).bind fun _ => follows_pure rfl

theorem same_closure (deeper : Deeper g g') (braces : Bool) :
    Follows .bare Eq (closure g braces) (closure g' braces) := by
  refine (follows_binder? deeper).bind fun _ => follows_word?.bind fun _ => follows_word?.bind fun _ =>
    follows_word?.bind fun _ => follows_word?.bind fun _ => follows_operator.bind fun _ =>
    (same_punctuated same_seesOperator (same_closureParameter deeper)).bind fun ⟨_, _⟩ =>
    follows_operator.bind fun _ => same_seesOperator.bind fun _ => .ite ?_ ?_
  · exact follows_operator.bind fun _ => (deeper.type _ true).bind fun _ =>
      (follows_groupedTree (same_statements deeper)).bind fun _ => follows_pure_bind (follows_pure rfl)
  · exact (same_expressionWith deeper braces).bind fun _ => follows_pure_bind (follows_pure rfl)

end Closures

section Atoms

theorem same_fieldInitializer (deeper : Deeper g g') :
    Follows .bare Eq (fieldInitializer g) (fieldInitializer g') := by
  refine same_bind (follows_outerAttributes deeper) fun _ _ attributes => ?_
  rw [Attribute.Alike.outer_eq attributes]
  refine same_fieldMember.bind fun _ => same_seesOperator.bind fun _ => .ite ?_ (follows_pure rfl)
  exact follows_operator.bind fun _ => (same_expression deeper).bind fun _ => follows_pure rfl

theorem same_initializersUpTo (deeper : Deeper g g') (n : Nat) :
    Follows .bare Eq (initializersUpTo g n) (initializersUpTo g' n) := by
  induction n with
  | zero => exact follows_pure rfl
  | succ n ih =>
    refine same_atEnd.bind fun _ => .ite (follows_pure rfl) (same_seesOperator.bind fun _ =>
      .ite ?_ ((same_fieldInitializer deeper).bind fun _ => same_atEnd.bind fun _ =>
      .ite (follows_pure rfl) ?_))
    · exact follows_operator.bind fun _ => same_atEnd.bind fun _ => .ite (follows_pure rfl)
        ((same_expression deeper).bind fun _ => follows_pure rfl)
    · exact follows_operator.bind fun _ => ih.bind fun _ => follows_pure rfl

theorem same_pathExpression (deeper : Deeper g g') (braces : Bool) :
    Follows .bare Eq (pathExpression g braces) (pathExpression g' braces) := by
  refine (follows_qualifiedPath deeper true).bind fun name => same_seesOperator.bind fun _ =>
    same_seesOperator.bind fun _ => .ite ?_ (same_peek.bind fun _ => .ite ?_ (follows_pure rfl))
  · exact (follows_invocation name).bind fun ⟨_, _⟩ => follows_pure rfl
  · exact (follows_grouped (follows_bare_fuel fun n => same_initializersUpTo deeper n)).bind fun _ =>
      follows_pure rfl

theorem same_arrayExpression (deeper : Deeper g g') :
    Follows .bare Eq (arrayExpression g) (arrayExpression g') := by
  have expression := same_expression deeper
  refine follows_groupedTree (same_atEnd.bind fun _ => .ite (follows_pure rfl)
    (expression.bind fun _ => same_atEnd.bind fun _ => .ite (follows_pure rfl)
    (same_seesOperator.bind fun _ => .ite ?_ (same_seesOperator.bind fun _ => .ite ?_ follows_fail))))
  · exact follows_operator.bind fun _ => (same_expressionList deeper).bind fun _ => follows_pure rfl
  · exact follows_operator.bind fun _ => expression.bind fun _ => follows_pure rfl

theorem same_builtin : Follows .bare Eq builtin builtin := by
  have read : Follows .bare Eq
      (do
        let _ ← word "builtin"
        let _ ← operator "#"
        let _ ← identifier
        let _ ← grouped .parenthesis remaining)
      (do
        let _ ← word "builtin"
        let _ ← operator "#"
        let _ ← identifier
        let _ ← grouped .parenthesis remaining) :=
    follows_word.bind fun _ => follows_operator.bind fun _ => follows_identifier.bind fun _ =>
      (follows_grouped same_remaining).bind fun _ => follows_pure rfl
  exact same_verbatim read

theorem same_breakExpression (deeper : Deeper g g') (braces : Bool) :
    Follows .bare Eq (breakExpression g braces) (breakExpression g' braces) := by
  refine follows_word.bind fun _ => follows_place_bind fun _ _ => same_peek.bind fun _ =>
    same_peek2.bind fun _ => .ite ?_ ?_
  · refine (same_expression deeper).bind fun _ => follows_failAt_bind
  · refine follows_lifetime?.bind fun _ => same_beginsExpression.bind fun _ => same_peek.bind fun _ =>
      .ite ?_ (follows_pure_bind (follows_pure rfl))
    exact (same_expressionWith deeper braces).bind fun _ => follows_pure_bind (follows_pure rfl)

theorem same_withValue (deeper : Deeper g g') (text : String) :
    Follows .bare Eq (withValue g text) (withValue g' text) :=
  follows_word.bind fun _ => same_beginsExpression.bind fun _ =>
    .ite ((same_expression deeper).bind fun _ => follows_pure rfl) (follows_pure rfl)

theorem same_letExpression (deeper : Deeper g g') (braces : Bool) :
    Follows .bare Eq (letExpression g braces) (letExpression g' braces) := by
  refine follows_word.bind fun _ => same_bind (same_alternatives deeper) fun _ _ same => ?_
  rw [same.tree]
  exact follows_operator.bind fun _ => (same_operand deeper braces).bind fun _ =>
    (same_continued deeper braces _ _).bind fun _ => follows_pure rfl

theorem same_arm (deeper : Deeper g g') : Follows .bare Eq (arm g) (arm g') := by
  have ended (attributes : List Tree) (matched : Tree) (guard : List Tree) : Follows .bare Eq
      (do
        let arrow ← operator "=>"
        let body ← g.standalone
        let comma ←
          if body.form != .block && !(← atEnd) then some <$> operator "," else operator? ","
        return Tree.seq (attributes ++ matched :: (guard ++ [arrow, body.tree] ++ comma.toList)))
      (do
        let arrow ← operator "=>"
        let body ← g'.standalone
        let comma ←
          if body.form != .block && !(← atEnd) then some <$> operator "," else operator? ","
        return Tree.seq (attributes ++ matched :: (guard ++ [arrow, body.tree] ++ comma.toList))) := by
    have standalone : Follows .bare Eq g.standalone g'.standalone := deeper.parse .standalone
    exact follows_operator.bind fun _ => standalone.bind fun _ => same_atEnd.bind fun _ =>
      follows_choose follows_operator.map same_operator? fun _ => follows_pure rfl
  refine same_bind (follows_outerAttributes deeper) fun _ _ attributes => ?_
  rw [Attribute.Alike.outer_eq attributes]
  refine same_bind (same_alternatives deeper) fun _ _ same => follows_seesWord.bind fun _ => ?_
  rw [same.tree]
  refine .ite ?_ (follows_pure_bind (ended _ _ _))
  exact follows_word.bind fun _ => (same_expression deeper).bind fun _ => follows_pure_bind (ended _ _ _)

theorem same_choiceExpression (deeper : Deeper g g') :
    Follows .bare Eq (choiceExpression g) (choiceExpression g') := by
  refine follows_word.bind fun _ => (same_condition deeper).bind fun _ =>
    same_bind (follows_braced deeper (same_untilEnd (same_arm deeper))) fun ⟨_, _⟩ ⟨_, _⟩ same => ?_
  obtain ⟨attributes, rfl⟩ := same
  exact follows_pure (congrArg (Tree.block _ · _) (Attribute.Alike.inner_eq attributes))

theorem same_beginsClosure : Follows .bare Eq beginsClosure beginsClosure := by
  refine same_peekAny.bind fun _ => .ite (follows_pure rfl) (follows_seesWord.bind fun _ =>
    same_peek2.bind fun _ => same_peek3.bind fun _ => same_peek3.bind fun _ => .ite (follows_pure rfl)
    (follows_seesWord.bind fun _ => same_peek2.bind fun _ => .ite (follows_pure rfl) ?_))
  exact follows_seesWord.bind fun _ => same_peek2.bind fun _ => same_peek2.bind fun _ =>
    follows_pure rfl

/-- An expression of one form, as a tree. -/
theorem same_formed {p q : Parser Tree} (form : ExpressionForm) (first : Follows .bare Eq p q) :
    Follows .bare Eq (do return (⟨← p, form⟩ : Expression)) (do return (⟨← q, form⟩ : Expression)) :=
  first.bind fun _ => follows_pure rfl

theorem same_atom (deeper : Deeper g g') (braces : Bool) :
    Follows .bare Eq (atom g braces) (atom g' braces) := by
  have become : Follows .bare Eq
      (do
        let _ ← word "become"
        let _ ← g.expression)
      (do
        let _ ← word "become"
        let _ ← g'.expression) :=
    follows_word.bind fun _ => (same_expression deeper).bind fun _ => follows_pure rfl
  refine same_peek2.bind fun _ => same_peek2.bind fun _ => same_peek3.bind fun _ => ?_
  refine same_peek.bind fun _ => .ite (same_formed _ follows_literal) ?_
  refine follows_seesWord.bind fun _ => .ite (same_formed _ (same_asyncBlock deeper)) ?_
  refine follows_seesWord.bind fun _ => same_peek2.bind fun _ =>
    .ite (same_formed _ (same_tryBlock deeper)) ?_
  refine same_beginsClosure.bind fun _ => .ite (same_formed _ (same_closure deeper braces)) ?_
  refine follows_seesWord.bind fun _ => same_peek2.bind fun _ => .ite (same_formed _ same_builtin) ?_
  refine same_peekAny.bind fun _ => follows_seesWord.bind fun _ => same_peek2.bind fun _ =>
    same_peek2.bind fun _ => .ite (same_pathExpression deeper braces) ?_
  refine same_peek.bind fun _ =>
    .ite (same_formed _ (follows_groupedTree (same_expressionList deeper))) ?_
  refine follows_seesWord.bind fun _ => .ite (same_formed _ (same_breakExpression deeper braces)) ?_
  refine follows_seesWord.bind fun _ => .ite (follows_word.bind fun _ =>
    follows_lifetime?.bind fun _ => follows_pure rfl) ?_
  refine follows_seesWord.bind fun _ => .ite (same_formed _ (same_withValue deeper _)) ?_
  refine follows_seesWord.bind fun _ => .ite (same_formed _ (same_verbatim become)) ?_
  refine same_peek.bind fun _ => .ite (same_formed _ (same_arrayExpression deeper)) ?_
  refine follows_seesWord.bind fun _ => .ite (same_formed _ (same_letExpression deeper braces)) ?_
  refine follows_seesWord.bind fun _ => .ite (same_formed _ (same_conditional deeper)) ?_
  refine follows_seesWord.bind fun _ => .ite (same_formed _ (same_whileLoop deeper)) ?_
  refine follows_seesWord.bind fun _ => .ite (same_formed _ (same_forLoop deeper)) ?_
  refine follows_seesWord.bind fun _ => .ite (same_formed _ (same_endlessLoop deeper)) ?_
  refine follows_seesWord.bind fun _ => .ite (same_formed _ (same_choiceExpression deeper)) ?_
  refine follows_seesWord.bind fun _ => .ite (same_formed _ (same_withValue deeper _)) ?_
  refine follows_seesWord.bind fun _ => .ite (same_formed _ (same_wordBlock deeper _)) ?_
  refine follows_seesWord.bind fun _ => .ite (same_formed _ (same_wordBlock deeper _)) ?_
  refine same_peek.bind fun _ => .ite (same_formed _ (same_block deeper)) ?_
  refine same_seesOperator.bind fun _ => .ite (same_rangeLimits.bind fun ⟨_, _⟩ =>
    (same_rangeEnd deeper braces _).bind fun _ => follows_pure rfl) ?_
  refine follows_seesWord.bind fun _ => .ite (same_formed _ follows_word) ?_
  exact same_peek.bind fun _ => .ite (same_formed _ (same_labelled deeper)) follows_fail

theorem same_operandOf (deeper : Deeper g g') (braces : Bool) :
    Follows .bare Eq (operandOf g braces) (operandOf g' braces) := by
  have operand := same_operand deeper braces
  refine same_bind (follows_outerAttributes deeper) fun _ outer attributes => ?_
  rw [Attribute.Alike.outer_eq attributes]
  refine same_seesOperator.bind fun _ => .ite ?reference (same_peekAny.bind fun _ => .ite ?sign ?atom)
  case reference =>
    refine follows_operator.bind fun _ => follows_seesWord.bind fun _ => same_peek2.bind fun _ =>
      same_peek2.bind fun _ => .ite ?_ ?_
    · exact follows_word.bind fun _ => follows_anyWord.bind fun _ => follows_pure_bind
        (operand.bind fun _ => follows_pure rfl)
    · exact follows_word?.bind fun _ => follows_pure_bind (operand.bind fun _ => follows_pure rfl)
  case sign =>
    have ended (sign : Tree) : Follows .bare Eq
        (do
          let inner ← g.operand braces
          return (⟨.seq (Attribute.outer outer ++ [sign, inner.tree]), .plain⟩ : Expression))
        (do
          let inner ← g'.operand braces
          return (⟨.seq (Attribute.outer outer ++ [sign, inner.tree]), .plain⟩ : Expression)) :=
      operand.bind fun _ => follows_pure rfl
    exact same_seesOperator.bind fun _ => same_seesOperator.bind fun _ =>
      .ite (follows_operator.bind ended) (.ite (follows_operator.bind ended)
      (follows_operator.bind ended))
  case atom =>
    refine follows_place_bind fun _ _ => (same_atom deeper braces).bind fun _ =>
      (same_trailers deeper _).bind fun _ => .ite (follows_pure rfl) (.ite follows_failAt
      (follows_pure rfl))

theorem same_standaloneOf (deeper : Deeper g g') :
    Follows .bare Eq (standaloneOf g) (standaloneOf g') := by
  refine same_bind (follows_outerAttributes deeper) fun _ outer attributes => ?_
  rw [Attribute.Alike.outer_eq attributes]
  have ended (first : Expression) (put : Expression → Expression) : Follows .bare Eq
      (do
        if first.form != .block then continued g true (put first) .lowest
        else if ((← seesOperator ".") && !(← seesOperator "..")) || (← seesOperator "?") then
          continued g true (put (← trailers g first)) .lowest
        else return put first)
      (do
        if first.form != .block then continued g' true (put first) .lowest
        else if ((← seesOperator ".") && !(← seesOperator "..")) || (← seesOperator "?") then
          continued g' true (put (← trailers g' first)) .lowest
        else return put first) := by
    refine .ite (same_continued deeper true _ _) (same_seesOperator.bind fun _ =>
      same_seesOperator.bind fun _ => same_seesOperator.bind fun _ => .ite ?_ (follows_pure rfl))
    exact (same_trailers deeper first).bind fun _ => same_continued deeper true _ _
  have block {p q : Parser Tree} (first : Follows .bare Eq p q) :=
    (same_formed .block first).bind fun first => ended first fun e =>
      if (Attribute.outer outer).isEmpty then e
      else ⟨attributed (Attribute.outer outer) e.tree, e.form⟩
  -- The tests come first, and then a choice by their answers.
  refine follows_seesWord.bind fun _ => same_peek2.bind fun _ => same_peek3.bind fun _ =>
    same_peek3.bind fun _ => follows_seesWord.bind fun _ => follows_seesWord.bind fun _ =>
    follows_seesWord.bind fun _ => follows_seesWord.bind fun _ => follows_seesWord.bind fun _ =>
    follows_seesWord.bind fun _ => same_peek2.bind fun _ => follows_seesWord.bind fun _ =>
    follows_seesWord.bind fun _ => same_peek2.bind fun _ => same_peek.bind fun _ =>
    same_peek.bind fun _ => ?_
  refine .ite (block (same_conditional deeper)) (.ite (block (same_whileLoop deeper))
    (.ite (block (same_forLoop deeper)) (.ite (block (same_endlessLoop deeper))
    (.ite (block (same_choiceExpression deeper)) (.ite (block (same_tryBlock deeper))
    (.ite (block (same_wordBlock deeper _)) (.ite (block (same_wordBlock deeper _))
    (.ite (block (same_block deeper)) (.ite (block (same_labelled deeper)) ?_)))))))))
  exact (same_operand deeper true).bind fun _ => ended _ _

end Atoms

end Forwarding.Grammar.Parser
