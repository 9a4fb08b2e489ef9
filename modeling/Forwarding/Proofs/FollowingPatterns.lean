import Forwarding.Grammar.Pattern
import Forwarding.Proofs.FollowingTypes
/-!
Patterns on the same tokens, below a grammar and below a deeper one.
-/

namespace Forwarding.Grammar.Parser

variable {g g' : Grammar}

theorem same_pattern (deeper : Deeper g g') : Follows .bare Pattern.Alike g.pattern g'.pattern :=
  deeper.parse .pattern

theorem same_block (deeper : Deeper g g') : Follows .bare Eq (block g) (block g') :=
  follows_blockAfter deeper []

theorem same_seesAlternative : Follows .bare Eq seesAlternative seesAlternative :=
  same_seesOperator.bind fun _ => same_peekAny.bind fun _ => follows_pure rfl

theorem same_alternatives (deeper : Deeper g g') :
    Follows .bare Pattern.Alike (alternatives g) (alternatives g') := by
  have more : Follows .bare Eq
      (repeated do
        if ← seesAlternative then
          let _ ← operator "|"
          return some (← g.pattern).tree
        else return none)
      (repeated do
        if ← seesAlternative then
          let _ ← operator "|"
          return some (← g'.pattern).tree
        else return none) := by
    refine same_repeated (same_seesAlternative.bind fun _ => .ite (follows_operator.bind fun _ => ?_)
      (follows_pure rfl))
    exact same_bind (same_pattern deeper) fun _ _ same => follows_pure (congrArg some same.tree)
  refine same_operator?.bind fun _ => same_bind (same_pattern deeper) fun _ _ same =>
    more.bind fun _ => .ite (follows_pure ⟨?_, rfl⟩) (follows_pure same)
  rw [same.tree]

theorem same_alternativesTree (deeper : Deeper g g') :
    Follows .bare Eq (do return (← alternatives g).tree) (do return (← alternatives g').tree) :=
  same_bind (same_alternatives deeper) fun _ _ same => follows_pure same.tree

theorem same_patternList (deeper : Deeper g g') :
    Follows .bare Eq (patternList g) (patternList g') :=
  same_commaList (same_alternativesTree deeper)

theorem same_patternLimits : Follows .bare Eq patternLimits patternLimits := by
  refine same_seesOperator.bind fun _ => .ite (follows_operator.bind fun _ => follows_pure rfl)
    (same_seesOperator.bind fun _ => .ite ?_ (same_seesOperator.bind fun _ => .ite ?_
    follows_failExpecting))
  · exact follows_operator.bind fun _ => follows_pure rfl
  · exact follows_operator.bind fun _ => follows_pure rfl

theorem same_endsPattern : Follows .bare Eq endsPattern endsPattern :=
  same_atEnd.bind fun _ => .ite (follows_pure rfl) (same_peekAny.bind fun _ =>
    .ite (follows_pure rfl) (same_seesOperator.bind fun _ => same_seesOperator.bind fun _ =>
      follows_pure rfl))

theorem same_rangeBound? (deeper : Deeper g g') :
    Follows .bare Eq (rangeBound? g) (rangeBound? g') := by
  refine same_endsPattern.bind fun _ => .ite (follows_pure rfl) (same_peek.bind fun _ =>
    .ite follows_literal.map (same_peekAny.bind fun _ => .ite (follows_qualifiedPath deeper true).map
      (follows_seesWord.bind fun _ => .ite ?_ follows_failExpecting)))
  exact follows_word.bind fun _ => (same_block deeper).bind fun _ => follows_pure rfl

theorem same_rangeAfter (deeper : Deeper g g') (start : Tree) :
    Follows .bare Pattern.Alike (rangeAfter g start) (rangeAfter g' start) := by
  refine follows_place_bind fun _ _ => same_patternLimits.bind fun ⟨_, _⟩ =>
    (same_rangeBound? deeper).bind fun stop => ?_
  cases stop with
  | some _ => exact follows_pure (.refl _)
  | none => exact .ite follows_fail (follows_pure ⟨rfl, rfl⟩)

theorem same_rangeStop (deeper : Deeper g g') (sign : Tree) (closed : Bool)
    (dots dots' : Position) : Follows .bare Pattern.Alike
      (rangeBound? g >>= fun stop => match stop with
        | some stop => pure ⟨.seq [sign, stop], .openRange dots⟩
        | none => if closed then fail (.expected [.phrase "range upper bound"])
          else pure ⟨sign, .rest⟩)
      (rangeBound? g' >>= fun stop => match stop with
        | some stop => pure ⟨.seq [sign, stop], .openRange dots'⟩
        | none => if closed then fail (.expected [.phrase "range upper bound"])
          else pure ⟨sign, .rest⟩) := by
  refine (same_rangeBound? deeper).bind fun stop => ?_
  cases stop with
  | some _ => exact follows_pure ⟨rfl, rfl⟩
  | none => exact .ite follows_fail (follows_pure (.refl _))

theorem same_rangeFrom (deeper : Deeper g g') :
    Follows .bare Pattern.Alike (rangeFrom g) (rangeFrom g') :=
  follows_place_bind fun _ _ => same_seesOperator.bind fun _ =>
    .ite (follows_operator.bind fun _ => same_rangeStop deeper _ _ _ _)
      (follows_operator.bind fun _ => same_rangeStop deeper _ _ _ _)

theorem same_tupleIndex : Follows .bare Eq tupleIndex tupleIndex := by
  refine follows_place_bind fun _ _ => follows_integerLiteral.bind fun ⟨_, spelling⟩ => ?_
  dsimp only
  rcases Literal.integer? spelling with _ | ⟨value, _ | _⟩
  · exact follows_failAt
  · exact .ite follows_failAt (.ite (follows_pure rfl) follows_failAt)
  · exact follows_failAt

theorem same_fieldMember : Follows .bare Eq fieldMember fieldMember :=
  same_peek.bind fun _ => .ite (follows_identifier.bind fun _ => follows_pure rfl)
    (same_peek.bind fun _ => .ite same_tupleIndex follows_fail)

theorem same_fieldPattern (deeper : Deeper g g') :
    Follows .bare Eq (fieldPattern g) (fieldPattern g') := by
  refine follows_word?.bind fun _ => follows_word?.bind fun _ => follows_word?.bind fun _ =>
    .ite (follows_identifier.bind fun _ => follows_pure rfl) (same_fieldMember.bind fun _ =>
      same_seesOperator.bind fun _ => .ite (follows_operator.bind fun _ => ?_) (follows_pure rfl))
  exact same_bind (same_alternatives deeper) fun _ _ same => follows_pure (by rw [same.tree])

theorem same_fieldPatterns (deeper : Deeper g g') (n : Nat) :
    Follows .bare Eq (fieldPatterns g n) (fieldPatterns g' n) := by
  induction n with
  | zero => exact follows_pure rfl
  | succ n ih =>
    refine same_atEnd.bind fun _ => .ite (follows_pure rfl)
      (same_bind (follows_outerAttributes deeper) fun _ _ attributes => ?_)
    rw [Attribute.Alike.outer_eq attributes]
    refine same_seesOperator.bind fun _ => .ite (follows_operator.bind fun _ => follows_pure rfl)
      ((same_fieldPattern deeper).bind fun _ => same_atEnd.bind fun _ => .ite (follows_pure rfl) ?_)
    exact follows_operator.bind fun _ => ih.bind fun _ => follows_pure rfl

theorem same_pathPattern (deeper : Deeper g g') :
    Follows .bare Pattern.Alike (pathPattern g) (pathPattern g') := by
  refine (follows_qualifiedPath deeper true).bind fun name => same_seesOperator.bind fun _ =>
    same_seesOperator.bind fun _ => .ite ?_ (same_peek.bind fun _ => .ite ?_ (same_peek.bind fun _ =>
    .ite ?_ (same_seesOperator.bind fun _ => .ite (same_rangeAfter deeper name)
      (follows_pure (.refl _)))))
  · exact (follows_invocation name).bind fun _ => follows_pure (.refl _)
  · refine (follows_groupedTree ?_).bind fun _ => follows_pure (.refl _)
    exact follows_bare_fuel fun n => same_fieldPatterns deeper n
  · exact (follows_groupedTree (same_patternList deeper)).bind fun _ => follows_pure (.refl _)

theorem same_bindingPattern (deeper : Deeper g g') :
    Follows .bare Pattern.Alike (bindingPattern g) (bindingPattern g') := by
  have ended (byRef mutable : Option Tree) (name : String) : Follows .bare Pattern.Alike
      (do
        let modifiers := byRef.toList ++ mutable.toList
        if ← seesOperator "@" then
          let _ ← operator "@"
          let inner ← g.pattern
          return ⟨.seq (modifiers ++ [Tree.word name, .operator "@", inner.tree]), .plain⟩
        else
          return ⟨.seq (modifiers ++ [Tree.word name]),
            if byRef.isNone then .binding name else .plain⟩)
      (do
        let modifiers := byRef.toList ++ mutable.toList
        if ← seesOperator "@" then
          let _ ← operator "@"
          let inner ← g'.pattern
          return ⟨.seq (modifiers ++ [Tree.word name, .operator "@", inner.tree]), .plain⟩
        else
          return ⟨.seq (modifiers ++ [Tree.word name]),
            if byRef.isNone then .binding name else .plain⟩) := by
    refine same_seesOperator.bind fun _ => .ite (follows_operator.bind fun _ => ?_)
      (follows_pure (.refl _))
    exact same_bind (same_pattern deeper) fun _ _ same => follows_pure ⟨by rw [same.tree], rfl⟩
  exact follows_word?.bind fun _ => follows_word?.bind fun _ => follows_seesWord.bind fun _ =>
    .ite (follows_anyWord.bind fun _ => ended _ _ _) (follows_identifier.bind fun _ => ended _ _ _)

theorem same_slicedPattern (deeper : Deeper g g') :
    Follows .bare Eq (slicedPattern g) (slicedPattern g') := by
  refine same_bind (same_alternatives deeper) fun a b same => ?_
  obtain ⟨tree, form⟩ := a
  obtain ⟨tree', form'⟩ := b
  obtain ⟨rfl, still⟩ := same
  dsimp only at still ⊢
  cases form <;> cases form' <;> first | exact follows_failAt | exact follows_pure rfl | cases still

theorem same_patternOf (deeper : Deeper g g') :
    Follows .bare Pattern.Alike (patternOf g) (patternOf g') := by
  refine same_get_bind fun i j prolongs => ?_
  have next : sees (skipOne i.rest) = sees (skipOne j.rest) :=
    funext fun e => sees_alike (skipOne_alike (Input.Prolongs.alike prolongs)) e
  refine same_peek.bind fun _ => follows_seesWord.bind fun _ => same_peekAny.bind fun _ => ?_
  rw [next]
  refine .ite (same_pathPattern deeper) (follows_seesWord.bind fun _ => .ite
      (follows_word.bind fun _ => follows_pure (.refl _)) (follows_seesWord.bind fun _ => .ite ?box
      (same_peekAny.bind fun _ => .ite ?range (same_peekAny.bind fun _ =>
      .ite (same_bindingPattern deeper) (same_seesOperator.bind fun _ => .ite ?reference
      (same_peek.bind fun _ => .ite ?tuple (same_peek.bind fun _ => .ite ?slice
      (same_seesOperator.bind fun _ => same_seesOperator.bind fun _ =>
        .ite (same_rangeFrom deeper) follows_failExpecting))))))))
  case box =>
    have boxed : Follows .bare Eq
        (do
          let _ ← word "box"
          let _ ← g.pattern)
        (do
          let _ ← word "box"
          let _ ← g'.pattern) :=
      follows_word.bind fun _ => same_bind (same_pattern deeper) fun _ _ _ => follows_pure rfl
    exact (same_verbatim boxed).bind fun _ => follows_pure (.refl _)
  case range =>
    refine (same_rangeBound? deeper).bind fun start => ?_
    cases start with
    | some start =>
      exact same_seesOperator.bind fun _ => .ite (same_rangeAfter deeper start)
        (follows_pure (.refl _))
    | none => exact follows_failExpecting
  case reference =>
    exact follows_operator.bind fun _ => follows_word?.bind fun _ =>
      same_bind (same_pattern deeper) fun _ _ same => follows_pure ⟨by rw [same.tree], rfl⟩
  case tuple =>
    exact (follows_groupedTree (same_patternList deeper)).bind fun _ => follows_pure (.refl _)
  case slice =>
    exact (follows_groupedTree (same_commaList (same_slicedPattern deeper))).bind fun _ =>
      follows_pure (.refl _)

end Forwarding.Grammar.Parser
