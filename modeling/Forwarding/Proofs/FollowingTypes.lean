import Forwarding.Grammar.Generics
import Forwarding.Proofs.FollowingPaths
/-!
Types before further lexemes. What is read as a type, a generic parameter or a predicate by itself is
read before a comma, a closing angle, a semicolon or braces as well.
-/

namespace Forwarding

/-- Parameters that are printed the same. -/
inductive GenericParameter.Alike : GenericParameter → GenericParameter → Prop
  | lifetime {attributes attributes' : List Attribute} (name : String) (bounds : List String)
      (trailing : Bool) (same : List.Forall₂ Attribute.Alike attributes attributes') :
      Alike (.lifetime attributes name bounds trailing) (.lifetime attributes' name bounds trailing)
  | type {attributes attributes' : List Attribute} (name : String) (bounds : List Tree)
      (trailing : Bool) (byDefault : Option Tree)
      (same : List.Forall₂ Attribute.Alike attributes attributes') :
      Alike (.type attributes name bounds trailing byDefault)
        (.type attributes' name bounds trailing byDefault)
  | const {attributes attributes' : List Attribute} (name : String) (type : Tree)
      (byDefault : Option Tree) (same : List.Forall₂ Attribute.Alike attributes attributes') :
      Alike (.const attributes name type byDefault) (.const attributes' name type byDefault)

theorem GenericParameter.Alike.refl (p : GenericParameter) : GenericParameter.Alike p p := by
  have same (attributes : List Attribute) : List.Forall₂ Attribute.Alike attributes attributes :=
    List.forall₂_same.mpr fun _ _ => ⟨rfl, rfl⟩
  cases p with
  | lifetime attributes => exact .lifetime _ _ _ (same attributes)
  | type attributes => exact .type _ _ _ _ (same attributes)
  | const attributes => exact .const _ _ _ (same attributes)

/-- Generic parameters that are printed the same. -/
structure Generics.Alike (a b : Generics) : Prop where
  params : List.Forall₂ GenericParameter.Alike a.params b.params
  trailing : a.trailing = b.trailing
  predicates : a.predicates = b.predicates
  predicatesTrailing : a.predicatesTrailing = b.predicatesTrailing

theorem Generics.Alike.refl (generics : Generics) : Generics.Alike generics generics :=
  ⟨List.forall₂_same.mpr fun _ _ => .refl _, rfl, rfl, rfl⟩

namespace Grammar.Parser

variable {c : Context} {g g' : Grammar}

section Types

theorem follows_invocation (name : Tree) :
    Follows c Eq (invocation name) (invocation name) :=
  follows_operator.bind fun _ => follows_anyGroup.bind fun ⟨_, _⟩ => follows_pure rfl

theorem follows_moreObjectBounds (deeper : Deeper g g') (first : Tree) :
    Follows c Eq (moreObjectBounds g first) (moreObjectBounds g' first) := by
  refine (follows_repeated (fun _ => ?_) fun {i a k} ran => ?_).bind fun _ => follows_pure rfl
  · refine (follows_seesOperator (.inl rfl)).bind fun _ => .ite ?_ (follows_pure rfl)
    exact follows_operator.bind fun _ => (deeper.bound _ false false).bind fun _ => follows_pure rfl
  · simp only [reads_bind, reads_seesOperator, existsAndEq, true_and] at ran
    split at ran
    · obtain ⟨_, _, first, ran⟩ := reads_bind.mp ran
      obtain ⟨_, l, read, ran⟩ := reads_bind.mp ran
      rw [(reads_pure.mp ran).1]
      exact Nat.lt_of_le_of_lt ((deeper.bound _ _ _).shrinks (c.upTo_ne_bare 0) read).length_le
        (reads_operator_shorter first)
    · simp at ran

theorem same_parenthesizedContent (deeper : Deeper g g') :
    Follows .bare Eq (parenthesizedType.content g) (parenthesizedType.content g') := by
  have type := deeper.parse (.type true)
  refine same_atEnd.bind fun _ => .ite (follows_pure rfl) (same_peek.bind fun _ => .ite
    (type.bind fun _ => follows_pure rfl) (same_seesOperator.bind fun _ => .ite ?_ ?_))
  · exact (follows_traitBound deeper false).bind fun ⟨_, _⟩ => follows_pure rfl
  · refine type.bind fun _ => same_seesOperator.bind fun _ => .ite ?_ (follows_pure rfl)
    exact follows_operator.bind fun _ => (same_commaList type).bind fun _ => follows_pure rfl

theorem follows_parenthesizedType (deeper : Deeper g g') (plus : Bool) :
    Follows c Eq (parenthesizedType g plus) (parenthesizedType g' plus) := by
  refine (follows_grouped (same_parenthesizedContent deeper)).bind fun ⟨_, kind⟩ => ?_
  cases kind with
  | complete => exact follows_pure rfl
  | relaxed => exact follows_moreObjectBounds deeper _
  | lone =>
    exact (follows_seesOperator (.inl rfl)).bind fun _ => .ite (follows_moreObjectBounds deeper _)
      (follows_pure rfl)

theorem same_expressionWith (deeper : Deeper g g') (braces : Bool) :
    Follows .bare Eq (g.expressionWith braces) (g'.expressionWith braces) :=
  deeper.parse (.expression braces)

theorem same_expression (deeper : Deeper g g') :
    Follows .bare Eq g.expression g'.expression :=
  (same_expressionWith deeper true).bind fun _ => follows_pure rfl

theorem follows_bracketedType (deeper : Deeper g g') :
    Follows c Eq (bracketedType g) (bracketedType g') := by
  refine follows_groupedTree ((deeper.type .bare true).bind fun _ => same_seesOperator.bind fun _ =>
    .ite ?_ (follows_pure rfl))
  exact follows_operator.bind fun _ => (same_expression deeper).bind fun _ => follows_pure rfl

theorem follows_convention : Follows c Eq convention convention := by
  refine follows_word.bind fun _ => (follows_peek (.inl rfl)).bind fun _ => .ite ?_
    (follows_pure rfl)
  exact follows_stringLiteral.bind fun ⟨_, _⟩ => follows_pure rfl

theorem follows_convention? : Follows c Eq convention? convention? :=
  follows_seesWord.bind fun _ => .ite follows_convention.map (follows_pure rfl)

theorem same_functionTypeParameter (deeper : Deeper g g') (first : Bool) :
    Follows .bare Eq (functionTypeParameter g first) (functionTypeParameter g' first) := by
  have type := deeper.type .bare true
  refine follows_seesWord.bind fun _ => same_peek2.bind fun _ => .ite ?_ ?_
  · have receiver : Follows .bare Eq (functionTypeParameter.mutableReceiver g)
        (functionTypeParameter.mutableReceiver g') := by
      refine follows_word.bind fun _ => follows_word.bind fun _ => same_seesOperator.bind fun _ =>
        same_seesOperator.bind fun _ => .ite ?_ (follows_pure rfl)
      exact follows_operator.bind fun _ => type.bind fun _ => follows_pure rfl
    exact (same_verbatim receiver).bind fun _ => follows_pure rfl
  · refine same_peekAny.bind fun _ => follows_seesWord.bind fun _ => same_peek2.bind fun _ =>
      same_peek2.bind fun _ => .ite ?_ (type.bind fun _ => follows_pure rfl)
    exact follows_anyWord.bind fun _ => follows_operator.bind fun _ => type.bind fun _ =>
      follows_pure rfl

theorem same_functionTypeParameters (deeper : Deeper g g') (first : Bool) (n : Nat) :
    Follows .bare Eq (functionTypeParameters g first n) (functionTypeParameters g' first n) := by
  induction n generalizing first with
  | zero => exact follows_pure rfl
  | succ n ih =>
    refine same_atEnd.bind fun _ => .ite (follows_pure rfl) ?_
    refine same_bind (follows_outerAttributes deeper) fun _ _ attributes => ?_
    rw [Attribute.Alike.outer_eq attributes]
    refine same_peekAny.bind fun _ => same_peek2.bind fun _ => same_peek3.bind fun _ =>
      same_seesOperator.bind fun _ => .ite ?_ ?_
    · refine .ite ?_ (follows_pure_bind ?_)
      · exact follows_anyWord.bind fun _ => follows_operator.bind fun _ => follows_pure_bind
          (follows_operator.bind fun _ => same_operator?.bind fun _ => follows_pure rfl)
      · exact follows_operator.bind fun _ => same_operator?.bind fun _ => follows_pure rfl
    · refine same_bind (follows_outerAttributes deeper) fun _ _ inner => ?_
      rw [Attribute.Alike.outer_eq inner]
      refine (same_functionTypeParameter deeper first).bind fun _ => same_atEnd.bind fun _ =>
        .ite (follows_pure rfl) ?_
      exact follows_operator.bind fun _ => (ih false).bind fun _ => follows_pure rfl

theorem follows_functionType (deeper : Deeper g g') :
    Follows c Eq (functionType g) (functionType g') := by
  refine follows_word?.bind fun _ => follows_convention?.bind fun _ => follows_word.bind fun _ =>
    (follows_groupedTree ?_).bind fun _ => (follows_output? deeper false).bind fun _ =>
    follows_pure rfl
  exact follows_bare_fuel fun n => same_functionTypeParameters deeper true n

theorem sumTests : ∀ e ∈ [Expectation.operator "::", .operator "?", .lifetime, .group .parenthesis],
    e.endsType = false := by
  decide

theorem follows_pathTypeBounds (deeper : Deeper g g') {n m : Nat} (enough : n ≤ m) :
    Follows (c.upTo n) Eq (pathType.boundsUpTo g n) (pathType.boundsUpTo g' m) := by
  induction n generalizing m with
  | zero =>
    refine follows_upTo_zero fun ran => ?_
    obtain ⟨rfl, -⟩ := reads_pure.mp ran
    exact List.suffix_rfl
  | succ n ih =>
    obtain ⟨m, rfl⟩ : ∃ k, m = k + 1 := ⟨m - 1, by omega⟩
    refine (deeper.bound _ false false).bind fun _ => (follows_seesOperator (.inl rfl)).bind
      fun _ => .ite (follows_pure rfl) (follows_operator_bind fun _ => ?_)
    refine (follows_peekAny fun e member => .inl (sumTests e member)).bind fun _ =>
      follows_seesAnyWord_bind fun i j same => ?_
    rw [same]
    refine .ite ?_ (follows_pure rfl)
    exact (ih (by omega)).bind fun ⟨_, _⟩ => follows_pure rfl

theorem follows_sumAfter (deeper : Deeper g g') (first : Tree) :
    Follows c Eq (pathType.sumAfter g first) (pathType.sumAfter g' first) := by
  refine (follows_seesOperator (.inl rfl)).bind fun _ => .ite (follows_pure rfl)
    (follows_operator.bind fun _ => ?_)
  refine (follows_peekAny fun e member => .inl (sumTests e member)).bind fun _ =>
    follows_seesAnyWord_bind fun i j same => ?_
  rw [same]
  refine .ite (follows_pure rfl) ?_
  exact Follows.bindHere (follows_fuel fun _ _ enough => follows_pathTypeBounds deeper enough)
    fun ⟨_, _⟩ => follows_pure rfl

theorem follows_pathType (deeper : Deeper g g') (plus : Bool) (binder : Option Tree) :
    Follows c Eq (pathType g plus binder) (pathType g' plus binder) := by
  refine (follows_qualifiedPath deeper false).bind fun name => ?_
  cases name with
  | path isGlobal segments =>
    refine (follows_seesOperator (.inl rfl)).bind fun _ => (follows_seesOperator (.inl rfl)).bind
      fun _ => .ite ?_ ?_
    · exact (follows_invocation _).bind fun _ => follows_pure rfl
    · refine (follows_seesOperator (.inl rfl)).bind fun _ => .ite ?_ (follows_pure rfl)
      exact .ite (follows_pure rfl) (follows_sumAfter deeper _)
  | _ => exact follows_pure rfl

theorem follows_objectBounds (deeper : Deeper g g') (plus : Bool) (start start' : Position) :
    Follows c Eq (objectBounds g plus start) (objectBounds g' plus start') :=
  (follows_typeBounds deeper plus false false).bind fun ⟨_, _⟩ =>
    .ite (follows_pure rfl) follows_failAt

theorem follows_dynType (deeper : Deeper g g') (plus : Bool) (start start' : Position) :
    Follows c Eq
      (do
        let before := (← get).rest
        let _ ← word "dyn"
        let star ← operator? "*"
        let bounds ← objectBounds g plus start
        if star.isSome then
          let after := (← get).rest
          return Tree.ofTokens (Lexeme.tokensOf (before.take (before.length - after.length)))
        else return Tree.seq (.word "dyn" :: bounds))
      (do
        let before := (← get).rest
        let _ ← word "dyn"
        let star ← operator? "*"
        let bounds ← objectBounds g' plus start'
        if star.isSome then
          let after := (← get).rest
          return Tree.ofTokens (Lexeme.tokensOf (before.take (before.length - after.length)))
        else return Tree.seq (.word "dyn" :: bounds)) := by
  refine follows_get_bind fun i j => follows_word.bind fun _ =>
    (follows_operator? (.inl rfl)).bind fun _ => (follows_objectBounds deeper plus _ _).bind fun _ =>
    .ite ?_ (follows_pure fun _ => rfl)
  exact follows_get_bind fun _ _ => follows_pure fun last first => by rw [first.tokensSince last]

theorem follows_pointerType (deeper : Deeper g g') :
    Follows c Eq
      (do
        let _ ← operator "*"
        let mode ←
          if ← seesWord "const" then word "const"
          else if ← seesWord "mut" then word "mut"
          else failExpecting [.word "const", .word "mut"]
        return Tree.seq [.operator "*", mode, ← g.typeWithoutPlus])
      (do
        let _ ← operator "*"
        let mode ←
          if ← seesWord "const" then word "const"
          else if ← seesWord "mut" then word "mut"
          else failExpecting [.word "const", .word "mut"]
        return Tree.seq [.operator "*", mode, ← g'.typeWithoutPlus]) := by
  have ended (mode : Tree) : Follows c Eq
      (g.typeWithoutPlus >>= fun type => pure (Tree.seq [.operator "*", mode, type]))
      (g'.typeWithoutPlus >>= fun type => pure (Tree.seq [.operator "*", mode, type])) :=
    (deeper.type c false).bind fun _ => follows_pure rfl
  exact follows_operator.bind fun _ => follows_seesWord.bind fun _ => follows_seesWord.bind fun _ =>
    .ite (follows_word.bind ended) (.ite (follows_word.bind ended) follows_failExpecting_bind)

theorem follows_referenceType (deeper : Deeper g g') :
    Follows c Eq
      (do
        let _ ← operator "&"
        let name ← lifetime?
        let mutable ← word? "mut"
        return Tree.seq (.operator "&" :: ((name.map Tree.lifetime).toList ++ mutable.toList
          ++ [← g.typeWithoutPlus])))
      (do
        let _ ← operator "&"
        let name ← lifetime?
        let mutable ← word? "mut"
        return Tree.seq (.operator "&" :: ((name.map Tree.lifetime).toList ++ mutable.toList
          ++ [← g'.typeWithoutPlus]))) :=
  follows_operator.bind fun _ => follows_lifetime?.bind fun _ => follows_word?.bind fun _ =>
    (deeper.type c false).bind fun _ => follows_pure rfl

theorem follows_typeOf (deeper : Deeper g g') (plus : Bool) :
    Follows c Eq (typeOf g plus) (typeOf g' plus) := by
  have binderTests : ∀ e ∈ boundTypeBeginnings, e.endsType = false := by decide
  have functionTests : ∀ e ∈ [Expectation.word "fn", .word "unsafe", .word "extern"],
      e.endsType = false := by decide
  have pathTests : ∀ e ∈ Expectation.identifier :: .operator "::" :: .operator "<" :: typePathWords,
      e.endsType = false := by decide
  refine follows_place_bind fun start start' => (follows_binder? deeper).bind fun binder =>
    .ite ?bound ?free
  case' bound =>
    refine (follows_peekAny fun e member => .inl (binderTests e member)).bind fun _ =>
      follows_seesWord.bind fun _ => .ite follows_failExpecting_bind ?_
  all_goals
    refine (follows_peek (.inl rfl)).bind fun _ => .ite (follows_parenthesizedType deeper plus) ?_
    refine (follows_peekAny fun e member => .inl (functionTests e member)).bind fun _ => .ite
      ((follows_functionType deeper).bind fun _ => follows_pure rfl) ?_
    refine (follows_peekAny fun e member => .inl (pathTests e member)).bind fun _ => .ite
      (follows_pathType deeper plus binder) ?_
    refine follows_seesWord.bind fun _ => .ite (follows_dynType deeper plus start start') ?_
    refine (follows_peek (.inl rfl)).bind fun _ => .ite (follows_bracketedType deeper) ?_
    refine (follows_seesOperator (.inl rfl)).bind fun _ => .ite (follows_pointerType deeper) ?_
    refine (follows_seesOperator (.inl rfl)).bind fun _ => .ite (follows_referenceType deeper) ?_
    refine (follows_seesOperator (.inl rfl)).bind fun _ => (follows_seesOperator (.inl rfl)).bind
      fun _ => .ite follows_operator ?_
    refine follows_seesWord.bind fun _ => .ite ?_ ?_
    · exact follows_word.bind fun _ => (follows_typeBounds deeper plus true true).bind fun ⟨_, _⟩ =>
        .ite (follows_pure rfl) follows_failAt
    refine follows_seesWord.bind fun _ => .ite follows_word ?_
    exact (follows_peek (.inl rfl)).bind fun _ => .ite ((follows_objectBounds deeper true _ _).bind
      fun _ => follows_pure rfl) follows_failExpecting

end Types

section Generics

/-- Lexemes that stop a list: none, or first something from a list of alternatives. -/
def Stops (alternatives : List Expectation) (after : List Lexeme) : Prop :=
  after = [] ∨ ∃ e ∈ alternatives, sees after e = true

theorem Stops.mono {alternatives more : List Expectation} {after : List Lexeme}
    (stopped : Stops alternatives after) (all : alternatives ⊆ more) : Stops more after :=
  stopped.imp_right fun ⟨e, listed, met⟩ => ⟨e, all listed, met⟩

/-- What may stand after a generic parameter. -/
def parameterEnds : List Expectation :=
  [.operator ",", .operator ">"]

/-- What may stand after a predicate. -/
def predicateEnds : List Expectation :=
  [.operator ",", .group .brace]

/-- A test that is met at the end of the lexemes and by what stands after them. -/
theorem follows_stop {stop : Parser Bool} (answer : List Lexeme → Bool)
    (tests : ∀ {i flag k}, Reads stop i flag k ↔ k = i ∧ flag = answer i.rest)
    (only : ∀ {a b : List Lexeme}, a ≠ [] → b ≠ [] → (∀ e, sees b e = sees a e) →
      answer b = answer a)
    (ended : answer [] = true) (stopped : c.after = [] ∨ answer c.after = true) :
    Follows c Eq stop stop := by
  refine follows_test answer tests fun {i j} prolongs _ => ?_
  have after := prolongs.rest
  by_cases filled : i.rest = []
  · obtain ⟨front, alike, same⟩ := after
    have none : front = [] := List.length_eq_zero_iff.mp (by rw [← alike.length_eq, filled]; rfl)
    rw [same, none, filled, List.nil_append, ended]
    exact stopped.elim (fun none => none ▸ ended) id
  · refine only filled ?_ fun e => prolongs.sees_eq c.ends (.inr (.inl filled))
    obtain ⟨front, alike, same⟩ := after
    rw [same]
    intro none
    rw [(List.append_eq_nil_iff.mp none).1] at alike
    exact filled (List.length_eq_zero_iff.mp alike.length_eq)

/-- Whether one of some alternatives stops a list, or the end of the lexemes. -/
theorem follows_stopAny (alternatives : List Expectation)
    (stopped : Stops alternatives c.after) :
    Follows c Eq (do return (← atEnd) || (← peekAny alternatives))
      (do return (← atEnd) || (← peekAny alternatives)) := by
  refine follows_stop (fun rest => rest.isEmpty || alternatives.any (sees rest)) (fun {i flag k} => ?_)
    (fun filled filled' same => ?_) rfl (stopped.imp_right fun met => ?_)
  · simp only [reads_bind, reads_atEnd, reads_peekAny, reads_pure, existsAndEq, true_and]
  · rw [List.isEmpty_eq_false_iff.mpr filled, List.isEmpty_eq_false_iff.mpr filled', funext same]
  · rw [List.any_eq_true.mpr met, Bool.or_true]

theorem follows_lifetimeParameter (deeper : Deeper g g') (ended : Stops parameterEnds c.after)
    {attributes attributes' : List Attribute}
    (same : List.Forall₂ Attribute.Alike attributes attributes') :
    Follows c GenericParameter.Alike (lifetimeParameter g attributes)
      (lifetimeParameter g' attributes') := by
  refine (follows_outerAttributes deeper).bindOf (.inr fun a => ⟨a, ?_⟩) fun more more' same' => ?_
  · exact List.forall₂_same.mpr fun _ _ => ⟨rfl, rfl⟩
  refine follows_lifetime.bind fun name => (follows_operator? (.inl rfl)).bind fun _ => ?_
  have made (bounds : List String) (trailing : Bool) : Follows c GenericParameter.Alike
      (pure (GenericParameter.lifetime (attributes ++ more) name bounds trailing))
      (pure (GenericParameter.lifetime (attributes' ++ more') name bounds trailing)) :=
    follows_pure (.lifetime _ _ _ (List.rel_append same same'))
  refine .ite (Follows.bind ?_ fun ⟨_, _⟩ => made _ _) (follows_pure_bind (made _ _))
  exact follows_sum (fun _ => follows_stopAny _ (ended.mono (by decide))) fun _ => follows_lifetime

theorem follows_typeParameter (deeper : Deeper g g') (ended : Stops parameterEnds c.after)
    {attributes attributes' : List Attribute}
    (same : List.Forall₂ Attribute.Alike attributes attributes') :
    Follows c GenericParameter.Alike (typeParameter g attributes) (typeParameter g' attributes') := by
  refine (follows_outerAttributes deeper).bindOf (.inr fun a => ⟨a, ?_⟩) fun more more' same' => ?_
  · exact List.forall₂_same.mpr fun _ _ => ⟨rfl, rfl⟩
  refine follows_identifier.bind fun name => (follows_operator? (.inl rfl)).bind fun _ => ?_
  have made (bounds : List Tree) (trailing : Bool) : Follows c GenericParameter.Alike
      (do
        let sign ← operator? "="
        let byDefault ← if sign.isSome then some <$> g.type else pure none
        return GenericParameter.type (attributes ++ more) name bounds trailing byDefault)
      (do
        let sign ← operator? "="
        let byDefault ← if sign.isSome then some <$> g'.type else pure none
        return GenericParameter.type (attributes' ++ more') name bounds trailing byDefault) := by
    refine (follows_operator? (.inl rfl)).bind fun _ => .ite ?_ ?_
    · exact (deeper.type c true).map.bind fun _ => follows_pure
        (.type _ _ _ _ (List.rel_append same same'))
    · exact follows_pure_bind (follows_pure (.type _ _ _ _ (List.rel_append same same')))
  refine .ite (Follows.bind ?_ fun ⟨_, _⟩ => made _ _) (follows_pure_bind (made _ _))
  exact follows_sum (fun _ => follows_stopAny _ (ended.mono (by decide))) fun _ => follows_bound deeper

theorem follows_constParameter (deeper : Deeper g g') {attributes attributes' : List Attribute}
    (same : List.Forall₂ Attribute.Alike attributes attributes') :
    Follows c GenericParameter.Alike (constParameter g attributes) (constParameter g' attributes') := by
  refine (follows_outerAttributes deeper).bindOf (.inr fun a => ⟨a, ?_⟩) fun more more' same' => ?_
  · exact List.forall₂_same.mpr fun _ _ => ⟨rfl, rfl⟩
  refine follows_word.bind fun _ => follows_identifier.bind fun _ => follows_operator.bind fun _ =>
    (deeper.type c true).bind fun _ => (follows_operator? (.inl rfl)).bind fun _ => .ite ?_ ?_
  · exact (follows_constArgument deeper).map.bind fun _ => follows_pure
      (.const _ _ _ (List.rel_append same same'))
  · exact follows_pure_bind (follows_pure (.const _ _ _ (List.rel_append same same')))

theorem follows_listedParameter (deeper : Deeper g g') (ended : Stops parameterEnds c.after) :
    Follows c GenericParameter.Alike (listedParameter g) (listedParameter g') := by
  refine (follows_outerAttributes deeper).bindOf (.inr fun a => ⟨a, ?_⟩) fun attributes attributes' same => ?_
  · exact List.forall₂_same.mpr fun _ _ => ⟨rfl, rfl⟩
  refine (follows_peek (.inl rfl)).bind fun _ => .ite (follows_lifetimeParameter deeper ended same) ?_
  refine (follows_peek (.inl rfl)).bind fun _ => .ite (follows_typeParameter deeper ended same) ?_
  refine follows_seesWord.bind fun _ => .ite (follows_constParameter deeper same) ?_
  refine follows_seesWord.bind fun _ => .ite ?_ follows_failExpecting
  exact follows_anyWord.bind fun _ => follows_pure (.type _ _ _ _ same)

/-- A parameter by itself may stand in a list. -/
theorem reads_listedParameter {i k : Input} {p : GenericParameter}
    (ran : Reads (genericParameter g) i p k) : Reads (listedParameter g) i p k := by
  obtain ⟨attributes, l, first, ran⟩ := reads_bind.mp ran
  refine reads_bind.mpr ⟨attributes, l, first, ?_⟩
  have apart : sees l.rest .identifier = true → sees l.rest .lifetime = false := by
    rcases l.rest with _ | ⟨⟨token, _⟩ | _, _⟩
    · exact nofun
    · cases token with
      | ident name => exact fun _ => rfl
      | _ => exact fun seen => absurd seen Bool.false_ne_true
    · exact nofun
  simp only [reads_bind, reads_peek, existsAndEq, true_and] at ran ⊢
  split at ran
  · rename_i identifier
    simpa [apart identifier, identifier] using ran
  · rename_i other
    simp only [reads_bind, reads_peek, existsAndEq, true_and] at ran
    split at ran
    · rename_i lifetime
      simpa [lifetime] using ran
    · rename_i noLifetime
      simp only [reads_bind, reads_seesWord, existsAndEq, true_and] at ran
      split at ran
      · rename_i constant
        simpa [other, noLifetime, constant] using ran
      · exact absurd ran reads_failExpecting

theorem same_genericParameters (deeper : Deeper g g') :
    Follows .bare Generics.Alike (genericParameters g) (genericParameters g') := by
  refine same_seesOperator.bind fun _ => .ite (follows_pure (.refl _)) ?_
  refine follows_operator.bind fun _ => same_bind
    (same_punctuatedOf same_seesOperator (follows_listedParameter deeper (.inl rfl)))
    fun ⟨_, _⟩ ⟨_, _⟩ same => follows_operator.bind fun _ => follows_pure ?_
  exact ⟨same.1, same.2, rfl, rfl⟩

theorem follows_endsClause (ended : Stops predicateEnds c.after) : Follows c Eq endsClause endsClause := by
  refine follows_stop (fun rest => rest.isEmpty ||
    ([Expectation.group .brace, .operator ",", .operator ";", .operator "="].any (sees rest) ||
      (sees rest (.operator ":") && !sees rest (.operator "::")))) (fun {i flag k} => ?_)
    (fun filled filled' same => ?_) rfl (ended.imp_right fun met => ?_)
  · simp only [endsClause, reads_bind, reads_atEnd, reads_ite, reads_pure, reads_peekAny,
      reads_seesOperator, existsAndEq, true_and]
    cases i.rest.isEmpty <;>
      cases List.any _ (sees i.rest) <;> simp
  · rw [List.isEmpty_eq_false_iff.mpr filled, List.isEmpty_eq_false_iff.mpr filled', funext same]
  · obtain ⟨e, listed, met⟩ := met
    have all : predicateEnds ⊆
        [Expectation.group .brace, .operator ",", .operator ";", .operator "="] := by decide
    rw [List.any_eq_true.mpr ⟨e, all listed, met⟩, Bool.true_or, Bool.or_true]

theorem follows_wherePredicate (deeper : Deeper g g') (ended : Stops predicateEnds c.after) :
    Follows c Eq (wherePredicate g) (wherePredicate g') := by
  refine follows_peek_peek2_bind (.inl rfl) rfl (fun _ => rfl) fun _ _ => .ite ?_ ?_
  · refine follows_lifetime.bind fun _ => follows_operator.bind fun _ => Follows.bind ?_
      fun ⟨_, _⟩ => follows_pure rfl
    exact follows_sum (fun _ => follows_stopAny _ (ended.mono (by decide))) fun _ => follows_lifetime
  · exact (follows_binder? deeper).bind fun _ => (deeper.type c true).bind fun _ =>
      follows_operator.bind fun _ => (follows_sum (fun _ => follows_endsClause ended)
        fun _ => follows_bound deeper).bind fun ⟨_, _⟩ => follows_pure rfl

theorem same_predicatesUpTo (deeper : Deeper g g') (n : Nat) :
    Follows .bare Eq (predicatesUpTo g n) (predicatesUpTo g' n) := by
  induction n with
  | zero => exact follows_pure rfl
  | succ n ih =>
    refine (follows_endsClause (.inl rfl)).bind fun _ => .ite (follows_pure rfl)
      ((follows_wherePredicate deeper (.inl rfl)).bind fun _ => same_seesOperator.bind fun _ => .ite ?_
        (follows_pure rfl))
    exact follows_operator.bind fun _ => ih.bind fun ⟨_, _⟩ => follows_pure rfl

theorem same_withWhere (deeper : Deeper g g') {generics generics' : Generics}
    (same : Generics.Alike generics generics') :
    Follows .bare Generics.Alike (withWhere g generics) (withWhere g' generics') := by
  refine follows_seesWord.bind fun _ => .ite (follows_pure same) (follows_word.bind fun _ => ?_)
  exact Follows.bindHere (follows_bare_fuel fun n => same_predicatesUpTo deeper n) fun ⟨_, _⟩ =>
    follows_pure ⟨same.1, same.2, rfl, rfl⟩

end Generics

end Grammar.Parser

end Forwarding
