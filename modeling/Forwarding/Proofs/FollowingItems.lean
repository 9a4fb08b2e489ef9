import Forwarding.Grammar.Item
import Forwarding.Proofs.FollowingStatements
import Forwarding.Proofs.Receivers
/-!
Functions and declarations on the same tokens, below a grammar and below a deeper one. They are printed
the same.
-/

namespace Forwarding

section Trees

theorem mapIdx_eq_of_forall₂ {α β : Type} {related : α → α → Prop} {values others : List α}
    (same : List.Forall₂ related values others) {f : Nat → α → β}
    (each : ∀ n a b, related a b → f n a = f n b) : values.mapIdx f = others.mapIdx f := by
  induction same generalizing f with
  | nil => rfl
  | cons first _ ih =>
    have later := @ih (fun n => f (n + 1)) fun n a b same => each _ a b same
    rw [List.mapIdx_cons, List.mapIdx_cons, each 0 _ _ first, later]

theorem map_eq_of_forall₂ {α β : Type} {related : α → α → Prop} {values others : List α}
    (same : List.Forall₂ related values others) {f : α → β}
    (each : ∀ a b, related a b → f a = f b) : values.map f = others.map f := by
  induction same with
  | nil => rfl
  | cons first _ ih => rw [List.map_cons, List.map_cons, each _ _ first, ih]

theorem GenericParameter.Alike.tree_eq {a b : GenericParameter} (same : Alike a b) :
    a.tree = b.tree := by
  cases same with
  | lifetime _ _ _ same | type _ _ _ _ same | const _ _ _ same =>
    simp only [GenericParameter.tree, Attribute.Alike.outer_eq same]

theorem GenericParameter.Alike.isLifetime_eq {a b : GenericParameter} (same : Alike a b) :
    a.isLifetime = b.isLifetime := by
  cases same <;> rfl

theorem Generics.Alike.paramsTree_eq {a b : Generics} (same : Alike a b) :
    a.paramsTree = b.paramsTree := by
  have length := same.params.length_eq
  have empty : a.params.isEmpty = b.params.isEmpty := by
    rw [Bool.eq_iff_iff, List.isEmpty_iff_length_eq_zero, List.isEmpty_iff_length_eq_zero, length]
  have marked : a.params.mapIdx (fun i p =>
        (p.isLifetime, p.tree, a.trailing || decide (i + 1 < a.params.length))) =
      b.params.mapIdx (fun i p =>
        (p.isLifetime, p.tree, b.trailing || decide (i + 1 < b.params.length))) := by
    rw [same.trailing, length]
    refine mapIdx_eq_of_forall₂ same.params fun n p q same => ?_
    rw [same.isLifetime_eq, same.tree_eq]
  unfold Generics.paramsTree
  rw [empty, marked]

theorem Generics.Alike.whereTree_eq {a b : Generics} (same : Alike a b) :
    a.whereTree = b.whereTree := by
  unfold Generics.whereTree
  rw [same.predicates, same.predicatesTrailing]

end Trees

namespace Grammar.Parser

variable {g g' : Grammar}

section Functions

theorem same_beginsSignature (safe : Bool) :
    Follows .bare Eq (beginsSignature safe) (beginsSignature safe) := by
  refine (same_lookingAhead ?_).bind fun _ => follows_pure rfl
  refine follows_word?.bind fun _ => follows_word?.bind fun _ => follows_seesWord.bind fun _ => .ite ?_ ?_
  · exact follows_word.bind fun _ => follows_convention?.bind fun _ => follows_seesWord
  · exact follows_word?.bind fun _ => follows_convention?.bind fun _ => follows_seesWord

theorem same_receiver (deeper : Deeper g g') : Follows .bare Eq (receiver g) (receiver g') := by
  rw [receiver_eq, receiver_eq]
  refine same_receiverHead.bind fun ⟨reference, _, _, _⟩ => ?_
  have typed : Follows .bare Eq (receiverType g reference.isSome)
      (receiverType g' reference.isSome) := by
    refine same_seesOperator.bind fun _ => .ite ?_ (follows_pure rfl)
    exact follows_operator.bind fun _ => (deeper.type _ true).bind fun _ => follows_pure rfl
  exact typed.bind fun _ => follows_pure rfl

/-- Parameters that are printed the same. -/
inductive Parameter.Alike : Parameter → Parameter → Prop
  | receiver (tree : Tree) : Alike (.receiver tree) (.receiver tree)
  | typed {attributes attributes' : List Attribute} (pattern : Tree) (name : Option String)
      (type : Tree) (same : List.Forall₂ Attribute.Alike attributes attributes') :
      Alike (.typed attributes pattern name type) (.typed attributes' pattern name type)

theorem Parameter.Alike.tree_eq {a b : Parameter} (same : Parameter.Alike a b) :
    a.tree = b.tree := by
  cases same with
  | receiver => rfl
  | typed pattern name type same => rw [Parameter.tree, Parameter.tree, Attribute.Alike.outer_eq same]

/-- Parameters, or marks of more of them, that are printed the same. -/
inductive ParameterOrDots.Alike : ParameterOrDots → ParameterOrDots → Prop
  | parameter {a b : Parameter} (start start' : Position) (same : Parameter.Alike a b) :
      Alike (.parameter a start) (.parameter b start')
  | dots (tree : Tree) : Alike (.dots tree) (.dots tree)

/-- A parameter that is no receiver. -/
theorem same_typedParameter (deeper : Deeper g g') {attributes attributes' : List Attribute}
    (same : List.Forall₂ Attribute.Alike attributes attributes') :
    Follows .bare ParameterOrDots.Alike
      (do
        let start ← place
        if (← peek .identifier) && (← peek2 (.operator "<")) then
          return .parameter (.typed attributes (.word "_") none (← g.type)) start
        let bound ← g.pattern
        let _ ← operator ":"
        if ← seesOperator "..." then
          let dots ← operator "..."
          return .dots (.seq (Attribute.outer attributes ++ [bound.tree, .operator ":", dots]))
        let name := match bound.form with
          | .binding name => some name
          | _ => none
        return .parameter (.typed attributes bound.tree name (← g.type)) start)
      (do
        let start ← place
        if (← peek .identifier) && (← peek2 (.operator "<")) then
          return .parameter (.typed attributes' (.word "_") none (← g'.type)) start
        let bound ← g'.pattern
        let _ ← operator ":"
        if ← seesOperator "..." then
          let dots ← operator "..."
          return .dots (.seq (Attribute.outer attributes' ++ [bound.tree, .operator ":", dots]))
        let name := match bound.form with
          | .binding name => some name
          | _ => none
        return .parameter (.typed attributes' bound.tree name (← g'.type)) start) := by
  have type := deeper.type .bare true
  refine follows_place_bind fun _ _ => same_peek.bind fun _ => same_peek2.bind fun _ => .ite
    (type.bind fun _ => follows_pure (.parameter _ _ (.typed _ _ _ same))) ?_
  refine same_bind (same_pattern deeper) fun bound bound' alike => follows_operator.bind fun _ =>
    same_seesOperator.bind fun _ => .ite ?_ ?_
  · rw [Attribute.Alike.outer_eq same, alike.tree]
    exact follows_operator.bind fun _ => follows_pure (.dots _)
  · obtain ⟨tree, form⟩ := bound
    obtain ⟨tree', form'⟩ := bound'
    obtain ⟨rfl, still⟩ := alike
    cases form <;> cases form' <;> first
      | cases still; exact type.bind fun _ => follows_pure (.parameter _ _ (.typed _ _ _ same))
      | cases still

theorem same_parameterOrDots (deeper : Deeper g g') {attributes attributes' : List Attribute}
    (same : List.Forall₂ Attribute.Alike attributes attributes') :
    Follows .bare ParameterOrDots.Alike (parameterOrDots g attributes)
      (parameterOrDots g' attributes') := by
  refine follows_alike fun {i j} prolongs a k ran => ?_
  rw [parameterOrDots, reads_get_bind, reads_bind] at ran
  obtain ⟨found, l, tried, ran⟩ := ran
  rcases reads_attempt.mp tried with ⟨tree, received, rfl⟩ | ⟨never, rfl, rfl⟩
  · obtain ⟨_, l', received', rfl, later⟩ := (same_receiver deeper).run prolongs received
    obtain ⟨rfl, rfl⟩ := reads_pure.mp ran
    refine ⟨_, l', ?_, .parameter _ (parameterOrDots.selfPlace j.rest) (.receiver _), later⟩
    rw [parameterOrDots, reads_get_bind, reads_bind]
    refine ⟨_, l', reads_attempt.mpr (.inl ⟨_, received', rfl⟩), reads_pure.mpr ⟨rfl, ?_⟩⟩
    rw [Attribute.Alike.outer_eq same]
  · obtain ⟨b, l', read, value, later⟩ := (same_typedParameter deeper same).run prolongs ran
    refine ⟨b, l', ?_, value, later⟩
    rw [parameterOrDots, reads_get_bind, reads_bind]
    refine ⟨none, j, reads_attempt.mpr (.inr ⟨fun tree n received => ?_, rfl, rfl⟩), read⟩
    -- What the shallow grammar reads instead shows that it reads the receiver.
    have noName : sees l.rest .identifier = false :=
      (sees_alike (Input.Prolongs.alike prolongs) _).trans (unseen_of_reads_receiver received)
    simp only [reads_bind, reads_place, reads_peek, reads_peek2, existsAndEq, true_and, noName,
      Bool.false_and, Bool.false_eq_true, if_false] at ran
    obtain ⟨bound, o, pattern, _, m, colon, ran⟩ := ran
    obtain ⟨other, n', received'⟩ := receives deeper prolongs received pattern colon (by
      cases dots : sees m.rest (.operator "...") with
      | true => exact .inl rfl
      | false =>
        simp only [reads_seesOperator, existsAndEq, true_and, dots, Bool.false_eq_true, if_false,
          reads_bind] at ran
        obtain ⟨type, n', read, -⟩ := ran
        exact .inr ⟨type, n', read⟩)
    exact never _ _ received'

/-- Lists of parameters that are printed the same. -/
structure Parameters.Alike (a b : Parameters) : Prop where
  params : a.params.map Parameter.tree = b.params.map Parameter.tree
  trailing : a.trailing = b.trailing
  variadic : a.variadic = b.variadic

theorem Parameters.Alike.refl (a : Parameters) : Parameters.Alike a a :=
  ⟨rfl, rfl, rfl⟩

theorem same_parametersUpTo (deeper : Deeper g g') (some? received : Bool) (n : Nat) :
    Follows .bare Parameters.Alike (parametersUpTo g some? received n)
      (parametersUpTo g' some? received n) := by
  induction n generalizing some? received with
  | zero => exact follows_pure (.refl _)
  | succ n ih =>
    refine same_atEnd.bind fun _ => .ite (follows_pure (.refl _))
      (same_bind (follows_outerAttributes deeper) fun attributes attributes' same => ?_)
    have more {a b : Parameter} (alike : Parameter.Alike a b) (isReceiver : Bool) :
        Follows .bare Parameters.Alike
          (do
            if ← atEnd then return ⟨[a], false, none⟩
            let _ ← operator ","
            let more ← parametersUpTo g true (received || isReceiver) n
            return { more with params := a :: more.params })
          (do
            if ← atEnd then return ⟨[b], false, none⟩
            let _ ← operator ","
            let more ← parametersUpTo g' true (received || isReceiver) n
            return { more with params := b :: more.params }) := by
      refine same_atEnd.bind fun _ => .ite (follows_pure ⟨?_, rfl, rfl⟩)
        (follows_operator.bind fun _ => same_bind (ih _ _) fun _ _ rest => follows_pure ⟨?_, ?_, ?_⟩)
      · rw [List.map_singleton, List.map_singleton, alike.tree_eq]
      · rw [List.map_cons, List.map_cons, alike.tree_eq, rest.params]
      · exact rest.trailing
      · exact rest.variadic
    refine same_seesOperator.bind fun _ => .ite (follows_operator.bind fun _ => ?_)
      (same_bind (same_parameterOrDots deeper same) fun _ _ alike => ?_)
    · rw [Attribute.Alike.outer_eq same]
      exact follows_pure_bind (same_atEnd.bind fun _ => .ite (follows_pure (.refl _))
        (follows_operator.bind fun _ => follows_pure (.refl _)))
    · cases alike with
      | dots tree =>
        exact same_atEnd.bind fun _ => .ite (follows_pure (.refl _))
          (follows_operator.bind fun _ => follows_pure (.refl _))
      | parameter start start' alike =>
        have whole := more alike
        cases alike with
        | receiver tree => exact .ite follows_failAt_bind (.ite follows_failAt_bind (whole true))
        | typed => exact .ite follows_failAt_bind (.ite follows_failAt_bind (whole false))

theorem same_signature (deeper : Deeper g g') :
    Follows .bare (fun a b => a.tree = b.tree) (signature g) (signature g') := by
  refine follows_word?.bind fun _ => follows_word?.bind fun _ => follows_word?.bind fun _ =>
    follows_convention?.bind fun _ => follows_word.bind fun _ => follows_identifier.bind fun _ =>
    same_bind (same_genericParameters deeper) fun generics generics' same => same_bind
    (follows_grouped (follows_bare_fuel fun n => same_parametersUpTo deeper false false n))
    fun params params' alike => (follows_output? deeper true).bind fun _ =>
    same_bind (same_withWhere deeper same) fun full full' whole => follows_pure ?_
  have empty : params.params.isEmpty = params'.params.isEmpty := by
    rw [← List.isEmpty_map (f := Parameter.tree), alike.params, List.isEmpty_map]
  simp only [Signature.tree, whole.paramsTree_eq, whole.whereTree_eq, alike.params, alike.trailing,
    alike.variadic, empty]

end Functions

section Items

theorem same_visibility : Follows .bare Eq visibility visibility := by
  have restricted : Follows .bare Eq visibility.restricted visibility.restricted :=
    follows_grouped (follows_word.bind fun _ => same_bind same_plainPath fun _ _ same =>
      follows_pure (by rw [same.tree_eq]))
  have other {body body' : List Lexeme} (inside : Lexeme.Alike body body') : Follows .bare Eq
      (if sees body (.word "in") then visibility.restricted else return .everywhere)
      (if sees body' (.word "in") then visibility.restricted else return .everywhere) := by
    rw [sees_alike inside]
    exact .ite restricted (follows_pure rfl)
  refine follows_seesWord.bind fun _ => .ite (follows_pure rfl) (follows_word.bind fun _ =>
    same_get_bind fun i j prolongs => ?_)
  have ahead := Input.Prolongs.alike prolongs
  generalize i.rest = rest at ahead ⊢
  generalize j.rest = rest' at ahead ⊢
  cases ahead with
  | group delimiter start stop start' stop' inside later =>
    have whole := other inside
    cases delimiter with
    | parenthesis =>
      cases inside with
      | leaf token place place' more =>
        cases more with
        | nil =>
          cases token with
          | ident name =>
            exact .ite (same_skip.bind fun _ => follows_pure rfl) (.ite restricted (follows_pure rfl))
          | _ => exact whole
        | _ => cases token <;> exact whole
      | _ => exact whole
    | _ => exact follows_pure rfl
  | _ => exact follows_pure rfl

/-- What was read since the inputs were kept. -/
theorem same_readSince {i j : Input} (here : i.Prolongs [] j) :
    Follows .bare Eq (readSince i.rest) (readSince j.rest) :=
  same_get_bind fun _ _ later => follows_pure (congrArg Tree.ofTokens (here.tokensSince later))

theorem same_memberMacro : Follows .bare Eq memberMacro memberMacro := by
  refine same_bind same_plainPath fun _ _ same => ?_
  rw [same.tree_eq]
  exact (follows_invocation _).bind fun ⟨_, _⟩ => .ite (follows_pure rfl)
    (follows_operator.bind fun _ => follows_pure rfl)

theorem same_boundsUntil (deeper : Deeper g g') (ends : List Expectation) :
    Follows .bare Eq (boundsUntil g ends) (boundsUntil g' ends) :=
  (same_punctuated same_peekAny (follows_bound deeper)).bind fun ⟨_, _⟩ => follows_pure rfl

/-- Fields that are printed the same. -/
inductive Fields.Alike : Fields → Fields → Prop
  | named {fields fields' : List Field} (trailing : Bool)
      (same : fields.map Field.tree = fields'.map Field.tree) :
      Alike (.named fields trailing) (.named fields' trailing)
  | positional {fields fields' : List Field} (trailing : Bool)
      (same : fields.map Field.tree = fields'.map Field.tree) :
      Alike (.positional fields trailing) (.positional fields' trailing)
  | unit : Alike .unit .unit

theorem listed_eq {fields fields' : List Field} (trailing : Bool)
    (same : fields.map Field.tree = fields'.map Field.tree) :
    Fields.listed fields trailing = Fields.listed fields' trailing := by
  have empty : fields.isEmpty = fields'.isEmpty := by
    rw [← List.isEmpty_map (f := Field.tree), same, List.isEmpty_map]
  rw [Fields.listed, Fields.listed, same, empty]

theorem Fields.Alike.fieldsTree_eq {a b : Fields} (same : Fields.Alike a b) :
    fieldsTree a = fieldsTree b := by
  cases same with
  | named trailing same | positional trailing same =>
    simp only [fieldsTree, listed_eq trailing same]
  | unit => rfl

theorem same_namedField (deeper : Deeper g g') :
    Follows .bare (fun a b => a.tree = b.tree) (namedField g) (namedField g') := by
  refine same_bind (follows_outerAttributes deeper) fun attributes attributes' same => ?_
  have made (visibility : Visibility) (name : String) (type : Tree) :
      Follows .bare (fun a b => a.tree = b.tree)
        (pure (⟨attributes, visibility, some name, type⟩ : Field))
        (pure (⟨attributes', visibility, some name, type⟩ : Field)) :=
    follows_pure (by simp only [Field.tree, Attribute.Alike.outer_eq same])
  have typed (visibility : Visibility) (name : String) (inline : Bool) :
      Follows .bare (fun a b => a.tree = b.tree)
        (do
          let type ←
            if inline then
              verbatim do
                let _ ← anyWord
                grouped .brace remaining
            else g.type
          return (⟨attributes, visibility, some name, type⟩ : Field))
        (do
          let type ←
            if inline then
              verbatim do
                let _ ← anyWord
                grouped .brace remaining
            else g'.type
          return (⟨attributes', visibility, some name, type⟩ : Field)) := by
    have inside : Follows .bare Eq
        (do
          let _ ← anyWord
          grouped .brace remaining)
        (do
          let _ ← anyWord
          grouped .brace remaining) :=
      follows_anyWord.bind fun _ => follows_grouped same_remaining
    exact follows_choose (same_verbatim inside) (deeper.type _ true) fun _ => made _ _ _
  refine same_visibility.bind fun visibility => follows_seesWord.bind fun _ => .ite ?_ ?_
  · exact follows_anyWord.bind fun _ => follows_operator.bind fun _ => follows_seesWord.bind fun _ =>
      follows_seesWord.bind fun _ => same_peek2.bind fun _ => typed _ _ _
  · exact follows_identifier.bind fun _ => follows_operator.bind fun _ => follows_seesWord.bind fun _ =>
      follows_seesWord.bind fun _ => same_peek2.bind fun _ => typed _ _ _

theorem same_positionalField (deeper : Deeper g g') :
    Follows .bare (fun a b => a.tree = b.tree) (positionalField g) (positionalField g') := by
  refine same_bind (follows_outerAttributes deeper) fun _ _ same => same_visibility.bind fun _ =>
    (deeper.type _ true).bind fun _ => follows_pure ?_
  simp only [Field.tree, Attribute.Alike.outer_eq same]

theorem same_namedFields (deeper : Deeper g g') :
    Follows .bare Fields.Alike (namedFields g) (namedFields g') := by
  refine same_bind (follows_grouped (same_punctuatedOf same_atEnd (same_namedField deeper)))
    fun ⟨_, _⟩ ⟨_, _⟩ same => ?_
  obtain ⟨fields, rfl⟩ := same
  exact follows_pure (.named _ (map_eq_of_forall₂ fields fun _ _ => id))

theorem same_positionalFields (deeper : Deeper g g') :
    Follows .bare Fields.Alike (positionalFields g) (positionalFields g') := by
  refine same_bind (follows_grouped (same_punctuatedOf same_atEnd (same_positionalField deeper)))
    fun ⟨_, _⟩ ⟨_, _⟩ same => ?_
  obtain ⟨fields, rfl⟩ := same
  exact follows_pure (.positional _ (map_eq_of_forall₂ fields fun _ _ => id))

theorem same_structBody (deeper : Deeper g g') {generics generics' : Generics}
    (same : Generics.Alike generics generics') :
    Follows .bare (fun a b => Generics.Alike a.1 b.1 ∧ Fields.Alike a.2 b.2)
      (structBody g generics) (structBody g' generics') := by
  refine follows_seesWord.bind fun _ => same_bind (same_withWhere deeper same) fun _ _ same =>
    same_peek.bind fun _ => .ite ?_ (same_peek.bind fun _ => .ite ?_ (same_seesOperator.bind fun _ =>
    .ite ?_ follows_failExpecting))
  · exact same_bind (same_positionalFields deeper) fun _ _ fields => follows_seesWord.bind fun _ =>
      same_bind (same_withWhere deeper same) fun _ _ same => same_seesOperator.bind fun _ =>
      .ite (follows_operator.bind fun _ => follows_pure ⟨same, fields⟩) follows_failExpecting
  · exact same_bind (same_namedFields deeper) fun _ _ fields => follows_pure ⟨same, fields⟩
  · exact follows_operator.bind fun _ => follows_pure ⟨same, .unit⟩

theorem same_structItem (deeper : Deeper g g') {attributes attributes' : List Attribute}
    (same : List.Forall₂ Attribute.Alike attributes attributes') :
    Follows .bare (fun a b => a.tree = b.tree) (structItem g attributes) (structItem g' attributes') := by
  refine same_visibility.bind fun _ => follows_word.bind fun _ => follows_place_bind fun _ _ =>
    follows_identifier.bind fun _ => same_bind (same_genericParameters deeper) fun _ _ generics =>
    same_bind (same_structBody deeper generics) fun ⟨_, _⟩ ⟨_, _⟩ body => follows_pure ?_
  obtain ⟨generics, fields⟩ := body
  cases fields with
  | named trailing fields | positional trailing fields =>
    simp only [StructItem.tree, Attribute.Alike.outer_eq same, generics.paramsTree_eq,
      generics.whereTree_eq, listed_eq trailing fields]
  | unit =>
    simp only [StructItem.tree, Attribute.Alike.outer_eq same, generics.paramsTree_eq,
      generics.whereTree_eq]

end Items

end Grammar.Parser

end Forwarding
