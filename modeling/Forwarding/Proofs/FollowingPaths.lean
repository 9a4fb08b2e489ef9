import Forwarding.Grammar.Pattern
import Forwarding.Proofs.FollowingAlike
/-!
Paths before further lexemes. What is read as a path or a bound by itself is read before a comma, a
closing angle, a semicolon or braces as well.
-/

namespace Forwarding

/-- Attributes that are printed the same. -/
structure Attribute.Alike (a b : Attribute) : Prop where
  isInner : a.isInner = b.isInner
  tree : a.tree = b.tree

theorem Attribute.Alike.outer_eq {a b : List Attribute} (alike : List.Forall₂ Attribute.Alike a b) :
    Attribute.outer a = Attribute.outer b := by
  induction alike with
  | nil => rfl
  | cons first _ ih =>
    simp only [Attribute.outer, List.filter_cons, first.isInner] at ih ⊢
    split
    · rw [List.map_cons, List.map_cons, first.tree, ih]
    · exact ih

theorem Attribute.Alike.inner_eq {a b : List Attribute} (alike : List.Forall₂ Attribute.Alike a b) :
    Attribute.inner a = Attribute.inner b := by
  induction alike with
  | nil => rfl
  | cons first _ ih =>
    simp only [Attribute.inner, List.filter_cons, first.isInner] at ih ⊢
    split
    · rw [List.map_cons, List.map_cons, first.tree, ih]
    · exact ih

/-- Bodies of attributes that are the same apart from places. -/
inductive AttributeBody.Alike : AttributeBody → AttributeBody → Prop
  | nothing : Alike .nothing .nothing
  | list (delimiter : Delimiter) {body body' : List Lexeme} (stop stop' : Position)
      (alike : Lexeme.Alike body body') : Alike (.list delimiter body stop) (.list delimiter body' stop')
  | value (sign sign' : Position) (expression : Tree) :
      Alike (.value sign expression) (.value sign' expression)

namespace Grammar

/-- Paths that are the same apart from their places. -/
structure PlainPath.Alike (a b : PlainPath) : Prop where
  isGlobal : a.isGlobal = b.isGlobal
  names : a.names = b.names

theorem PlainPath.Alike.tree_eq {a b : PlainPath} (alike : PlainPath.Alike a b) :
    a.tree = b.tree := by
  rw [PlainPath.tree, PlainPath.tree, alike.isGlobal, alike.names]

/-- The form of a pattern without the place of its dots. -/
def PatternForm.still : PatternForm → PatternForm
  | .openRange _ => .openRange .first
  | form => form

/-- Patterns that are the same apart from places. -/
structure Pattern.Alike (a b : Pattern) : Prop where
  tree : a.tree = b.tree
  form : a.form.still = b.form.still

theorem Pattern.Alike.refl (p : Pattern) : Pattern.Alike p p :=
  ⟨rfl, rfl⟩

/-- Results that are the same apart from places. -/
def Nonterminal.Alike : (n : Nonterminal) → n.Result → n.Result → Prop
  | .pattern => Pattern.Alike
  | .item => fun a b => a.tree = b.tree
  | .type _ => Eq
  | .bound _ _ => Eq
  | .expression _ => Eq
  | .operand _ => Eq
  | .standalone => Eq
  | .statements => Eq
  | .imports _ => Eq

namespace Parser

/-- A grammar whose readers follow those of another one. -/
structure Deeper (g g' : Grammar) : Prop where
  parse : ∀ n : Nonterminal, Follows .bare n.Alike (g.parse n) (g'.parse n)
  type : ∀ c plus, Follows c Eq (g.parse (.type plus)) (g'.parse (.type plus))
  bound : ∀ c captures constant,
    Follows c Eq (g.parse (.bound captures constant)) (g'.parse (.bound captures constant))
  /-- What is read as a pattern is read by the rule of patterns. -/
  pattern : ∀ {i k a}, Reads g.pattern i a k → ∃ h, Reads (patternOf h) i a k
  /-- What is read as a type is read by the rule of types. -/
  begins : ∀ {i k a}, Reads g'.type i a k → ∃ h, Reads (typeOf h true) i a k

variable {c : Context} {g g' : Grammar}

section Attributes

theorem same_plainNamesUpTo (n : Nat) :
    Follows .bare Eq (plainNamesUpTo n) (plainNamesUpTo n) := by
  induction n with
  | zero => exact follows_pure rfl
  | succ n ih =>
    exact same_peekAny.bind fun _ => .ite (follows_pure rfl) (follows_anyWord.bind fun _ =>
      same_seesOperator.bind fun _ => .ite (follows_operator.bind fun _ => ih.bind fun _ =>
        follows_pure rfl) (follows_pure rfl))

theorem same_plainPath : Follows .bare PlainPath.Alike plainPath plainPath := by
  refine same_operator?.bind fun _ => follows_place_bind fun _ _ =>
    (follows_bare_fuel same_plainNamesUpTo).bindHere fun ⟨_, _⟩ => .ite ?_ (.ite follows_fail ?_)
  · exact follows_identifier.bind fun _ => follows_fail
  · exact follows_pure ⟨rfl, rfl⟩

theorem same_skip {n : Nat} : Follows .bare Eq (skip n) (skip n) := by
  refine follows_alike fun prolongs a k ran => ?_
  rw [reads_skip.mp ran]
  exact ⟨a, _, reads_skip.mpr rfl, rfl, .of_alike (prolongs.alike.drop n) prolongs.leftover⟩

theorem same_attributeBody (deeper : Deeper g g') :
    Follows .bare AttributeBody.Alike (attributeBody g) (attributeBody g') := by
  have other : Follows .bare AttributeBody.Alike
      (do
        if (← seesOperator "=") && !(← peekAny [.operator "==", .operator "=>"]) then
          let sign ← place
          let _ ← operator "="
          let alone ← lookingAhead do
            let _ ← literal
            atEnd
          if alone == some true then return .value sign (← literal)
          else if (← seesOperator "#") && (← peek2 (.group .bracket)) then
            fail .attributeInAttribute
          else return .value sign (← g.expression)
        else return .nothing)
      (do
        if (← seesOperator "=") && !(← peekAny [.operator "==", .operator "=>"]) then
          let sign ← place
          let _ ← operator "="
          let alone ← lookingAhead do
            let _ ← literal
            atEnd
          if alone == some true then return .value sign (← literal)
          else if (← seesOperator "#") && (← peek2 (.group .bracket)) then
            fail .attributeInAttribute
          else return .value sign (← g'.expression)
        else return .nothing) := by
    refine same_seesOperator.bind fun _ => same_peekAny.bind fun _ => .ite ?_ (follows_pure .nothing)
    refine follows_place_bind fun sign sign' => follows_operator.bind fun _ =>
      (same_lookingAhead (follows_literal.bind fun _ => same_atEnd)).bind fun _ => .ite ?_ ?_
    · exact follows_literal.bind fun _ => follows_pure (.value _ _ _)
    · refine same_seesOperator.bind fun _ => same_peek2.bind fun _ => .ite follows_fail ?_
      refine Follows.bind ?_ fun _ => follows_pure (.value _ _ _)
      exact (deeper.parse (.expression true)).bind fun _ => follows_pure rfl
  refine same_get_bind fun i j prolongs => ?_
  have ahead := prolongs.alike
  generalize i.rest = rest at ahead ⊢
  generalize j.rest = rest' at ahead ⊢
  cases ahead with
  | group delimiter start stop start' stop' inside later =>
    exact same_skip.bind fun _ => follows_pure (.list _ _ _ inside)
  | nil => exact other
  | leaf => exact other

theorem follows_readAttribute (deeper : Deeper g g') (isInner : Bool) :
    Follows c Attribute.Alike (readAttribute g isInner) (readAttribute g' isInner) := by
  have inside (start start' : Position) : Follows .bare Attribute.Alike
      (do
        let path ←
          if ← seesWord "unsafe" then
            let start ← place
            let name ← anyWord
            pure ⟨false, [name], start⟩
          else plainPath
        let body ← attributeBody g
        return ⟨start, isInner, path.isGlobal, path.names, path.start, body⟩)
      (do
        let path ←
          if ← seesWord "unsafe" then
            let start ← place
            let name ← anyWord
            pure ⟨false, [name], start⟩
          else plainPath
        let body ← attributeBody g'
        return ⟨start', isInner, path.isGlobal, path.names, path.start, body⟩) := by
    have made {path path' : PlainPath} (same : PlainPath.Alike path path') {body body'}
        (alike : AttributeBody.Alike body body') : Attribute.Alike
          ⟨start, isInner, path.isGlobal, path.names, path.start, body⟩
          ⟨start', isInner, path'.isGlobal, path'.names, path'.start, body'⟩ := by
      refine ⟨rfl, ?_⟩
      simp only [Attribute.tree, Attribute.sign, Attribute.path, same.isGlobal, same.names]
      cases alike with
      | nothing => rfl
      | list delimiter stop stop' alike => simp only [alike.tokensOf_eq]
      | value => rfl
    have ended (path path' : PlainPath) (same : PlainPath.Alike path path') :
        Follows .bare Attribute.Alike
          (attributeBody g >>= fun body => pure
            ⟨start, isInner, path.isGlobal, path.names, path.start, body⟩)
          (attributeBody g' >>= fun body => pure
            ⟨start', isInner, path'.isGlobal, path'.names, path'.start, body⟩) :=
      same_bind (same_attributeBody deeper) fun _ _ alike => follows_pure (made same alike)
    refine follows_seesWord.bind fun _ => .ite ?_ (same_bind same_plainPath ended)
    refine follows_place_bind fun _ _ => follows_anyWord.bind fun _ => ?_
    exact same_bind (follows_pure ⟨rfl, rfl⟩) ended
  cases isInner with
  | true => exact follows_place_bind fun _ _ => follows_operator.bind fun _ =>
      follows_operator.bind fun _ => follows_grouped (inside _ _)
  | false => exact follows_place_bind fun _ _ => follows_operator.bind fun _ =>
      follows_grouped (inside _ _)

theorem reads_readAttribute_shorter {isInner : Bool} {i k : Input} {a : Attribute}
    (ran : Reads (readAttribute g isInner) i a k) : k.rest.length < i.rest.length := by
  simp only [readAttribute, reads_bind] at ran
  obtain ⟨_, _, placed, sign, l, first, ran⟩ := ran
  rw [(reads_place.mp placed).1] at first
  have shorter := reads_operator_shorter first
  have left : k.rest <:+ l.rest := by
    split at ran
    · simp only [reads_bind] at ran
      obtain ⟨_, m, second, ran⟩ := ran
      obtain ⟨rest, _, _, _, _, same, -, rfl⟩ := reads_grouped.mp ran
      exact (same ▸ List.suffix_cons _ _).trans
        (follows_operator.shrinks (Context.upTo_ne_bare .bare 0) second)
    · obtain ⟨rest, _, _, _, _, same, -, rfl⟩ := reads_grouped.mp ran
      exact same ▸ List.suffix_cons _ _
  exact Nat.lt_of_le_of_lt left.length_le shorter

theorem follows_outerAttributes (deeper : Deeper g g') :
    Follows c (List.Forall₂ Attribute.Alike) (outerAttributes g) (outerAttributes g') := by
  refine follows_repeatedOf (fun a => ⟨a, rfl, rfl⟩) (fun n => ?_) fun {i a k} ran => ?_
  · refine (follows_seesOperator (.inl rfl)).bind fun _ => .ite ?_ (follows_pure .none)
    rw [map_eq_pure_bind, map_eq_pure_bind]
    exact (follows_readAttribute deeper false).bindOf (.inr fun a => ⟨a, rfl, rfl⟩) fun _ _ same =>
      follows_pure (.some same)
  · simp only [reads_bind, reads_seesOperator, existsAndEq, true_and] at ran
    split at ran
    · obtain ⟨a, read, -⟩ := reads_map.mp ran
      exact reads_readAttribute_shorter read
    · simp at ran

theorem same_innerAttributes (deeper : Deeper g g') :
    Follows .bare (List.Forall₂ Attribute.Alike) (innerAttributes g) (innerAttributes g') := by
  refine same_repeatedOf (same_seesOperator.bind fun _ => same_peek2.bind fun _ => .ite ?_
    (follows_pure .none))
  rw [map_eq_pure_bind, map_eq_pure_bind]
  exact same_bind (follows_readAttribute deeper true) fun _ _ same => follows_pure (.some same)

theorem follows_braced {α β : Type} {related : α → β → Prop} {p : Parser α} {q : Parser β}
    (deeper : Deeper g g') (inside : Follows .bare related p q) :
    Follows c (fun a b => List.Forall₂ Attribute.Alike a.1 b.1 ∧ related a.2 b.2) (braced g p)
      (braced g' q) :=
  follows_grouped (same_bind (same_innerAttributes deeper) fun _ _ attributes =>
    same_bind inside fun _ _ value => follows_pure ⟨attributes, value⟩)

theorem follows_blockAfter (deeper : Deeper g g') (head : List Tree) :
    Follows c Eq (blockAfter g head) (blockAfter g' head) := by
  refine (follows_braced deeper (deeper.parse .statements)).bindOf (.inr fun a => ⟨a, ?_, ?_⟩)
    fun a b same => ?_
  · exact List.forall₂_same.mpr fun _ _ => ⟨rfl, rfl⟩
  · exact rfl
  · obtain ⟨attributes, statements⟩ := a
    obtain ⟨attributes', statements'⟩ := b
    obtain ⟨alike, rfl⟩ := same
    exact follows_pure (by rw [Attribute.Alike.inner_eq alike])

end Attributes

section Paths

theorem follows_constArgument (deeper : Deeper g g') :
    Follows c Eq (constArgument g) (constArgument g') := by
  refine (follows_peek (.inl rfl)).bind fun _ => .ite follows_literal ?_
  refine (follows_peek (.inl rfl)).bind fun _ => .ite ?_ ?_
  · exact follows_identifier.bind fun _ => follows_pure rfl
  · exact follows_required_bind (fun _ _ _ => reads_fail) (follows_blockAfter deeper [])

theorem follows_binder (deeper : Deeper g g') : Follows c Eq (binder g) (binder g') := by
  refine follows_word.bind fun _ => follows_operator.bind fun _ => ?_
  refine Follows.bindInner (follows_punctuated
    (fun n => follows_seesOperator (.inr (.inl rfl))) fun n => ?_) reads_operator_bind_filled
    fun ⟨_, _⟩ => follows_operator.bind fun _ => follows_pure rfl
  refine (follows_outerAttributes deeper).bindOf (.inr fun a => ⟨a, ?_⟩) fun a b same => ?_
  · exact List.forall₂_same.mpr fun _ _ => ⟨rfl, rfl⟩
  · exact follows_lifetime.bind fun _ => follows_pure (by rw [Attribute.Alike.outer_eq same])

theorem follows_binder? (deeper : Deeper g g') : Follows c Eq (binder? g) (binder? g') :=
  follows_seesWord.bind fun _ => .ite (follows_binder deeper).map (follows_pure rfl)

theorem follows_captured {n m : Nat} (inside : c.inside = true) (enough : n ≤ m) :
    Follows (c.upTo n) Eq (capture.items n) (capture.items m) := by
  have quiet {n : Nat} {e : Expectation} : (c.upTo n).Quiet e := .inr (.inl inside)
  induction n generalizing m with
  | zero =>
    refine follows_upTo_zero fun ran => ?_
    obtain ⟨rfl, -⟩ := reads_pure.mp ran
    exact List.suffix_rfl
  | succ n ih =>
    obtain ⟨m, rfl⟩ : ∃ k, m = k + 1 := ⟨m - 1, by omega⟩
    rw [capture.items, capture.items]
    refine (follows_peek quiet).bind fun _ => (follows_peekAny fun _ _ => quiet).bind fun _ =>
      (follows_seesOperator quiet).bind fun _ => .ite (follows_lifetime.map.map.bind ?ended)
        (.ite (follows_anyWord.map.map.bind ?ended) (.ite ((follows_pure rfl).bind ?ended)
          (follows_failExpecting.bind ?ended)))
    intro found
    cases found with
    | none => exact follows_pure rfl
    | some item =>
      refine (follows_seesOperator quiet).bind fun _ => .ite (follows_operator_bind fun _ => ?_) ?_
      · exact (ih (by omega)).bind fun _ => follows_pure rfl
      · exact (follows_seesOperator quiet).bind fun _ => .ite (follows_pure rfl)
          follows_failExpecting

theorem follows_capture : Follows c Eq capture capture := by
  refine follows_word.bind fun _ => follows_operator.bind fun _ => ?_
  refine Follows.bindInnerHere (follows_fuel fun n m enough => follows_captured rfl enough)
    reads_operator_bind_filled fun ⟨_, _⟩ => follows_operator.bind fun _ => follows_pure rfl

theorem follows_seesParenthesized : Follows c Eq seesParenthesized seesParenthesized := by
  refine (follows_peek (.inl rfl)).bind fun _ => .ite (follows_pure rfl) ?_
  exact follows_colons_peek3_bind rfl (fun _ => rfl) fun _ _ => follows_pure rfl

theorem follows_bound (deeper : Deeper g g') : Follows c Eq g.bound g'.bound :=
  (deeper.bound c _ _).bind fun _ => follows_pure rfl

theorem follows_genericArgument (deeper : Deeper g g') (inside : c.inside = true) :
    Follows c Eq (genericArgument g) (genericArgument g') := by
  have quiet {e : Expectation} : c.Quiet e := .inr (.inl inside)
  refine follows_peek_peek2_bind quiet rfl (fun _ => rfl) fun _ _ => .ite
    (follows_lifetime.bind fun _ => follows_pure rfl) ?_
  refine (follows_peekAny fun _ _ => quiet).bind fun _ => .ite (follows_constArgument deeper) ?_
  refine (deeper.type c true).bind fun type => ?_
  split
  · refine (follows_seesOperator quiet).bind fun _ => .ite ?_ ?_
    · refine follows_operator.bind fun _ => (follows_peekAny fun _ _ => quiet).bind fun _ => .ite
        ((follows_constArgument deeper).bind fun _ => follows_pure rfl)
        ((deeper.type c true).bind fun _ => follows_pure rfl)
    · refine (follows_seesOperator quiet).bind fun _ => .ite ?_ (follows_pure rfl)
      refine follows_operator.bind fun _ => ?_
      exact (follows_sum (fun _ => follows_peekAny fun _ _ => quiet)
        fun _ => follows_bound deeper).bind fun ⟨_, _⟩ => follows_pure rfl
  · exact follows_pure rfl

theorem follows_genericArguments (deeper : Deeper g g') :
    Follows c Eq (genericArguments g) (genericArguments g') := by
  refine (follows_operator? (.inl rfl)).bind fun _ => follows_operator.bind fun _ => ?_
  exact Follows.bindInner (follows_punctuated (fun _ => follows_seesOperator (.inr (.inl rfl)))
    fun _ => follows_genericArgument deeper rfl) reads_operator_bind_filled
    fun ⟨_, _⟩ => follows_operator.bind fun _ => follows_pure rfl

theorem follows_segment (deeper : Deeper g g') (inExpression : Bool) :
    Follows c Eq (segment g inExpression) (segment g' inExpression) := by
  have words : ∀ e ∈ segmentWords, e.endsType = false := by decide
  have ended (name : String) : Follows c Eq
      (do
        let angle := !inExpression && (← seesOperator "<") && !(← seesOperator "<=")
        let turbofish := (← seesOperator "::") && (← peek3 (.operator "<"))
        if angle || turbofish then return Tree.segment name [← genericArguments g]
        else return Tree.segment name [])
      (do
        let angle := !inExpression && (← seesOperator "<") && !(← seesOperator "<=")
        let turbofish := (← seesOperator "::") && (← peek3 (.operator "<"))
        if angle || turbofish then return Tree.segment name [← genericArguments g']
        else return Tree.segment name []) := by
    refine (follows_seesOperator (.inl rfl)).bind fun _ => (follows_seesOperator (.inl rfl)).bind
      fun _ => follows_colons_peek3_bind rfl (fun _ => rfl) fun _ _ => .ite ?_ (follows_pure rfl)
    exact (follows_genericArguments deeper).bind fun _ => follows_pure rfl
  refine (follows_peekAny fun e member => .inl (words e member)).bind fun _ => .ite
    (follows_anyWord.bind fun _ => follows_pure rfl) ?_
  exact follows_seesWord.bind fun _ => .ite (follows_anyWord.bind ended)
    (follows_identifier.bind ended)

theorem follows_moreSegments (deeper : Deeper g g') (inExpression : Bool) :
    Follows c Eq (moreSegments g inExpression) (moreSegments g' inExpression) := by
  refine follows_repeated (fun _ => ?_) fun {i a k} ran => ?_
  · refine follows_colons_peek3_bind rfl (fun _ => rfl) fun _ _ => .ite ?_ (follows_pure rfl)
    exact follows_operator.bind fun _ => (follows_segment deeper inExpression).map
  · simp only [reads_bind, reads_seesOperator, reads_peek3, existsAndEq, true_and] at ran
    split at ran
    · obtain ⟨_, _, first, ran⟩ := reads_bind.mp ran
      obtain ⟨_, read, -⟩ := reads_map.mp ran
      exact Nat.lt_of_le_of_lt
        ((follows_segment deeper inExpression).shrinks (c.upTo_ne_bare 0) read).length_le
        (reads_operator_shorter first)
    · simp at ran

theorem follows_path (deeper : Deeper g g') (inExpression : Bool) :
    Follows c Eq (path g inExpression) (path g' inExpression) :=
  (follows_operator? (.inl rfl)).bind fun _ => (follows_segment deeper inExpression).bind fun _ =>
    (follows_moreSegments deeper inExpression).bind fun _ => follows_pure rfl

theorem follows_segmentsUpTo (deeper : Deeper g g') (inExpression : Bool) {n m : Nat}
    (enough : n ≤ m) :
    Follows (c.upTo n) Eq (segmentsUpTo g inExpression n) (segmentsUpTo g' inExpression m) := by
  induction n generalizing m with
  | zero =>
    refine follows_upTo_zero fun ran => ?_
    obtain ⟨rfl, -⟩ := reads_pure.mp ran
    exact List.suffix_rfl
  | succ n ih =>
    obtain ⟨m, rfl⟩ : ∃ k, m = k + 1 := ⟨m - 1, by omega⟩
    refine (follows_segment deeper inExpression).bind fun _ =>
      (follows_seesOperator (.inl rfl)).bind fun _ => .ite (follows_operator_bind fun _ => ?_)
        (follows_pure rfl)
    exact (ih (by omega)).bind fun _ => follows_pure rfl

theorem follows_qualifiedPath (deeper : Deeper g g') (inExpression : Bool) :
    Follows c Eq (qualifiedPath g inExpression) (qualifiedPath g' inExpression) := by
  have ended (selfType : Tree) (traitPath : List Tree) : Follows c Eq
      (do
        let _ ← operator ">"
        let _ ← operator "::"
        let rest ← segmentsUpTo g inExpression ((← get).rest.length + 1)
        return Tree.qualified selfType traitPath rest)
      (do
        let _ ← operator ">"
        let _ ← operator "::"
        let rest ← segmentsUpTo g' inExpression ((← get).rest.length + 1)
        return Tree.qualified selfType traitPath rest) :=
    follows_operator.bind fun _ => follows_operator.bind fun _ => Follows.bindHere
      (follows_fuel fun _ _ enough => follows_segmentsUpTo deeper inExpression enough)
      fun _ => follows_pure rfl
  refine (follows_seesOperator (.inl rfl)).bind fun _ => .ite (follows_path deeper inExpression) ?_
  refine follows_operator.bind fun _ => (deeper.type c true).bind fun _ => follows_seesWord.bind
    fun _ => .ite ?_ ((follows_pure rfl).bind fun _ => ended _ _)
  exact follows_word.bind fun _ => (follows_path deeper false).bind fun _ =>
    (follows_pure rfl).bind fun _ => ended _ _

theorem follows_output? (deeper : Deeper g g') (plus : Bool) :
    Follows c Eq (output? g plus) (output? g' plus) := by
  refine (follows_seesOperator (.inl rfl)).bind fun _ => .ite ?_ (follows_pure rfl)
  exact follows_operator.bind fun _ => (Follows.ite (deeper.type c true) (deeper.type c false)).map

theorem follows_parenthesizedArguments (deeper : Deeper g g') :
    Follows c Eq (parenthesizedArguments g) (parenthesizedArguments g') :=
  (follows_groupedTree (same_commaList (deeper.parse (.type true)))).bind fun _ =>
    (follows_output? deeper false).bind fun _ => follows_pure rfl

theorem follows_traitBound (deeper : Deeper g g') (constant : Bool) :
    Follows c Eq (traitBound g constant) (traitBound g' constant) := by
  refine (follows_binder? deeper).bind fun before => follows_place_bind fun _ _ =>
    (follows_seesOperator (.inl rfl)).bind fun _ => follows_seesWord.bind fun _ =>
    .ite ?maybe (.ite ?always ?none)
  case' maybe => refine follows_operator.bind fun _ => follows_word.bind fun _ =>
    follows_pure_bind (.ite follows_failAt_bind ?_)
  case' always => refine follows_word.bind fun _ => follows_pure_bind (.ite follows_failAt_bind ?_)
  case' none => refine follows_pure_bind ?_
  all_goals
    refine follows_place_bind fun _ _ => (follows_operator? (.inl rfl)).bind fun maybe =>
      follows_choose (follows_binder? deeper) (follows_pure rfl) fun between =>
      (follows_path deeper false).bind fun name => ?_
    have ended (name : Tree) (flag : Bool) (question question' : Position) : Follows c Eq
        (do
          if maybe.isSome && (before.isSome || between.isSome) then
            failAt question .binderBeforeMaybe
          return (Tree.seq (maybe.toList ++ before.toList ++ [name]), flag))
        (do
          if maybe.isSome && (before.isSome || between.isSome) then
            failAt question' .binderBeforeMaybe
          return (Tree.seq (maybe.toList ++ before.toList ++ [name]), flag)) :=
      .ite follows_failAt_bind (follows_pure rfl)
    cases name with
    | path isGlobal segments =>
      dsimp only
      cases segments.getLast? with
      | none => exact follows_pure_bind (ended _ _ _ _)
      | some last =>
        cases last with
        | segment last args =>
          refine follows_seesParenthesized.bind fun _ => .ite ?_ (follows_pure_bind (ended _ _ _ _))
          exact (follows_operator? (.inl rfl)).bind fun _ =>
            (follows_parenthesizedArguments deeper).bind fun _ => follows_pure_bind (ended _ _ _ _)
        | _ => exact follows_pure_bind (ended _ _ _ _)
    | _ => exact follows_pure_bind (ended _ _ _ _)

theorem follows_boundOf (deeper : Deeper g g') (captures constant : Bool) :
    Follows c Eq (boundOf g captures constant) (boundOf g' captures constant) := by
  refine (follows_peek (.inl rfl)).bind fun _ => .ite (follows_lifetime.bind fun _ =>
    follows_pure rfl) (follows_seesWord.bind fun _ => .ite ?_ ?_)
  · exact follows_place_bind fun _ _ => follows_capture.bind fun _ =>
      .ite (follows_pure rfl) follows_failAt
  · refine follows_get_bind fun _ _ => ?_
    have ended (i j : Input) (tree : Tree) (isConstant : Bool) : Follows c
        (fun a b => i.Prolongs c.after j → a = b)
        (do
          if isConstant then
            let after := (← get).rest
            let read := i.rest.take (i.rest.length - after.length)
            return ⟨.ofTokens (Lexeme.tokensOf read), .implemented⟩
          else return ⟨tree, .implemented⟩ : Parser Bound)
        (do
          if isConstant then
            let after := (← get).rest
            let read := j.rest.take (j.rest.length - after.length)
            return ⟨.ofTokens (Lexeme.tokensOf read), .implemented⟩
          else return ⟨tree, .implemented⟩ : Parser Bound) := by
      refine .ite ?_ (follows_pure fun _ => rfl)
      exact follows_get_bind fun _ _ => follows_pure fun last first => by rw [first.tokensSince last]
    refine (follows_peek (.inl rfl)).bind fun _ => .ite ?_ ?_
    · refine (follows_grouped (follows_traitBound deeper constant)).bind fun _ => ?_
      exact follows_pure_bind (ended _ _ _ _)
    · exact (follows_traitBound deeper constant).bind fun _ => ended _ _ _ _

theorem follows_beginsBound : Follows c Eq beginsBound beginsBound := by
  refine follows_seesAnyWord_bind fun i j same => ?_
  rw [same]
  have tests : ∀ e ∈ [Expectation.operator "::", .operator "?", .lifetime, .group .parenthesis,
      .operator "~"], e.endsType = false := by decide
  exact .ite (follows_pure rfl) (follows_peekAny fun e member => .inl (tests e member))

theorem follows_typeBoundsUpTo (deeper : Deeper g g') (plus captures constant : Bool) {n m : Nat}
    (enough : n ≤ m) :
    Follows (c.upTo n) Eq (typeBoundsUpTo g plus captures constant n)
      (typeBoundsUpTo g' plus captures constant m) := by
  induction n generalizing m with
  | zero =>
    refine follows_upTo_zero fun ran => ?_
    obtain ⟨rfl, -⟩ := reads_pure.mp ran
    exact List.suffix_rfl
  | succ n ih =>
    obtain ⟨m, rfl⟩ : ∃ k, m = k + 1 := ⟨m - 1, by omega⟩
    refine (deeper.bound _ captures constant).bind fun _ => (follows_seesOperator (.inl rfl)).bind
      fun _ => .ite (follows_operator_bind fun _ => ?_) (follows_pure rfl)
    refine follows_beginsBound.bind fun _ => .ite ?_ (follows_pure rfl)
    exact (ih (by omega)).bind fun ⟨_, _⟩ => follows_pure rfl

theorem follows_typeBounds (deeper : Deeper g g') (plus captures constant : Bool) :
    Follows c Eq (typeBounds g plus captures constant) (typeBounds g' plus captures constant) :=
  follows_fuel fun _ _ enough => follows_typeBoundsUpTo deeper plus captures constant enough

end Paths

end Parser

end Grammar

end Forwarding
