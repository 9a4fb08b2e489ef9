import Forwarding.Definition
import Forwarding.Proofs.Folding
import Forwarding.Proofs.RereadingBounds
/-!
Generic parameters and predicates read back. What is recorded of a parameter with bounds in an
everyday form is a text that parses as a declaration of the parameter, and what is recorded of a
predicate parses as a predicate.
-/

namespace Forwarding

namespace Tree.IsPlainBound

open Grammar

/-- What may follow a bound does not begin one. -/
theorem begins {b : Tree} (plain : b.IsPlainBound) (after : List Token) :
    (b.tokens ++ after).isEmpty = false ∧
      (∀ symbols ∈ [",", ">", "=", ";"], ahead (b.tokens ++ after) (.operator symbols) = false) ∧
      ahead (b.tokens ++ after) (.group .brace) = false ∧
      (ahead (b.tokens ++ after) (.operator ":") && !ahead (b.tokens ++ after) (.operator "::")) =
        false := by
  simp only [List.forall_mem_cons, List.not_mem_nil, false_implies, implies_true, and_true]
  cases plain with
  | lifetime named => exact ⟨rfl, ⟨rfl, rfl, rfl, rfl⟩, rfl, rfl⟩
  | trait maybe isGlobal first more named types =>
    obtain ⟨rest, start⟩ := Parser.exists_tokens_path isGlobal first more after
    rw [tokens_trait, List.append_assoc, start]
    cases maybe <;> cases isGlobal <;> exact ⟨rfl, ⟨rfl, rfl, rfl, rfl⟩, rfl, rfl⟩

end Tree.IsPlainBound

namespace Lexer

open Token

theorem spells_sum {trees : List Tree} (lexable : ∀ t ∈ trees, IsLexable t.tokens) :
    Spells [] (" + ".intercalate (trees.map Tree.render)).toList
      (Token.separated "+" false (trees.map Tree.tokens)) := by
  induction trees with
  | nil => exact .done
  | cons t rest ih =>
    have own := lexable t List.mem_cons_self
    have text : t.render.toList = renderChars t.tokens := String.toList_ofList
    cases rest with
    | nil =>
      rw [List.map_singleton, String.intercalate_singleton, text]
      simpa [Token.separated] using own.spells
    | cons next rest =>
      have later := ih fun u member => lexable u (List.mem_cons_of_mem _ member)
      generalize others : " + ".intercalate ((next :: rest).map Tree.render) = more at later
      have stops : Stops (' ' :: '+' :: ' ' :: more.toList) := fun c first => by
        cases first
        decide
      have sign : Stands (' ' :: more.toList) (.punct '+' false) := .operator _ (by decide)
      have spelled := (own.printable.spells stops).append
        (.blank (by decide) (.token sign (.blank (by decide) later)))
      have same : (" + ".intercalate ((t :: next :: rest).map Tree.render)).toList =
          renderChars t.tokens ++ ' ' :: '+' :: ' ' :: more.toList := by
        rw [← others, List.map_cons, List.map_cons, String.intercalate_cons_cons,
          String.toList_append, String.toList_append, text, List.append_assoc]
        rfl
      have separate : Token.separated "+" false ((t :: next :: rest).map Tree.tokens) =
          t.tokens ++ .punct '+' false :: Token.separated "+" false ((next :: rest).map Tree.tokens) :=
        rfl
      rw [same, separate]
      exact spelled

/-- A text before a colon, and another one after it. -/
theorem spells_colon {before after : List Token} {front text : String}
    (first : ∀ more, Spells (':' :: more) (front.toList ++ ':' :: more) before)
    (last : Spells [] text.toList after) :
    Spells [] (front ++ ": " ++ text).toList (before ++ (Token.operator ":" ++ after)) := by
  have colon : Stands (' ' :: text.toList) (.punct ':' false) := .operator _ (by decide)
  have spelled := (first (' ' :: text.toList)).append (.token colon (.blank (by decide) last))
  rw [String.toList_append, String.toList_append, List.append_assoc]
  exact spelled

theorem spells_name {name : String} (named : IsName name) {rest : List Char}
    (ends : EndsWord rest) : Spells rest (name.toList ++ rest) [.ident name] :=
  .token (.word named ends) .done

theorem toList_render_lifetime (name : String) :
    (Tree.lifetime name).render.toList = apostrophe :: name.toList := by
  simp [Tree.render, Token.render, Tree.tokens, Token.lifetime, renderChars, chars, spaced]

theorem spells_lifetime {name : String} (named : IsName name) {rest : List Char}
    (ends : EndsWord rest) :
    Spells rest ((Tree.lifetime name).render.toList ++ rest) (Token.lifetime name) := by
  rw [toList_render_lifetime]
  exact .token (.lifetime named ends) (spells_name named ends)

theorem endsWord_nil : EndsWord [] :=
  fun c first => by cases first

theorem endsWord_colon (more : List Char) : EndsWord (':' :: more) := by
  rintro c first
  cases first
  decide

/-- A text with bounds after a colon, if there are any. -/
theorem spells_bounded {front : String} {before : List Token}
    (first : ∀ rest, EndsWord rest → Spells rest (front.toList ++ rest) before) {trees : List Tree}
    (lexable : ∀ t ∈ trees, IsLexable t.tokens) :
    Spells [] (if (trees.map Tree.render).isEmpty then front
        else front ++ ": " ++ " + ".intercalate (trees.map Tree.render)).toList
      (before ++ if trees.isEmpty then [] else
        Token.operator ":" ++ Token.separated "+" false (trees.map Tree.tokens)) := by
  rw [List.isEmpty_map]
  split
  · have spelled := first [] endsWord_nil
    rwa [List.append_nil] at spelled ⊢
  · exact spells_colon (fun more => first _ (endsWord_colon more)) (spells_sum lexable)

theorem isMatched_bounded {before : List Token} (matched : IsLexable before) {trees : List Tree}
    (lexable : ∀ t ∈ trees, IsLexable t.tokens) :
    Lexeme.IsMatched (before ++ if trees.isEmpty then [] else
      Token.operator ":" ++ Token.separated "+" false (trees.map Tree.tokens)) := by
  refine (matched.append ?_).matched
  split
  · exact .nil
  · refine (IsLexable.operator ":" (by decide)).append (.separated _ (.operator "+" (by decide)) ?_)
    simp only [List.mem_map]
    rintro _ ⟨t, member, rfl⟩
    exact lexable t member

end Lexer

namespace Grammar.Parser

open Lexeme

variable {g : Grammar} {tokens after : List Token}

theorem takes_outerAttributes_none (absent : ahead tokens (.operator "#") = false) :
    Takes (outerAttributes g) tokens [] tokens := by
  refine takes_get_bind fun i _ => ?_
  rw [repeatUpTo]
  refine Takes.bind (a := none) ?_ (takes_pure _)
  rw [takes_seesOperator_bind, absent]
  exact takes_pure _

/-- The end, or one of some expectations. -/
theorem tests_stop (alternatives : List Expectation) :
    Tests (do return (← atEnd) || (← peekAny alternatives))
      fun tokens => tokens.isEmpty || alternatives.any (ahead tokens) :=
  tests_atEnd.bind fun _ => (tests_peekAny alternatives).bind fun _ => .pure _

theorem tests_endsClause :
    Tests endsClause fun tokens => if tokens.isEmpty then true else
      if [Expectation.group .brace, .operator ",", .operator ";", .operator "="].any (ahead tokens)
        then true else ahead tokens (.operator ":") && !ahead tokens (.operator "::") :=
  tests_atEnd.bind fun _ => .ite (.pure _) ((tests_peekAny _).bind fun _ => .ite (.pure _)
    ((tests_seesOperator ":").bind fun _ => (tests_seesOperator "::").bind fun _ => .pure _))

/-- Bounds joined by plus signs are read up to the end. -/
theorem takes_bounds {depth : Nat} {bounds : List Tree} (plain : ∀ b ∈ bounds, b.IsPlainBound)
    (some : bounds ≠ []) {stop : Parser Bool} {ends : List Token → Bool} (tested : Tests stop ends)
    (begins : ∀ b ∈ bounds, ∀ rest, ends (b.tokens ++ rest) = false)
    (deep : (Token.separated "+" false (bounds.map Tree.tokens)).length < depth) :
    Takes (sum stop (ofDepth depth).bound)
      (Token.separated "+" false (bounds.map Tree.tokens)) (bounds, false) [] := by
  have each : List.Forall₂ (fun part value => ∀ rest, rest = [] ∨
      (∃ more, rest = Token.operator "+" ++ more) →
        ends (part ++ rest) = false ∧ Takes (ofDepth depth).bound (part ++ rest) value rest)
      (bounds.map Tree.tokens) bounds := by
    refine List.forall₂_map_left_iff.mpr (List.forall₂_same.mpr fun b member rest follows => ?_)
    have short := Token.length_le_separated "+" false (List.mem_map_of_mem (f := Tree.tokens) member)
    refine ⟨begins b member rest, (plain b member).takes_bound (by omega) ?_⟩
    rcases follows with rfl | ⟨more, rfl⟩
    all_goals
      rintro t first
      cases first
    decide
  have parted : ∀ part ∈ bounds.map Tree.tokens, IsMatched part ∧ part ≠ [] := by
    simp only [List.mem_map]
    rintro _ ⟨b, member, rfl⟩
    exact ⟨(plain b member).isLexable.matched, (plain b member).tokens_ne_nil⟩
  have read := takes_sum tested each rfl (by simpa using some) parted
  rwa [List.append_nil] at read

theorem takes_typeParameter {depth : Nat} {name : String} (named : IsIdentifier name)
    {bounds : List Tree} (plain : ∀ b ∈ bounds, b.IsPlainBound)
    (deep : (Token.separated "+" false (bounds.map Tree.tokens)).length < depth) :
    Takes (genericParameter (ofDepth depth))
      (.ident name :: if bounds.isEmpty then [] else
        Token.operator ":" ++ Token.separated "+" false (bounds.map Tree.tokens))
      (.type [] name bounds false none) [] := by
  have identifier (tokens : List Token) : ahead (.ident name :: tokens) .identifier = true := named.2
  unfold genericParameter
  refine (takes_outerAttributes_none rfl).bind ?_
  rw [takes_peek_bind, identifier, if_pos rfl]
  unfold typeParameter
  refine (takes_outerAttributes_none rfl).bind ((takes_identifier named.2).bind ?_)
  split
  · rename_i none
    obtain rfl : bounds = [] := by simpa using none
    refine (takes_operator?_none rfl).bind ((takes_pure ([], false)).bind ?_)
    exact (takes_operator?_none rfl).bind ((takes_pure Option.none).bind (takes_pure _))
  · rename_i some
    refine (takes_operator?_some (by decide) (by decide)).bind ?_
    have read := takes_bounds plain (by simpa using some)
      (tests_stop [.operator ",", .operator ">", .operator "="]) (fun b member rest => ?_) deep
    · exact read.bind ((takes_operator?_none rfl).bind
        ((takes_pure Option.none).bind (takes_pure _)))
    · obtain ⟨filled, noOperator, -⟩ := (plain b member).begins rest
      simp [filled, noOperator]

theorem takes_lifetimeBounds {bounds : List String} (named : ∀ b ∈ bounds, Lexer.IsName b)
    (some : bounds ≠ []) (alternatives : List Expectation)
    (begins : ∀ name rest, alternatives.any (ahead (Token.lifetime name ++ rest)) = false) :
    Takes (lifetimeBounds do return (← atEnd) || (← peekAny alternatives))
      (Token.separated "+" false ((bounds.map Tree.lifetime).map Tree.tokens)) (bounds, false) [] := by
  have each : List.Forall₂ (fun part value => ∀ rest, rest = [] ∨
      (∃ more, rest = Token.operator "+" ++ more) →
        ((part ++ rest).isEmpty || alternatives.any (ahead (part ++ rest))) = false ∧
          Takes Parser.lifetime (part ++ rest) value rest)
      ((bounds.map Tree.lifetime).map Tree.tokens) bounds := by
    rw [List.map_map]
    exact List.forall₂_map_left_iff.mpr (List.forall₂_same.mpr fun b _ rest _ =>
      ⟨begins b rest, takes_lifetime b⟩)
  have parted : ∀ part ∈ (bounds.map Tree.lifetime).map Tree.tokens,
      IsMatched part ∧ part ≠ [] := by
    simp only [List.mem_map, exists_exists_and_eq_and]
    rintro _ ⟨b, member, rfl⟩
    exact ⟨(Token.IsLexable.lifetime (named b member)).matched, List.cons_ne_nil _ _⟩
  have read := takes_sum (tests_stop alternatives) each rfl (by simpa using some) parted
  rwa [List.append_nil] at read

theorem takes_lifetimeParameter {name : String} {bounds : List String}
    (named : ∀ b ∈ bounds, Lexer.IsName b) :
    Takes (genericParameter g) (Token.lifetime name ++ if bounds.isEmpty then [] else
        Token.operator ":" ++ Token.separated "+" false ((bounds.map Tree.lifetime).map Tree.tokens))
      (.lifetime [] name bounds false) [] := by
  have noIdentifier (tokens : List Token) :
      ahead (Token.lifetime name ++ tokens) .identifier = false := rfl
  have lifetime (tokens : List Token) :
      ahead (Token.lifetime name ++ tokens) .lifetime = true := rfl
  unfold genericParameter
  refine (takes_outerAttributes_none rfl).bind ?_
  rw [takes_peek_bind, noIdentifier, if_neg Bool.false_ne_true, takes_peek_bind, lifetime,
    if_pos rfl]
  unfold lifetimeParameter
  refine (takes_outerAttributes_none rfl).bind ((takes_lifetime name).bind ?_)
  split
  · rename_i none
    obtain rfl : bounds = [] := by simpa using none
    exact (takes_operator?_none rfl).bind ((takes_pure ([], false)).bind (takes_pure _))
  · rename_i some
    refine (takes_operator?_some (by decide) (by decide)).bind ?_
    exact (takes_lifetimeBounds named (by simpa using some) _ fun name rest => rfl).bind
      (takes_pure _)

theorem takes_constParameter {depth : Nat} {name : String} (named : IsIdentifier name)
    {type : Tree} (plain : type.IsPlain) (deep : type.tokens.length < depth) :
    Takes (genericParameter (ofDepth depth))
      (.ident "const" :: .ident name :: (Token.operator ":" ++ type.tokens))
      (.const [] name type none) [] := by
  obtain ⟨depth, rfl⟩ : ∃ n, depth = n + 1 := ⟨depth - 1, by omega⟩
  have read := plain.rereads (Nat.le_of_lt_succ deep) true [] (by rintro t first; cases first)
  rw [List.append_nil] at read
  have noIdentifier (tokens : List Token) : ahead (.ident "const" :: tokens) .identifier = false :=
    rfl
  have noLifetime (tokens : List Token) : ahead (.ident "const" :: tokens) .lifetime = false := rfl
  have const (tokens : List Token) : ahead (.ident "const" :: tokens) (.word "const") = true := rfl
  unfold genericParameter
  refine (takes_outerAttributes_none rfl).bind ?_
  rw [takes_peek_bind, noIdentifier, if_neg Bool.false_ne_true, takes_peek_bind, noLifetime,
    if_neg Bool.false_ne_true, takes_seesWord_bind, const, if_pos rfl]
  unfold constParameter
  refine (takes_outerAttributes_none rfl).bind ((takes_word "const").bind
    ((takes_identifier named.2).bind ((takes_operator (by decide) (by decide)).bind ?_)))
  exact read.bind ((takes_operator?_none rfl).bind ((takes_pure none).bind (takes_pure _)))

theorem takes_wherePredicate {depth : Nat} {bounded : Tree} (plain : bounded.IsPlain)
    {bounds : List Tree} (each : ∀ b ∈ bounds, b.IsPlainBound) (some : bounds ≠ [])
    (deep : (bounded.tokens ++ (Token.operator ":" ++
      Token.separated "+" false (bounds.map Tree.tokens))).length < depth) :
    Takes (wherePredicate (ofDepth depth)) (bounded.tokens ++ (Token.operator ":" ++
      Token.separated "+" false (bounds.map Tree.tokens))) (.type none bounded bounds false) [] := by
  rw [List.length_append, List.length_append] at deep
  obtain ⟨depth, rfl⟩ : ∃ n, depth = n + 1 := ⟨depth - 1, by omega⟩
  have ends (tokens : List Token) : Begins typeEnds (Token.operator ":" ++ tokens) := by
    rintro t first
    cases first
    decide
  have shallow : bounded.tokens.length ≤ depth := by omega
  have read := plain.rereads shallow true _
    (ends (Token.separated "+" false (bounds.map Tree.tokens)))
  obtain ⟨first, rest, same, starts⟩ := plain.startsType
  have noLifetime (tokens : List Token) : ahead (bounded.tokens ++ tokens) .lifetime = false := by
    rw [same]
    exact ahead_lifetime_of_startsType starts
  have noFor (tokens : List Token) : ahead (bounded.tokens ++ tokens) (.word "for") = false := by
    rw [same]
    exact ahead_word_of_startsType starts "for" (by decide) (by decide)
  have short : (Token.separated "+" false (bounds.map Tree.tokens)).length < depth + 1 := by omega
  have sum := takes_bounds each some tests_endsClause (fun b member rest => ?_) short
  · unfold wherePredicate
    rw [takes_peek_bind, noLifetime]
    refine takes_peek2_bind fun flag => ?_
    rw [Bool.false_and, if_neg Bool.false_ne_true]
    exact (takes_binder?_none (noFor _)).bind (read.bind
      ((takes_operator (by decide) (by decide)).bind (sum.bind (takes_pure _))))
  · obtain ⟨filled, noOperator, noBrace, noColon⟩ := (each b member).begins rest
    simp only [filled, noBrace, noColon, noOperator "," (by decide), noOperator ";" (by decide),
      noOperator "=" (by decide), List.any_cons, List.any_nil, Bool.or_self, Bool.false_eq_true,
      if_false]

theorem takes_wherePredicate_lifetime {name : String} {bounds : List String}
    (named : ∀ b ∈ bounds, Lexer.IsName b) (some : bounds ≠ []) :
    Takes (wherePredicate g) (Token.lifetime name ++ (Token.operator ":" ++
        Token.separated "+" false ((bounds.map Tree.lifetime).map Tree.tokens)))
      (.lifetime name bounds false) [] := by
  have lifetime (tokens : List Token) :
      ahead (Token.lifetime name ++ tokens) .lifetime = true := rfl
  have colon (tokens : List Token) : ahead (Token.operator ":" ++ tokens) (.operator ":") = true :=
    rfl
  unfold wherePredicate
  rw [takes_peek_bind, lifetime, takes_peek2_lifetime_bind, colon, Bool.and_true, if_pos rfl]
  exact (takes_lifetime name).bind ((takes_operator (by decide) (by decide)).bind
    ((takes_lifetimeBounds named some _ fun name rest => rfl).bind (takes_pure _)))

end Grammar.Parser

/-- A recorded parameter with bounds in an everyday form. -/
inductive GenericParam.IsPlain : GenericParam → Prop
  | type {name : String} {bounds : List Tree} {canonical : List String}
      (named : IsIdentifier name) (plain : ∀ b ∈ bounds, b.IsPlainBound) :
      IsPlain ⟨name, .type, bounds.map Tree.render, canonical⟩
  | lifetime {name : String} {bounds canonical : List String} (named : Lexer.IsName name)
      (plain : ∀ b ∈ bounds, Lexer.IsName b) :
      IsPlain ⟨(Tree.lifetime name).render, .lifetime,
        (bounds.map Tree.lifetime).map Tree.render, canonical⟩
  | const {name : String} {type : Tree} {bounds canonical : List String}
      (named : IsIdentifier name) (plain : type.IsPlain) :
      IsPlain ⟨name, .const type.render, bounds, canonical⟩

namespace GenericParam

open Lexer Grammar

/-- The bounds that the declaration of a recorded parameter has. -/
def writtenBounds (p : GenericParam) : List String :=
  match p.kind with
  | .const _ => []
  | _ => p.bounds

/-- What is recorded of a parameter is a text that parses as its declaration, with all its bounds
unless it is a constant. -/
theorem IsPlain.exists_parseText {p : GenericParam} (plain : p.IsPlain) :
    ∃ q, parseText genericParameter p.declaration = .ok q ∧
      q.boundTrees.map Tree.render = p.writtenBounds := by
  cases plain with
  | @type name bounds canonical named plain =>
    have lexable := fun b member => (plain b member).isLexable
    refine ⟨.type [] name bounds false none, parseText_of_takes
      (spells_bounded (fun rest ends => spells_name named.1 ends) lexable)
      (isMatched_bounded (.word named.1 .nil) lexable) fun depth deep => ?_, rfl⟩
    refine Parser.takes_typeParameter named plain ?_
    rw [List.length_append] at deep
    split at deep
    · rename_i none
      rw [List.isEmpty_iff.mp none]
      exact Nat.lt_of_le_of_lt (Nat.zero_le _) deep
    · rw [List.length_append] at deep
      omega
  | @lifetime name bounds canonical named plain =>
    have lexable : ∀ t ∈ bounds.map Tree.lifetime, Token.IsLexable t.tokens := by
      simp only [List.mem_map]
      rintro _ ⟨b, member, rfl⟩
      exact .lifetime (plain b member)
    refine ⟨.lifetime [] name bounds false, parseText_of_takes
      (spells_bounded (fun rest ends => spells_lifetime named ends) lexable)
      (isMatched_bounded (.lifetime named) lexable) fun depth _ => ?_, rfl⟩
    rw [List.isEmpty_map]
    exact Parser.takes_lifetimeParameter plain
  | @const name type bounds canonical named plain =>
    have lexable := plain.isLexable
    have const : IsName "const" := by decide +kernel
    have blank : EndsWord (' ' :: (name ++ ": " ++ type.render).toList) := by
      rintro c first
      cases first
      decide
    have text : type.render.toList = Token.renderChars type.tokens := String.toList_ofList
    have spelled := (spells_name const blank).append (.blank (by decide)
      (spells_colon (fun more => spells_name named.1 (endsWord_colon more))
        (text ▸ lexable.spells)))
    have same : (declaration ⟨name, .const type.render, bounds, canonical⟩).toList =
        "const".toList ++ ' ' :: (name ++ ": " ++ type.render).toList := by
      simp [declaration]
    refine ⟨.const [] name type none,
      parseText_of_takes (same ▸ spelled) ?_ fun depth deep => ?_, rfl⟩
    · exact (Token.IsLexable.word const (.word named.1 (.append (.operator ":" (by decide))
        lexable))).matched
    · refine Parser.takes_constParameter named plain ?_
      rw [List.length_append, List.length_append, List.length_append] at deep
      omega

theorem IsPlain.parses {p : GenericParam} (plain : p.IsPlain) :
    Parses genericParameter p.declaration :=
  plain.exists_parseText.imp fun _ => And.left

end GenericParam

/-- A predicate in an everyday form, under no binder of lifetimes. -/
inductive WherePredicate.IsPlain : WherePredicate → Prop
  | lifetime {name : String} {bounds : List String} (named : Lexer.IsName name)
      (plain : ∀ b ∈ bounds, Lexer.IsName b) (some : bounds ≠ []) :
      IsPlain (.lifetime name bounds false)
  | type {bounded : Tree} {bounds : List Tree} (base : bounded.IsPlain)
      (plain : ∀ b ∈ bounds, b.IsPlainBound) (some : bounds ≠ []) :
      IsPlain (.type none bounded bounds false)

namespace WherePredicate

open Lexer Grammar

theorem tokens_lifetime (name : String) (bounds : List String) :
    (lifetime name bounds false).tree.tokens = Token.lifetime name ++ (Token.operator ":" ++
      Token.separated "+" false ((bounds.map Tree.lifetime).map Tree.tokens)) := by
  rw [← Tree.tokensOf_join, ← Tree.tokens_operator]
  rfl

theorem tokens_type (bounded : Tree) (bounds : List Tree) :
    (type none bounded bounds false).tree.tokens = bounded.tokens ++ (Token.operator ":" ++
      Token.separated "+" false (bounds.map Tree.tokens)) := by
  rw [← Tree.tokensOf_join, ← Tree.tokens_operator]
  rfl

/-- What is printed of a predicate parses as a predicate. -/
theorem IsPlain.parses {p : WherePredicate} (plain : p.IsPlain) :
    parseText wherePredicate p.tree.render = .ok p := by
  have text (tree : Tree) : tree.render.toList = Token.renderChars tree.tokens :=
    String.toList_ofList
  cases plain with
  | @lifetime name bounds named plain some =>
    have lexable : Token.IsLexable (WherePredicate.lifetime name bounds false).tree.tokens := by
      rw [tokens_lifetime]
      refine (Token.IsLexable.lifetime named).append ((Token.IsLexable.operator ":" (by decide)).append
        (.separated _ (.operator "+" (by decide)) ?_))
      simp only [List.mem_map, exists_exists_and_eq_and]
      rintro _ ⟨b, member, rfl⟩
      exact .lifetime (plain b member)
    refine parseText_of_takes (text _ ▸ lexable.spells) lexable.matched fun depth _ => ?_
    rw [tokens_lifetime]
    exact Parser.takes_wherePredicate_lifetime plain some
  | @type bounded bounds base plain some =>
    have lexable : Token.IsLexable (WherePredicate.type none bounded bounds false).tree.tokens := by
      rw [tokens_type]
      refine base.isLexable.append ((Token.IsLexable.operator ":" (by decide)).append
        (.separated _ (.operator "+" (by decide)) ?_))
      simp only [List.mem_map]
      rintro _ ⟨b, member, rfl⟩
      exact (plain b member).isLexable
    refine parseText_of_takes (text _ ▸ lexable.spells) lexable.matched fun depth deep => ?_
    rw [tokens_type] at deep ⊢
    exact Parser.takes_wherePredicate base plain some deep

end WherePredicate

end Forwarding
