import Forwarding.Proofs.RereadingTypes
/-!
Bounds, generic parameters and predicates read back. Bounds in an everyday form are lifetimes and
traits. What is recorded of a parameter with such bounds, or of a predicate, parses.
-/

namespace Forwarding

/-- A bound in an everyday form: a lifetime, or a trait, possibly with the mark of one that is not
required. -/
inductive Tree.IsPlainBound : Tree → Prop
  | lifetime {name : String} (named : Lexer.IsName name) : IsPlainBound (.lifetime name)
  | trait (maybe isGlobal : Bool) (first : Segment) (more : List Segment)
      (named : ∀ s ∈ first :: more, s.IsNamed)
      (types : ∀ s ∈ first :: more, ∀ t ∈ s.types, t.IsPlain) :
      IsPlainBound (.seq ((if maybe then [.operator "?"] else [])
        ++ [.path isGlobal ((first :: more).map Segment.tree)]))

namespace Grammar.Parser

open Lexeme

variable {g : Grammar} {after : List Token}

theorem Begins.noGroup {listed tokens : List Token} {delimiter : Delimiter}
    (begins : Begins listed tokens) (none : .opening delimiter ∉ listed) :
    ahead tokens (.group delimiter) = false := by
  cases tokens with
  | nil => rfl
  | cons t more =>
    have other : t ≠ .opening delimiter := fun same => none (same ▸ begins t rfl)
    simpa [ahead] using other

theorem takes_seesParenthesized (ends : Begins pathEnds after) :
    Takes seesParenthesized after false after := by
  have noColons : ahead after (.operator "::") = false := ends.noOperator (by decide)
  unfold seesParenthesized
  rw [takes_peek_bind, Begins.noGroup ends (by decide), if_neg Bool.false_ne_true,
    takes_seesOperator_bind, noColons]
  exact takes_peek3_bind fun flag => takes_pure _

theorem takes_traitBound (constant maybe isGlobal : Bool) {first : Segment} {more : List Segment}
    (named : ∀ s ∈ first :: more, s.IsNamed)
    (types : ∀ s ∈ first :: more, ∀ t ∈ s.types, t.IsPlain ∧ Rereads g t)
    (ends : Begins pathEnds after) :
    Takes (traitBound g constant) ((if maybe then Token.operator "?" else []) ++
        ((Tree.path isGlobal ((first :: more).map Segment.tree)).tokens ++ after))
      (.seq ((if maybe then [.operator "?"] else [])
        ++ [.path isGlobal ((first :: more).map Segment.tree)]), false) after := by
  have read := takes_path isGlobal named types ends
  obtain ⟨rest, start⟩ := exists_tokens_path isGlobal first more after
  have segment := (named first List.mem_cons_self).name
  have noFor := segment.ne_of_keyword "for" (by decide) (by decide)
  have noConst := segment.ne_of_keyword "const" (by decide) (by decide)
  rw [start] at read ⊢
  have last : ∃ name args,
      ((first :: more).map Segment.tree).getLast? = some (.segment name args) := by
    rw [List.getLast?_map]
    cases found : (first :: more).getLast? with
    | none => simp at found
    | some s => exact ⟨_, _, rfl⟩
  obtain ⟨name, args, last⟩ := last
  have noBinder : ahead ((if isGlobal then Token.operator "::" else []) ++ .ident first.name :: rest)
      (.word "for") = false := by
    cases isGlobal with
    | true => rfl
    | false => simp [ahead, sees, leaves, noFor]
  have tests : ahead ((if maybe then Token.operator "?" else []) ++
        ((if isGlobal then Token.operator "::" else []) ++ .ident first.name :: rest))
          (.word "for") = false ∧
      ahead ((if maybe then Token.operator "?" else []) ++
        ((if isGlobal then Token.operator "::" else []) ++ .ident first.name :: rest))
          (.operator "~") = false ∧
      ahead ((if maybe then Token.operator "?" else []) ++
        ((if isGlobal then Token.operator "::" else []) ++ .ident first.name :: rest))
          (.word "const") = false := by
    cases maybe with
    | true => exact ⟨rfl, rfl, rfl⟩
    | false =>
      refine ⟨noBinder, ?_⟩
      cases isGlobal with
      | true => exact ⟨rfl, rfl⟩
      | false => exact ⟨rfl, by simp [ahead, sees, leaves, noConst]⟩
  obtain ⟨noBefore, noTilde, noConst⟩ := tests
  have question : ∃ found : Option Tree, found.toList = (if maybe then [.operator "?"] else []) ∧
      Takes (operator? "?") ((if maybe then Token.operator "?" else []) ++
        ((if isGlobal then Token.operator "::" else []) ++ .ident first.name :: rest)) found
        ((if isGlobal then Token.operator "::" else []) ++ .ident first.name :: rest) := by
    cases maybe with
    | true => exact ⟨_, rfl, takes_operator?_some (by decide) (by decide)⟩
    | false =>
      refine ⟨_, rfl, takes_operator?_none ?_⟩
      cases isGlobal <;> rfl
  obtain ⟨found, same, question⟩ := question
  unfold traitBound
  refine (takes_binder?_none noBefore).bind (takes_place_bind fun position => ?_)
  simp only [takes_seesOperator_bind, takes_seesWord_bind, noTilde, noConst, Bool.false_eq_true,
    if_false, pure_bind]
  refine takes_place_bind fun position' => question.bind ?_
  split
  on_goal 1 => refine (takes_binder?_none noBinder).bind ?_
  all_goals
    refine read.bind ?_
    simp only [last]
    refine (takes_seesParenthesized ends).bind ?_
    rw [Bool.and_false, if_neg Bool.false_ne_true, Option.isSome_none, Bool.or_self, Bool.and_false,
      if_neg Bool.false_ne_true, same, Option.toList_none, List.append_nil]
    exact takes_pure _

theorem takes_boundOf_lifetime (captures constant : Bool) (name : String) :
    Takes (boundOf g captures constant) (Token.lifetime name ++ after)
      ⟨.lifetime name, .outlives⟩ after := by
  have lifetime : ahead (Token.lifetime name ++ after) .lifetime = true := rfl
  unfold boundOf
  rw [takes_peek_bind, lifetime, if_pos rfl]
  exact (takes_lifetime name).bind (takes_pure _)

theorem takes_boundOf_trait (captures constant maybe isGlobal : Bool) {first : Segment}
    {more : List Segment} (named : ∀ s ∈ first :: more, s.IsNamed)
    (types : ∀ s ∈ first :: more, ∀ t ∈ s.types, t.IsPlain ∧ Rereads g t)
    (ends : Begins pathEnds after) :
    Takes (boundOf g captures constant) ((if maybe then Token.operator "?" else []) ++
        ((Tree.path isGlobal ((first :: more).map Segment.tree)).tokens ++ after))
      ⟨.seq ((if maybe then [.operator "?"] else [])
        ++ [.path isGlobal ((first :: more).map Segment.tree)]), .implemented⟩ after := by
  have read := takes_traitBound constant maybe isGlobal named types ends
  obtain ⟨rest, start⟩ := exists_tokens_path isGlobal first more after
  have noUse := (named first List.mem_cons_self).name.ne_of_keyword "use" (by decide) (by decide)
  rw [start] at read ⊢
  have tests : ahead ((if maybe then Token.operator "?" else []) ++
        ((if isGlobal then Token.operator "::" else []) ++ .ident first.name :: rest))
          .lifetime = false ∧
      ahead ((if maybe then Token.operator "?" else []) ++
        ((if isGlobal then Token.operator "::" else []) ++ .ident first.name :: rest))
          (.word "use") = false ∧
      ahead ((if maybe then Token.operator "?" else []) ++
        ((if isGlobal then Token.operator "::" else []) ++ .ident first.name :: rest))
          (.group .parenthesis) = false := by
    cases maybe with
    | true => exact ⟨rfl, rfl, rfl⟩
    | false =>
      cases isGlobal with
      | true => exact ⟨rfl, rfl, rfl⟩
      | false => exact ⟨rfl, by simp [ahead, sees, leaves, noUse], rfl⟩
  obtain ⟨noLifetime, noUse, noGroup⟩ := tests
  unfold boundOf
  rw [takes_peek_bind, noLifetime, if_neg Bool.false_ne_true, takes_seesWord_bind, noUse,
    if_neg Bool.false_ne_true]
  refine takes_get_bind fun i _ => ?_
  rw [takes_peek_bind, noGroup, if_neg Bool.false_ne_true]
  exact read.bind (takes_pure _)

end Grammar.Parser

namespace Tree

open Grammar Grammar.Parser

theorem tokens_trait (maybe : Bool) (path : Tree) :
    (seq ((if maybe then [operator "?"] else []) ++ [path])).tokens =
      (if maybe then Token.operator "?" else []) ++ path.tokens := by
  cases maybe <;> simp [tokens, tokensOf, tokens_operator]

theorem IsPlainBound.isLexable {b : Tree} (plain : b.IsPlainBound) : Token.IsLexable b.tokens := by
  cases plain with
  | lifetime named => exact .lifetime named
  | trait maybe isGlobal first more named types =>
    rw [tokens_trait]
    refine .append ?_ (isLexable_path isGlobal named fun s member t inside =>
      ⟨(types s member t inside).isLifetime, (types s member t inside).isLexable⟩)
    split
    · exact .operator "?" (by decide)
    · exact .nil

theorem IsPlainBound.tokens_ne_nil {b : Tree} (plain : b.IsPlainBound) : b.tokens ≠ [] := by
  cases plain with
  | lifetime named => exact List.cons_ne_nil _ _
  | trait maybe isGlobal first more named types =>
    obtain ⟨rest, start⟩ := exists_tokens_path isGlobal first more []
    rw [tokens_trait, ← List.append_nil (path _ _).tokens, start]
    simp

/-- A bound that is printed is read back, at any depth that its tokens do not exceed. -/
theorem IsPlainBound.takes_bound {b : Tree} (plain : b.IsPlainBound) {depth : Nat}
    (deep : b.tokens.length < depth) {after : List Token} (ends : Begins pathEnds after) :
    Takes (ofDepth depth).bound (b.tokens ++ after) b after := by
  obtain ⟨depth, rfl⟩ : ∃ n, depth = n + 1 := ⟨depth - 1, by omega⟩
  cases plain with
  | lifetime named => exact (takes_boundOf_lifetime false true _).bind (takes_pure _)
  | trait maybe isGlobal first more named types =>
    rw [tokens_trait] at deep ⊢
    rw [List.append_assoc]
    refine (takes_boundOf_trait false true maybe isGlobal named (fun s listed t member => ?_)
      ends).bind (takes_pure _)
    have plain := types s listed t member
    have shorter := length_type_lt_path isGlobal listed
      (fun u inside => (types s listed u inside).isLifetime) member
    rw [List.length_append] at deep
    obtain ⟨depth, rfl⟩ : ∃ n, depth = n + 1 := ⟨depth - 1, by omega⟩
    exact ⟨plain, plain.rereads (by omega)⟩

end Tree

end Forwarding
