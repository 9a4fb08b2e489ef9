import Forwarding.Proofs.Splicing
/-!
Heads of declarations. Readers of attributes, visibilities, generic parameters and where clauses
pass over what is printed of them.
-/

namespace Forwarding

namespace Lexeme.IsMatched

variable {tokens others : List Token}

theorem nil : IsMatched [] :=
  ⟨[], .nil⟩

theorem append (matched : IsMatched tokens) (matched' : IsMatched others) :
    IsMatched (tokens ++ others) := by
  obtain ⟨_, shown⟩ := matched
  obtain ⟨_, shown'⟩ := matched'
  exact ⟨_, shown.append shown'⟩

theorem leaf {t : Token} (noBracket : t.isBracket = false) (matched : IsMatched tokens) :
    IsMatched (t :: tokens) := by
  obtain ⟨_, shown⟩ := matched
  exact ⟨.leaf t .first :: _, .leaf noBracket shown⟩

theorem group (delimiter : Delimiter) (inside : IsMatched tokens) (matched : IsMatched others) :
    IsMatched (.opening delimiter :: (tokens ++ .closing delimiter :: others)) := by
  obtain ⟨body, shown⟩ := inside
  obtain ⟨_, shown'⟩ := matched
  exact ⟨.group delimiter body .first .first :: _, .group shown shown'⟩

theorem separated {separator : String} (apart : IsMatched (Token.operator separator))
    (trailing : Bool) {parts : List (List Token)} (each : ∀ part ∈ parts, IsMatched part) :
    IsMatched (Token.separated separator trailing parts) := by
  induction parts with
  | nil => exact nil
  | cons part parts ih =>
    have later := ih fun p member => each p (List.mem_cons_of_mem _ member)
    rw [Token.separated]
    refine (each part List.mem_cons_self).append ?_
    split
    · exact nil
    · exact apart.append later

theorem flatten {parts : List (List Token)} (each : ∀ part ∈ parts, IsMatched part) :
    IsMatched parts.flatten := by
  induction parts with
  | nil => exact nil
  | cons part parts ih =>
    rw [List.flatten_cons]
    exact (each part List.mem_cons_self).append
      (ih fun p member => each p (List.mem_cons_of_mem _ member))

end Lexeme.IsMatched

namespace Grammar.Parser

open Lexeme

variable {α β : Type} {g : Grammar} {tokens after : List Token} {said : β → Prop}

section Steps

/-- A look ahead at what a reader takes. -/
theorem Takes.lookingAhead {p : Parser α} {a : α} {middle : List Token}
    (taken : Takes p tokens a middle) : Takes (lookingAhead p) tokens (some a) tokens := by
  intro i shown
  obtain ⟨_, -, ran⟩ := taken i shown
  exact ⟨i.rest, shown, reads_lookingAhead.mpr ⟨rfl, .inl ⟨a, _, ran, rfl⟩⟩⟩

theorem takes_or {p q : Parser Bool} {a b : Bool} (first : Takes p tokens a tokens)
    (second : Takes q tokens b tokens) : Takes (p <||> q) tokens (a || b) tokens := by
  refine first.bind ?_
  cases a with
  | true => exact takes_pure _
  | false => exact second

theorem passes_if {condition : Prop} [Decidable condition] {p q : Parser β} (holds : condition)
    (given : Passes p tokens after said) :
    Passes (if condition then p else q) tokens after said := by
  rwa [if_pos holds]

theorem passes_else {condition : Prop} [Decidable condition] {p q : Parser β} (fails : ¬ condition)
    (given : Passes q tokens after said) :
    Passes (if condition then p else q) tokens after said := by
  rwa [if_neg fails]

/-- What follows a choice between two readers. -/
theorem passes_ite_bind {condition : Prop} [Decidable condition] {p q : Parser α}
    {f : α → Parser β} {middle : List Token}
    (first : Passes (if condition then p else q) tokens middle)
    (next : ∀ a, Passes (f a) middle after said) :
    Passes (if condition then p >>= f else q >>= f) tokens after said := by
  by_cases holds : condition
  · rw [if_pos holds] at first ⊢
    exact first.bind next
  · rw [if_neg holds] at first ⊢
    exact first.bind next

/-- Lexemes of some tokens, without the first one, show other tokens. -/
def Skips (tokens middle : List Token) : Prop :=
  ∀ lexemes, Shows lexemes tokens → Shows (skipOne lexemes) middle

theorem skips_symbol {symbol : Char} {joint : Bool} (noMark : symbol ≠ Token.apostrophe) :
    Skips (.punct symbol joint :: tokens) tokens :=
  fun _ => skipOne_of_shows noMark

theorem skips_word (name : String) : Skips (.ident name :: tokens) tokens := by
  intro lexemes shown
  obtain ⟨place, rest, rfl, later⟩ := shown.exists_leaf rfl
  exact later

theorem skips_lifetime (name : String) : Skips (Token.lifetime name ++ tokens) tokens := by
  intro lexemes shown
  obtain ⟨place, middle, rfl, shown'⟩ := shown.exists_leaf rfl
  obtain ⟨place', rest, rfl, later⟩ := shown'.exists_leaf rfl
  exact later

theorem Skips.takes_peek2 {middle : List Token} (skips : Skips tokens middle) (e : Expectation) :
    Takes (peek2 e) tokens (ahead middle e) tokens :=
  fun i shown => ⟨i.rest, shown, reads_peek2.mpr ⟨rfl, (sees_of_shows (skips _ shown) e).symm⟩⟩

theorem Skips.takes_peek3 {middle last : List Token} (skips : Skips tokens middle)
    (skips' : Skips middle last) (e : Expectation) :
    Takes (peek3 e) tokens (ahead last e) tokens :=
  fun i shown => ⟨i.rest, shown,
    reads_peek3.mpr ⟨rfl, (sees_of_shows (skips' _ (skips _ shown)) e).symm⟩⟩

end Steps

theorem Tests.takes {test : Parser α} {answer : List Token → α} (tested : Tests test answer) :
    Takes test tokens (answer tokens) tokens :=
  fun i shown => ⟨i.rest, shown, (tested i tokens shown _ _).mpr ⟨rfl, rfl⟩⟩

section Attributes

theorem takes_plainNamesUpTo {name : String} {rest : List Token} (count : Nat)
    (begins : (Expectation.identifier :: pathWords).any (ahead (.ident name :: rest)) = true)
    (noColons : ahead rest (.operator "::") = false) :
    Takes (plainNamesUpTo (count + 1)) (.ident name :: rest) ([name], false) rest := by
  rw [plainNamesUpTo, takes_peekAny_bind, begins]
  refine (takes_anyWord name).bind ?_
  rw [takes_seesOperator_bind, noColons]
  exact takes_pure _

theorem passes_plainPath {name : String} {rest : List Token}
    (begins : (Expectation.identifier :: pathWords).any (ahead (.ident name :: rest)) = true)
    (noColons : ahead rest (.operator "::") = false) :
    Passes plainPath (.ident name :: rest) rest (·.tree.tokens = [.ident name]) := by
  refine (takes_operator?_none rfl).passes_bind (passes_place_bind fun start =>
    passes_get_bind fun i _ _ => ?_)
  exact (takes_plainNamesUpTo _ begins noColons).passes_bind ((takes_pure _).passes rfl)

/-- Arguments of an attribute are not looked into. -/
theorem passes_attributeBody_list {delimiter : Delimiter} {inner : List Token}
    (matched : IsMatched inner) :
    Passes (attributeBody g) (.opening delimiter :: (inner ++ .closing delimiter :: after))
      after := by
  intro i none shown
  obtain ⟨body, start, stop, rest, same, -, later⟩ := shown.exists_group matched
  refine ⟨.list delimiter body stop, { i with rest }, ?_, trivial, none, later⟩
  rw [attributeBody, reads_bind]
  refine ⟨i, i, reads_get.mpr ⟨rfl, rfl⟩, ?_⟩
  simp only [same, reads_bind, reads_skip]
  exact ⟨(), _, rfl, reads_pure.mpr ⟨rfl, rfl⟩⟩

theorem takes_literal (text : String) :
    Takes literal (.literal text :: after) (.ofTokens [.literal text]) after := by
  intro i shown
  obtain ⟨place, rest, same, later⟩ := shown.exists_leaf rfl
  refine ⟨rest, later, ?_⟩
  simp [literal, reads_bind, same, dropLiteral]

theorem passes_attributeBody_value (text : String) :
    Passes (attributeBody g) [.punct '=' false, .literal text] [] := by
  refine passes_get_bind fun i _ shown => ?_
  obtain ⟨place, rest, same, -⟩ := shown.exists_leaf rfl
  rw [same]
  dsimp only
  rw [passes_seesOperator_bind, passes_peekAny_bind]
  refine passes_if rfl (passes_place_bind fun sign =>
    (takes_operator (by decide) (by decide)).passes_bind
      (((takes_literal text).bind tests_atEnd.takes).lookingAhead.passes_bind ?_))
  exact passes_if rfl ((takes_literal text).passes_bind (passes_pure _))

/-- The tokens of an attribute before something. -/
def attributeTokens (name : String) (body : List Token) : List Token :=
  .punct '#' false :: .opening .bracket :: (.ident name :: body ++ [.closing .bracket])

theorem passes_readAttribute {name : String} {body : List Token}
    (allowed : isIdentifier name = true) (noColons : ahead body (.operator "::") = false)
    (matched : IsMatched body) (read : Passes (attributeBody g) body []) :
    Passes (readAttribute g false) (attributeTokens name body ++ after) after := by
  have noUnsafe : (name == "unsafe") = false := by
    refine beq_false_of_ne ?_
    rintro rfl
    revert allowed
    decide
  have begins : (Expectation.identifier :: pathWords).any (ahead (.ident name :: body)) = true :=
    (congrArg (· || _) allowed).trans (Bool.true_or _)
  refine passes_place_bind fun start => (takes_operator (by decide) (by decide)).passes_bind
    (passes_else Bool.false_ne_true ?_)
  show Passes _ (.opening .bracket :: ((.ident name :: body) ++ [.closing .bracket]) ++ after) after
  rw [List.cons_append, List.append_assoc]
  refine passes_grouped ?_ (matched.leaf rfl)
  rw [passes_seesWord_bind]
  refine passes_else (by exact ne_true_of_eq_false noUnsafe) ?_
  exact (passes_plainPath begins noColons).bind fun path => read.bind fun _ => passes_pure _

/-- The tokens of an attribute, wherever something follows it. -/
structure IsAttribute (g : Grammar) (part : List Token) : Prop where
  lexable : Token.IsLexable part
  begins : ∃ more, part = .punct '#' false :: .opening .bracket :: more
  read : ∀ rest, Passes (readAttribute g false) (part ++ rest) rest

theorem passes_outerAttributes {parts : List (List Token)}
    (each : ∀ part ∈ parts, IsAttribute g part) (ended : ahead after (.operator "#") = false) :
    Passes (outerAttributes g) (parts.flatten ++ after) after := by
  refine passes_repeated (fun _ => True) (fun _ _ _ => trivial) trivial
    (fun part member => ?_) ?_
  · obtain ⟨lexable, ⟨more, rfl⟩, read⟩ := each part member
    refine ⟨⟨lexable.matched, List.cons_ne_nil _ _⟩, fun rest _ => passes_seesOperator_bind.mpr ?_⟩
    exact passes_if rfl ((read rest).map fun _ _ => rfl)
  · refine passes_seesOperator_bind.mpr (passes_else (by simp [ended]) ?_)
    exact (takes_pure _).passes rfl

theorem takes_innerAttributes_none
    (absent : ahead tokens (.operator "#") = false ∨
      ∃ more, tokens = .punct '#' false :: .opening .bracket :: more) :
    Takes (innerAttributes g) tokens [] tokens := by
  refine takes_get_bind fun i _ => ?_
  rw [repeatUpTo]
  refine Takes.bind (a := none) (takes_seesOperator_bind.mpr ?_) (takes_pure _)
  rcases absent with absent | ⟨more, rfl⟩
  · refine takes_peek2_bind fun flag => ?_
    rw [absent]
    exact takes_pure _
  · exact ((skips_symbol (by decide)).takes_peek2 (.operator "!")).bind (takes_pure _)

end Attributes

section Visibilities

theorem takes_visibility_none (absent : ahead tokens (.word "pub") = false) :
    Takes visibility tokens .inherited tokens := by
  rw [visibility, takes_seesWord_bind, absent]
  exact takes_pure _

theorem takes_visibility_pub (name : String) :
    Takes visibility (.ident "pub" :: .ident name :: after) .everywhere (.ident name :: after) := by
  rw [visibility, takes_seesWord_bind, if_neg (by exact Bool.false_ne_true)]
  refine (takes_word "pub").bind (takes_get_bind fun i shown => ?_)
  obtain ⟨place, rest, same, -⟩ := shown.exists_leaf rfl
  rw [same]
  exact takes_pure _

end Visibilities

section Generics

/-- The tokens of a list between angle brackets, if there is a list. -/
def angledTokens (parts : List (List Token)) : List Token :=
  if parts.isEmpty then [] else
    .punct '<' false :: (Token.separated "," false parts ++ [.punct '>' false])

/-- The tokens of a declared generic parameter, wherever a list of them stands. -/
structure IsDeclared (g : Grammar) (part : List Token) : Prop where
  lexable : Token.IsLexable part
  begins : ∀ sign ∈ parameterSigns, ∀ more, BeginsParameter (part ++ sign :: more)
  read : ∀ rest, Ended parameterEnds rest → Passes (listedParameter g) (part ++ rest) rest

theorem IsDeclared.ne_nil {part : List Token} (declared : IsDeclared g part) : part ≠ [] :=
  (declared.begins (.punct ',' false) (by decide) []).ne_nil (by decide)

theorem passes_genericParameters {parts : List (List Token)}
    (each : ∀ part ∈ parts, IsDeclared g part) (ended : ahead after (.operator "<") = false) :
    Passes (genericParameters g) (angledTokens parts ++ after) after := by
  cases parts with
  | nil =>
    refine passes_seesOperator_bind.mpr (passes_if ?_ (passes_pure _))
    rw [show angledTokens [] ++ after = after from rfl, ended]
    rfl
  | cons part parts =>
    refine passes_seesOperator_bind.mpr (passes_else (by exact Bool.false_ne_true) ?_)
    rw [angledTokens, List.isEmpty_cons, if_neg Bool.false_ne_true, List.cons_append,
      List.append_assoc]
    refine (takes_operator (by decide) (by decide)).passes_bind ?_
    refine (passes_punctuated (by decide) (by decide) (isMatched_of_noBracket (by decide))
      (tests_seesOperator ">")
      (fun p member => ⟨(each p member).lexable.matched, (each p member).ne_nil⟩)
      (fun p member rest next => ?_) rfl fun _ => rfl).bind fun _ => ?_
    · rcases next with rfl | ⟨more, rfl⟩
      · exact ⟨((each p member).begins _ (by decide) _).noAngle,
          (each p member).read _ (.inr ⟨.operator ">", by decide, rfl⟩)⟩
      · exact ⟨((each p member).begins (.punct ',' false) (by decide) more).noAngle,
          (each p member).read _ (.inr ⟨.operator ",", by decide, rfl⟩)⟩
    · exact (takes_operator (by decide) (by decide)).passes_bind (passes_pure _)

/-- The tokens of a predicate, wherever a list of them stands. -/
structure IsRequired (g : Grammar) (part : List Token) : Prop where
  lexable : Token.IsLexable part
  begins : BeginsType part
  read : ∀ rest, Ended predicateEnds rest → Passes (wherePredicate g) (part ++ rest) rest

theorem passes_predicatesUpTo {parts : List (List Token)} (filled : parts ≠ [])
    (each : ∀ part ∈ parts, IsRequired g part)
    (ended : Ended predicateEnds after) (noComma : ahead after (.operator ",") = false)
    {count : Nat} (enough : parts.length ≤ count) :
    Passes (predicatesUpTo g count) (Token.separated "," false parts ++ after) after := by
  induction parts generalizing count with
  | nil => exact absurd rfl filled
  | cons part parts ih =>
    rw [List.length_cons] at enough
    obtain ⟨count, rfl⟩ : ∃ n, count = n + 1 := ⟨count - 1, by omega⟩
    obtain ⟨-, begins, read⟩ := each part List.mem_cons_self
    rw [predicatesUpTo, Token.separated, List.append_assoc]
    refine tests_endsClause.passes_bind.mpr
      (passes_else (ne_true_of_eq_false (begins.append _).noEnd) ?_)
    cases parts with
    | nil =>
      rw [List.isEmpty_nil, Bool.not_false, Bool.and_self, if_pos rfl, List.nil_append]
      refine (read after ended).bind fun first => passes_seesOperator_bind.mpr ?_
      exact passes_else (by simp [noComma]) (passes_pure _)
    | cons second others =>
      rw [List.isEmpty_cons, Bool.false_and, if_neg Bool.false_ne_true, List.append_assoc]
      refine (read _ (.inr ⟨.operator ",", by decide, rfl⟩)).bind fun first =>
        passes_seesOperator_bind.mpr (passes_if rfl ?_)
      exact (takes_operator (by decide) (by decide)).passes_bind
        ((ih (List.cons_ne_nil _ _) (fun p member => each p (List.mem_cons_of_mem _ member))
          (by omega)).bind fun _ => passes_pure _)

/-- The tokens of a where clause, if there is one. -/
def whereTokens (parts : List (List Token)) : List Token :=
  if parts.isEmpty then [] else .ident "where" :: Token.separated "," false parts

/-- A where clause before braces. -/
theorem passes_withWhere {parts : List (List Token)} (each : ∀ part ∈ parts, IsRequired g part)
    (generics : Generics) :
    Passes (withWhere g generics) (whereTokens parts ++ .opening .brace :: after)
      (.opening .brace :: after) := by
  cases parts with
  | nil => exact passes_seesWord_bind.mpr (passes_if rfl (passes_pure _))
  | cons part parts =>
    rw [whereTokens, List.isEmpty_cons, if_neg Bool.false_ne_true, List.cons_append]
    refine passes_seesWord_bind.mpr (passes_else (by exact Bool.false_ne_true)
      ((takes_word "where").passes_bind (passes_get_bind fun i _ shown => ?_)))
    have enough := Shows.length_le (isMatched_of_noBracket (by decide))
      (fun p member => ⟨(each p member).lexable.matched, (each p member).begins.ne_nil⟩) shown
    exact (passes_predicatesUpTo (List.cons_ne_nil _ _) each
      (.inr ⟨.group .brace, by decide, rfl⟩) rfl (by omega)).bind fun _ => passes_pure _

end Generics

section Beginnings

/-- No signature begins with a word that does not introduce a function. -/
theorem takes_beginsSignature {word : String}
    (others : word ∉ ["const", "async", "unsafe", "extern"]) :
    Takes (beginsSignature false) (.ident word :: tokens) (word == "fn")
      (.ident word :: tokens) := by
  have absent (text : String) (listed : text ∈ ["const", "async", "unsafe", "extern"]) :
      ahead (.ident word :: tokens) (.word text) = false := by
    refine beq_false_of_ne ?_
    rintro rfl
    exact others listed
  have noConvention : Takes convention? (.ident word :: tokens) none (.ident word :: tokens) := by
    rw [convention?, takes_seesWord_bind, absent "extern" (by decide)]
    exact takes_pure _
  have looked : Takes (do
      let _ ← word? "const"
      let _ ← word? "async"
      if false && (← seesWord "safe") then
        let _ ← Parser.word "safe"
      else
        let _ ← word? "unsafe"
      let _ ← convention?
      seesWord "fn") (.ident word :: tokens) (word == "fn") (.ident word :: tokens) := by
    refine (takes_word?_none (absent "const" (by decide))).bind
      ((takes_word?_none (absent "async" (by decide))).bind (takes_seesWord_bind.mpr ?_))
    rw [Bool.false_and, if_neg Bool.false_ne_true]
    exact (takes_word?_none (absent "unsafe" (by decide))).bind
      (noConvention.bind (tests_seesWord "fn").takes)
  have same : (some (word == "fn") == some true) = (word == "fn") := by
    cases word == "fn" <;> rfl
  have final := looked.lookingAhead.bind (f := fun found => pure (found == some true))
    (takes_pure _)
  rwa [same] at final

/-- An angle before a generic parameter begins a list of them. -/
theorem takes_beginsImplGenerics (begins : BeginsParameter tokens) :
    Takes beginsImplGenerics (.punct '<' false :: tokens) true (.punct '<' false :: tokens) := by
  have skips : Skips (.punct '<' false :: tokens) tokens := skips_symbol (by decide)
  refine takes_seesOperator_bind.mpr ?_
  rw [if_neg (by exact Bool.false_ne_true)]
  refine (takes_or (skips.takes_peek2 _)
    (takes_or (skips.takes_peek2 _) (skips.takes_peek2 _))).bind ?_
  have named {last : List Token} (skips' : Skips tokens last)
      (first : (ahead tokens .lifetime || ahead tokens .identifier) = true)
      (sign : ((ahead last (.operator ":") && !ahead last (.operator "::"))
        || ahead last (.operator ",") || ahead last (.operator ">")
        || ahead last (.operator "=")) = true) :
      Takes (do
        if !((← peek2 .lifetime) || (← peek2 .identifier)) then return false
        return ((← peek3 (.operator ":")) && !(← peek3 (.operator "::")))
          || (← peek3 (.operator ",")) || (← peek3 (.operator ">")) || (← peek3 (.operator "=")))
        (.punct '<' false :: tokens) true (.punct '<' false :: tokens) := by
    refine (skips.takes_peek2 _).bind ((skips.takes_peek2 _).bind ?_)
    rw [first, if_neg (by exact Bool.false_ne_true)]
    refine (skips.takes_peek3 skips' _).bind ((skips.takes_peek3 skips' _).bind
      ((skips.takes_peek3 skips' _).bind ((skips.takes_peek3 skips' _).bind
        ((skips.takes_peek3 skips' _).bind ?_))))
    rw [sign]
    exact takes_pure _
  have signed {sign : Token} (listed : sign ∈ parameterSigns) (more : List Token) :
      ((ahead (sign :: more) (.operator ":") && !ahead (sign :: more) (.operator "::"))
        || ahead (sign :: more) (.operator ",") || ahead (sign :: more) (.operator ">")
        || ahead (sign :: more) (.operator "=")) = true := by
    simp only [parameterSigns, List.mem_cons, List.not_mem_nil, or_false] at listed
    rcases listed with rfl | rfl | rfl | rfl <;> rfl
  cases begins with
  | marked => exact takes_pure _
  | constant => exact takes_pure _
  | lifetime listed => exact named (skips_lifetime _) rfl (signed listed _)
  | type allowed listed =>
    rename_i name sign more
    have noConst : (name == "const") = false := by
      refine beq_false_of_ne ?_
      rintro rfl
      revert allowed
      decide
    rw [if_neg (by exact ne_true_of_eq_false noConst)]
    exact named (skips_word _) allowed (signed listed _)

end Beginnings

end Grammar.Parser

end Forwarding
