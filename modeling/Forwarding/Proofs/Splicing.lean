import Forwarding.Proofs.FollowingDeclarations
import Forwarding.Proofs.Passing
import Forwarding.Proofs.Receivers
import Forwarding.Proofs.Reprinting
/-!
Fragments in their places. A type, a generic parameter or a predicate that parses by itself is read
in its place as well: every grammar that is deep enough passes over it up to a comma, a closing
angle, a semicolon or braces.
-/

namespace Forwarding

/-- The number of tokens without the closing brackets. -/
def Token.weight (tokens : List Token) : Nat :=
  tokens.countP fun
    | .closing _ => false
    | _ => true

theorem Token.weight_append (before after : List Token) :
    weight (before ++ after) = weight before + weight after :=
  List.countP_append

/-- A group counts once. -/
theorem Lexeme.Shows.sizeOf_eq {lexemes : List Lexeme} {tokens : List Token}
    (shown : Shows lexemes tokens) : sizeOf lexemes = Token.weight tokens := by
  induction shown with
  | nil => rfl
  | @leaf t _ _ _ noBracket _ ih =>
    rw [sizeOf, size, ih, Nat.add_comm]
    cases t <;> first | exact (List.countP_cons_of_pos rfl).symm | cases noBracket
  | group _ _ ihInside ih =>
    rw [sizeOf, size, ihInside, ih]
    simp only [Token.weight, List.countP_cons, List.countP_append]
    simp
    omega

theorem Lexeme.Shows.closed {lexemes : List Lexeme} {tokens : List Token}
    (shown : Shows lexemes tokens) (printable : Token.Printable tokens) : Closed lexemes := by
  intro symbol place joint
  refine printable.getLast?_ne symbol ?_
  obtain ⟨before, rfl⟩ := List.getLast?_eq_some_iff.mp joint
  rw [← shown.tokensOf_eq, tokensOf_append]
  exact List.getLast?_concat

namespace Grammar

open Lexeme Forwarding.Grammar.Parser

variable {α β : Type} {p : Grammar → Parser α} {tokens after : List Token}

/-- Tokens of a text that parses by itself. -/
def Accepts (p : Grammar → Parser α) (tokens : List Token) : Prop :=
  ∃ text : String, Parses p text ∧
    ∃ lexemes, Lexer.lex text.toList = .ok lexemes ∧ tokensOf lexemes = tokens

theorem Accepts.isLexable (accepted : Accepts p tokens) : Token.IsLexable tokens := by
  obtain ⟨_, _, _, lexed, rfl⟩ := accepted
  exact Lexer.isLexable_of_lex lexed

/-- What is accepted is read to its end. -/
theorem Accepts.exists_reads (accepted : Accepts p tokens) :
    ∃ lexemes stop a j, Shows lexemes tokens ∧
      Reads (p (ofDepth (4 * Token.weight tokens + 8))) ⟨lexemes, stop, none⟩ a j ∧
        j.leftover = none ∧ j.rest = [] := by
  obtain ⟨text, ⟨a, parsed⟩, lexemes, lexed, rfl⟩ := accepted
  obtain ⟨shown, -⟩ := Lexer.lex_shows lexed
  simp only [parseText, parseChars, lexed, parseLexemes] at parsed
  obtain ⟨j, ran, nothing, ended⟩ := runAll_eq_ok_iff.mp parsed
  rw [depthOf, shown.sizeOf_eq] at ran
  exact ⟨lexemes, _, a, j, shown, ran, nothing, ended⟩

/-- Nothing is left, or one of some expectations is met next. -/
def Ended (alternatives : List Expectation) (after : List Token) : Prop :=
  after = [] ∨ ∃ e ∈ alternatives, ahead after e = true

/-- What may stand after a type. -/
def fragmentEnds : List Expectation :=
  [.operator ",", .operator ">", .operator ";", .group .brace]

theorem Ended.stops {alternatives : List Expectation} (ended : Ended alternatives after)
    {last : List Lexeme} (shown : Shows last after) : Parser.Stops alternatives last := by
  rcases ended with rfl | ⟨e, listed, met⟩
  · cases shown
    exact .inl rfl
  · exact .inr ⟨e, listed, sees_of_shows shown e ▸ met⟩

theorem endsType_of_stops {last : List Lexeme} (stopped : Parser.Stops fragmentEnds last) :
    EndsType last := by
  rintro first head
  rcases last with _ | ⟨lexeme, last⟩
  · cases head
  obtain rfl : lexeme = first := Option.some.inj head
  rcases stopped with none | ⟨e, listed, met⟩
  · cases none
  simp only [fragmentEnds, List.mem_cons, List.not_mem_nil, or_false] at listed
  cases lexeme with
  | leaf t place =>
    left
    cases t with
    | punct symbol joint =>
      refine ⟨symbol, joint, place, rfl, ?_⟩
      rcases listed with rfl | rfl | rfl | rfl <;> simp [sees, dropOperator] at met ⊢ <;>
        simp [met]
    | _ => rcases listed with rfl | rfl | rfl | rfl <;> simp [sees, dropOperator] at met
  | group delimiter body start stop =>
    right
    rcases listed with rfl | rfl | rfl | rfl <;> simp [sees, dropOperator] at met
    exact ⟨body, start, stop, by rw [met]⟩

/-- Tokens that a reader passes over wherever it is used, up to what may stand after them. -/
def Fits (ends : List Expectation) (p : Grammar → Parser α) (tokens : List Token) : Prop :=
  ∀ depth after, 4 * Token.weight tokens + 8 ≤ depth → Ended ends after →
    Passes (p (ofDepth depth)) (tokens ++ after) after

/-- A reader that follows the one which accepts the tokens passes over them. -/
theorem Accepts.fits {q : Grammar → Parser β} {ends : List Expectation}
    {related : α → β → Prop} (accepted : Accepts p tokens) (listed : ends ⊆ fragmentEnds)
    (follows : ∀ {depth deep} (c : Context), depth ≤ deep → Parser.Stops ends c.after →
      Follows c related (p (ofDepth depth)) (q (ofDepth deep))) :
    Fits ends q tokens := by
  intro depth after deep ended i noLeftover shown
  obtain ⟨lexemes, stop, a, j, shownOwn, ran, nothing, empty⟩ := accepted.exists_reads
  obtain ⟨front, last, same, shownFront, shownLast⟩ :=
    shown.exists_append accepted.isLexable.matched
  have stopped := ended.stops shownLast
  let c : Context := ⟨last, endsType_of_stops (stopped.mono listed), false, none⟩
  have prolongs : Input.Prolongs c.after ⟨lexemes, stop, none⟩ i :=
    ⟨⟨front, .of_shows shownOwn shownFront, same⟩,
      .inr (shownOwn.closed accepted.isLexable.printable), by rw [noLeftover]⟩
  obtain ⟨b, l, read, -, ⟨rest, alike, sameRest⟩, -, leftover⟩ :=
    (follows c deep stopped).follows prolongs (fun n none => by cases none) ran
      (fun inside => by cases inside)
  rw [empty] at alike
  cases alike
  refine ⟨b, l, read, trivial, ?_, ?_⟩
  · rw [nothing] at leftover
    exact Option.isNone_iff_eq_none.mp (Option.isSome_eq_false_iff.mp leftover.symm)
  · rw [sameRest]
    exact shownLast

theorem Accepts.mono {q : Grammar → Parser α} (accepted : Accepts p tokens)
    (reads : ∀ {g i a k}, Reads (p g) i a k → Reads (q g) i a k) : Accepts q tokens := by
  obtain ⟨text, ⟨a, parsed⟩, lexemes, lexed, same⟩ := accepted
  refine ⟨text, ⟨a, ?_⟩, lexemes, lexed, same⟩
  simp only [parseText, parseChars, lexed, parseLexemes] at parsed ⊢
  obtain ⟨j, ran, ended⟩ := runAll_eq_ok_iff.mp parsed
  exact runAll_eq_ok_iff.mpr ⟨j, reads ran, ended⟩

theorem Accepts.fits_type (accepted : Accepts Grammar.type tokens) :
    Fits fragmentEnds Grammar.type tokens :=
  accepted.fits (List.Subset.refl _) fun c deep _ => (deeper_ofDepth deep).type c true

theorem Accepts.fits_typeWithoutPlus (accepted : Accepts Grammar.typeWithoutPlus tokens) :
    Fits fragmentEnds Grammar.typeWithoutPlus tokens :=
  accepted.fits (List.Subset.refl _) fun c deep _ => (deeper_ofDepth deep).type c false

theorem Accepts.fits_listedParameter (accepted : Accepts genericParameter tokens) :
    Fits parameterEnds listedParameter tokens :=
  (accepted.mono reads_listedParameter).fits (by decide) fun _ deep stopped =>
    follows_listedParameter (deeper_ofDepth deep) stopped

theorem Accepts.fits_wherePredicate (accepted : Accepts wherePredicate tokens) :
    Fits predicateEnds wherePredicate tokens :=
  accepted.fits (by decide) fun _ deep stopped =>
    follows_wherePredicate (deeper_ofDepth deep) stopped

section Beginnings

theorem exists_of_ahead_word {text : String} (met : ahead tokens (.word text) = true) :
    ∃ more, tokens = .ident text :: more := by
  rcases tokens with _ | ⟨t, more⟩
  · cases met
  · cases t with
    | ident name => exact ⟨more, by rw [beq_iff_eq.mp (show (name == text) = true from met)]⟩
    | _ => cases met

theorem exists_of_ahead_identifier (met : ahead tokens .identifier = true) :
    ∃ name more, isIdentifier name = true ∧ tokens = .ident name :: more := by
  rcases tokens with _ | ⟨t, more⟩
  · cases met
  · cases t with
    | ident name => exact ⟨name, more, met, rfl⟩
    | _ => cases met

theorem exists_of_ahead_group {delimiter : Delimiter}
    (met : ahead tokens (.group delimiter) = true) :
    ∃ more, tokens = .opening delimiter :: more := by
  rcases tokens with _ | ⟨t, more⟩
  · cases met
  · exact ⟨more, by rw [Option.some.inj (beq_iff_eq.mp met)]⟩

theorem exists_of_ahead_lifetime (met : ahead tokens .lifetime = true) :
    ∃ name more, tokens = Token.lifetime name ++ more := by
  have met : (dropLifetime (leaves tokens)).isSome = true := met
  obtain ⟨⟨name, rest⟩, found⟩ := Option.isSome_iff_exists.mp met
  obtain ⟨_, _, same⟩ := dropLifetime_eq_some_iff.mp found
  rcases tokens with _ | ⟨t, _ | ⟨u, more⟩⟩ <;> simp [leaves] at same
  exact ⟨name, more, by rw [same.1.1, same.2.1.1]; rfl⟩

theorem exists_of_ahead_symbol {symbols : String} {c : Char} (sole : symbols.toList = [c])
    (met : ahead tokens (.operator symbols) = true) :
    ∃ joint more, tokens = .punct c joint :: more := by
  simp only [ahead, sees, sole] at met
  rcases tokens with _ | ⟨t, more⟩
  · cases met
  · cases t with
    | punct symbol joint =>
      simp [leaves, dropOperator] at met
      exact ⟨joint, more, by rw [met.1]⟩
    | _ => cases met

theorem exists_of_ahead_colons (met : ahead tokens (.operator "::") = true) :
    ∃ joint more, tokens = .punct ':' true :: .punct ':' joint :: more := by
  have met : (dropOperator [':', ':'] (leaves tokens)).isSome = true := met
  rcases tokens with _ | ⟨t, more⟩
  · cases met
  · cases t with
    | punct symbol joint =>
      simp only [leaves, List.map_cons, dropOperator] at met
      split at met
      · rename_i first
        obtain ⟨rfl, rfl⟩ : symbol = ':' ∧ joint = true := by simpa using first
        have met : ahead more (.operator ":") = true := met
        obtain ⟨joint', more', rfl⟩ := exists_of_ahead_symbol rfl met
        exact ⟨joint', more', rfl⟩
      · cases met
    | _ => cases met

/-- Tokens that begin as types do. -/
inductive BeginsType : List Token → Prop
  | word {name : String} {more : List Token} (other : name ≠ "mut") :
      BeginsType (.ident name :: more)
  | group {delimiter : Delimiter} {more : List Token} (other : delimiter ≠ .brace) :
      BeginsType (.opening delimiter :: more)
  | symbol {symbol : Char} {joint : Bool} {more : List Token}
      (listed : symbol ∈ ['<', '*', '&', '!', Token.apostrophe]) :
      BeginsType (.punct symbol joint :: more)
  | colons {joint : Bool} {more : List Token} :
      BeginsType (.punct ':' true :: .punct ':' joint :: more)

namespace BeginsType

theorem of_typeTests {e : Expectation} (listed : e ∈ typeTests) (met : ahead tokens e = true) :
    BeginsType tokens := by
  have symbol {symbols : String} {c : Char} (sole : symbols.toList = [c])
      (listed : c ∈ ['<', '*', '&', '!', Token.apostrophe])
      (met : ahead tokens (.operator symbols) = true) : BeginsType tokens := by
    obtain ⟨_, _, rfl⟩ := exists_of_ahead_symbol sole met
    exact .symbol listed
  cases e with
  | word text =>
    obtain ⟨_, rfl⟩ := exists_of_ahead_word met
    refine .word ?_
    rintro rfl
    revert listed
    decide
  | identifier =>
    obtain ⟨name, _, allowed, rfl⟩ := exists_of_ahead_identifier met
    refine .word ?_
    rintro rfl
    revert allowed
    decide
  | group delimiter =>
    obtain ⟨_, rfl⟩ := exists_of_ahead_group met
    refine .group ?_
    rintro rfl
    revert listed
    decide
  | lifetime =>
    obtain ⟨_, _, rfl⟩ := exists_of_ahead_lifetime met
    exact .symbol (by decide)
  | operator symbols =>
    simp only [typeTests, List.mem_cons, List.not_mem_nil, or_false, reduceCtorEq, false_or,
      Expectation.operator.injEq] at listed
    rcases listed with rfl | rfl | rfl | rfl | rfl
    · obtain ⟨_, _, rfl⟩ := exists_of_ahead_colons met
      exact .colons
    · exact symbol rfl (by decide) met
    · exact symbol rfl (by decide) met
    · exact symbol rfl (by decide) met
    · exact symbol rfl (by decide) met
  | literal | stringLiteral | integerLiteral | phrase text =>
    simp [typeTests] at listed

theorem append (begins : BeginsType tokens) (after : List Token) :
    BeginsType (tokens ++ after) := by
  cases begins with
  | word other => exact .word other
  | group other => exact .group other
  | symbol listed => exact .symbol listed
  | colons => exact .colons

theorem ne_nil (begins : BeginsType tokens) : tokens ≠ [] := by
  rintro rfl
  cases begins

theorem noMut (begins : BeginsType tokens) : ahead tokens (.word "mut") = false := by
  cases begins with
  | word other => exact beq_false_of_ne other
  | group | symbol | colons => rfl

theorem noDots (begins : BeginsType tokens) : ahead tokens (.operator "...") = false := by
  cases begins with
  | symbol listed =>
    have apart : ∀ c ∈ ['<', '*', '&', '!', Token.apostrophe], c ≠ '.' := by decide
    simp [ahead, sees, leaves, dropOperator, apart _ listed]
  | word | group | colons => rfl

/-- No clause ends where a type begins. -/
theorem noEnd (begins : BeginsType tokens) :
    (if tokens.isEmpty then true else
      if [Expectation.group .brace, .operator ",", .operator ";", .operator "="].any (ahead tokens)
        then true else ahead tokens (.operator ":") && !ahead tokens (.operator "::")) = false := by
  cases begins with
  | word | colons => rfl
  | group other => simp [ahead, other, sees, leaves, dropOperator]
  | symbol listed =>
    have apart : ∀ c ∈ ['<', '*', '&', '!', Token.apostrophe],
        c ≠ ',' ∧ c ≠ ';' ∧ c ≠ '=' ∧ c ≠ ':' := by
      decide
    obtain ⟨noComma, noSemicolon, noEquals, noColon⟩ := apart _ listed
    simp [ahead, sees, leaves, dropOperator, noComma, noSemicolon, noEquals, noColon]

end BeginsType

theorem Accepts.beginsType {plus : Bool}
    (accepted : Accepts (fun g => g.parse (.type plus)) tokens) : BeginsType tokens := by
  obtain ⟨lexemes, stop, _, _, shown, ran, -⟩ := accepted.exists_reads
  have ran : Reads (typeOf _ plus) _ _ _ := ran
  obtain ⟨e, listed, met⟩ := sees_of_reads_typeOf ran
  exact .of_typeTests listed (sees_of_shows shown e ▸ met)

theorem Accepts.beginsType_wherePredicate (accepted : Accepts wherePredicate tokens) :
    BeginsType tokens := by
  obtain ⟨lexemes, stop, _, _, shown, ran, -⟩ := accepted.exists_reads
  suffices ∃ e ∈ typeTests, sees lexemes e = true by
    obtain ⟨e, listed, met⟩ := this
    exact .of_typeTests listed (sees_of_shows shown e ▸ met)
  simp only [wherePredicate, reads_bind, reads_peek, reads_peek2, existsAndEq, true_and] at ran
  by_cases lifetime : sees lexemes .lifetime = true
  · exact ⟨.lifetime, by decide, lifetime⟩
  by_cases bound : sees lexemes (.word "for") = true
  · exact ⟨.word "for", by decide, bound⟩
  simp [lifetime, bound, binder?] at ran
  obtain ⟨_, _, read, -⟩ := ran
  have read : Reads (typeOf _ true) _ _ _ := read
  exact sees_of_reads_typeOf read

/-- The characters that stand after the name of a generic parameter. -/
def parameterSigns : List Token :=
  [.punct ':' false, .punct '=' false, .punct ',' false, .punct '>' false]

/-- Tokens that begin as a generic parameter does. -/
inductive BeginsParameter : List Token → Prop
  | marked {more : List Token} : BeginsParameter (.punct '#' false :: more)
  | constant {more : List Token} : BeginsParameter (.ident "const" :: more)
  | lifetime {name : String} {sign : Token} {more : List Token} (listed : sign ∈ parameterSigns) :
      BeginsParameter (Token.lifetime name ++ sign :: more)
  | type {name : String} {sign : Token} {more : List Token} (allowed : isIdentifier name = true)
      (listed : sign ∈ parameterSigns) : BeginsParameter (.ident name :: sign :: more)

theorem BeginsParameter.noAngle (begins : BeginsParameter tokens) :
    ahead tokens (.operator ">") = false := by
  cases begins <;> rfl

theorem isIdentifier_of_reads_genericParameter {g : Grammar} {i k : Input}
    {attributes : List Attribute} {name : String} {bounds : List Tree} {trailing : Bool}
    {byDefault : Option Tree}
    (ran : Reads (genericParameter g) i (.type attributes name bounds trailing byDefault) k) :
    isIdentifier name = true := by
  simp only [genericParameter, reads_bind, reads_peek, reads_seesWord, reads_ite, existsAndEq,
    true_and] at ran
  obtain ⟨given, l, -, ran⟩ := ran
  rcases ran with ⟨-, ran⟩ | ⟨-, ⟨-, ran⟩ | ⟨-, ⟨-, ran⟩ | ⟨-, failed⟩⟩⟩
  · simp only [typeParameter, reads_bind, reads_ite, reads_identifier, reads_pure] at ran
    grind
  · simp only [lifetimeParameter, reads_bind, reads_ite, reads_pure] at ran
    grind
  · simp only [constParameter, reads_bind, reads_ite, reads_pure] at ran
    grind
  · exact absurd failed reads_failExpecting

/-- What is printed of a generic parameter begins as one, whatever sign stands after it. -/
theorem beginsParameter_of_reads {g : Grammar} {i k : Input} {q : GenericParameter}
    (ran : Reads (genericParameter g) i q k) {sign : Token} (listed : sign ∈ parameterSigns)
    (more : List Token) : BeginsParameter (q.tree.tokens ++ sign :: more) := by
  -- an attribute, if one is printed, begins with its hash sign
  have marked {attributes : List Attribute} {rest : List Tree} {more : List Token}
      (unmarked : BeginsParameter (Tree.tokensOf rest ++ more)) :
      BeginsParameter (Tree.tokensOf (Attribute.outer attributes ++ rest) ++ more) := by
    rw [Attribute.outer]
    generalize attributes.filter (!·.isInner) = printed
    cases printed with
    | nil => exact unmarked
    | cons a others => exact .marked
  -- what is printed after the name begins with a sign of its own, if it is printed at all
  have goesOn (bounds : List Tree) (trailing : Bool) (byDefault : Option Tree) :
      ∃ sign' ∈ parameterSigns, ∃ more',
        Tree.tokensOf ((if bounds.isEmpty then [] else .operator ":" :: sumTree bounds trailing)
          ++ GenericParameter.defaultTree byDefault) ++ sign :: more = sign' :: more' := by
    cases bounds with
    | cons bound bounds => exact ⟨.punct ':' false, by decide, _, rfl⟩
    | nil =>
      cases byDefault with
      | some value => exact ⟨.punct '=' false, by decide, _, rfl⟩
      | none => exact ⟨sign, listed, more, rfl⟩
  cases q with
  | lifetime attributes name bounds trailing =>
    rw [GenericParameter.tree, Tree.tokens, List.append_assoc]
    refine marked ?_
    obtain ⟨sign', listed', more', same⟩ := goesOn (bounds.map Tree.lifetime) trailing none
    rw [List.isEmpty_map, GenericParameter.defaultTree, List.append_nil] at same
    rw [List.singleton_append, Tree.tokensOf, Tree.tokens, List.append_assoc, same]
    exact .lifetime listed'
  | type attributes name bounds trailing byDefault =>
    rw [GenericParameter.tree, Tree.tokens, List.append_assoc, List.append_assoc]
    refine marked ?_
    obtain ⟨sign', listed', more', same⟩ := goesOn bounds trailing byDefault
    rw [List.singleton_append, Tree.tokensOf, List.append_assoc, same]
    exact .type (isIdentifier_of_reads_genericParameter ran) listed'
  | const attributes name type byDefault =>
    rw [GenericParameter.tree, Tree.tokens, List.append_assoc]
    exact marked .constant

theorem BeginsParameter.ne_nil {sign : Token} {more : List Token}
    (begins : BeginsParameter (tokens ++ sign :: more)) (listed : sign ∈ parameterSigns) :
    tokens ≠ [] := by
  rintro rfl
  generalize whole : [] ++ sign :: more = all at begins
  cases begins <;> cases whole <;> simp [parameterSigns, Token.apostrophe] at listed

theorem ahead_lifetime_append (printable : Token.Printable tokens) (filled : tokens ≠ []) :
    ahead (tokens ++ after) .lifetime = ahead tokens .lifetime := by
  have closed : Closed (leaves tokens) := by
    intro symbol place joint
    rw [leaves, List.getLast?_map] at joint
    obtain ⟨t, last, same⟩ := Option.map_eq_some_iff.mp joint
    exact printable.getLast?_ne symbol (by rw [last, (Lexeme.leaf.inj same).1])
  have filled : leaves tokens ≠ [] := by simpa [leaves] using filled
  simp only [ahead, sees]
  rw [leaves, List.map_append]
  exact (congrArg Option.isSome (dropLifetime_append closed filled)).trans Option.isSome_map

end Beginnings

/-- A reference to a type. A type that begins with a lifetime is left out: the lifetime would be
taken for that of the reference. -/
theorem passes_reference (accepted : Accepts Grammar.typeWithoutPlus tokens)
    (unnamed : ahead tokens .lifetime = false) (mutable : Bool) {depth : Nat}
    (deep : 4 * Token.weight tokens + 8 ≤ depth) (ended : Ended fragmentEnds after) :
    Passes (Grammar.type (ofDepth (depth + 1)))
      (.punct '&' false :: ((if mutable then [Token.ident "mut"] else []) ++ (tokens ++ after)))
      after := by
  have begins := accepted.beginsType.append after
  have noLifetime : ahead ((if mutable then [Token.ident "mut"] else []) ++ (tokens ++ after))
      .lifetime = false := by
    cases mutable with
    | true => rfl
    | false =>
      exact (ahead_lifetime_append accepted.isLexable.printable accepted.beginsType.ne_nil).trans
        unnamed
  have word : Passes (word? "mut")
      ((if mutable then [Token.ident "mut"] else []) ++ (tokens ++ after))
      (tokens ++ after) := by
    cases mutable with
    | true => exact (takes_word?_some "mut").passes trivial
    | false => exact (takes_word?_none begins.noMut).passes trivial
  have read := accepted.fits_typeWithoutPlus depth after deep ended
  generalize ((if mutable then [Token.ident "mut"] else []) ++ (tokens ++ after)) = middle at *
  have tests := beginsWithOperator (by decide : '&' ∈ _) middle
  have noStar (rest : List Token) : ahead (.punct '&' false :: rest) (.operator "*") = false := rfl
  have sign (rest : List Token) : ahead (.punct '&' false :: rest) (.operator "&") = true := rfl
  show Passes (typeOf (ofDepth depth) true) _ _
  unfold typeOf
  refine passes_place_bind fun position => (takes_binder?_none tests.noFor).passes_bind ?_
  simp only [passes_peek_bind, passes_peekAny_bind, passes_seesWord_bind, passes_seesOperator_bind,
    tests.noGroup, tests.noFunction, tests.noPath, tests.noDyn, tests.noBracket, noStar, sign,
    Bool.and_false, Option.isSome_none, Bool.false_eq_true, if_false, if_true]
  exact (takes_operator (by decide) (by decide)).passes_bind
    ((takes_lifetime?_none noLifetime).passes_bind (word.bind fun _ => read.bind fun _ =>
      passes_pure _))

end Grammar

end Forwarding
