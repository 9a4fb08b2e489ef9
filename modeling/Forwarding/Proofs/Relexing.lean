import Forwarding.Proofs.Printing
/-!
Lexemes that show some tokens. The leaves among them are no brackets, so that the tokens determine
the lexemes up to their places. A text that spells tokens with matching brackets lexes, and its
lexemes show the tokens.
-/

namespace Forwarding

namespace Token

/-- Whether a token is a bracket. -/
def isBracket : Token → Bool
  | opening _ => true
  | closing _ => true
  | _ => false

/-- Parts with a separator between them, and after them if the flag says so. -/
def separated (separator : String) (trailing : Bool) : List (List Token) → List Token
  | [] => []
  | part :: parts =>
    part ++ if parts.isEmpty && !trailing then []
      else operator separator ++ separated separator trailing parts

end Token

namespace Lexeme

/-- Lexemes with their tokens, brackets included. -/
inductive Shows : List Lexeme → List Token → Prop
  | nil : Shows [] []
  | leaf {t : Token} {place : Position} {rest : List Lexeme} {tokens : List Token}
      (noBracket : t.isBracket = false) (more : Shows rest tokens) :
      Shows (.leaf t place :: rest) (t :: tokens)
  | group {delimiter : Delimiter} {body rest : List Lexeme} {start stop : Position}
      {inner tokens : List Token} (inside : Shows body inner) (more : Shows rest tokens) :
      Shows (.group delimiter body start stop :: rest)
        (.opening delimiter :: (inner ++ .closing delimiter :: tokens))

/-- Tokens in which every bracket is matched. -/
def IsMatched (tokens : List Token) : Prop :=
  ∃ lexemes, Shows lexemes tokens

theorem isMatched_of_noBracket {tokens : List Token} (none : ∀ t ∈ tokens, t.isBracket = false) :
    IsMatched tokens := by
  induction tokens with
  | nil => exact ⟨[], .nil⟩
  | cons t rest ih =>
    obtain ⟨lexemes, shown⟩ := ih fun u member => none u (List.mem_cons_of_mem _ member)
    exact ⟨.leaf t .first :: lexemes, .leaf (none t List.mem_cons_self) shown⟩

namespace Shows

theorem tokensOf_eq {lexemes : List Lexeme} {tokens : List Token}
    (shown : Shows lexemes tokens) : tokensOf lexemes = tokens := by
  induction shown with
  | nil => rfl
  | leaf _ _ ih =>
    rw [tokensOf, Lexeme.tokens, ih]
    rfl
  | group _ _ ihInside ih =>
    rw [tokensOf, Lexeme.tokens, ihInside, ih]
    simp

theorem append {first last : List Lexeme} {before after : List Token} (shown : Shows first before)
    (shown' : Shows last after) : Shows (first ++ last) (before ++ after) := by
  induction shown with
  | nil => exact shown'
  | leaf noBracket _ ih => exact .leaf noBracket ih
  | group inside _ _ ih =>
    rw [List.cons_append, List.cons_append, List.append_assoc]
    exact .group inside ih

/-- A bracket closes at one place only. -/
theorem inner_unique {body : List Lexeme} {inner : List Token} (shown : Shows body inner) :
    ∀ {other : List Lexeme} {inner' : List Token}, Shows other inner' →
      ∀ {delimiter delimiter' : Delimiter} {after after' : List Token},
        inner ++ .closing delimiter :: after = inner' ++ .closing delimiter' :: after' →
          inner = inner' ∧ after = after' := by
  induction shown with
  | nil =>
    intro other inner' shown' delimiter delimiter' after after' same
    cases shown' with
    | nil => exact ⟨rfl, (List.cons.inj same).2⟩
    | leaf noBracket _ =>
      rw [← (List.cons.inj same).1] at noBracket
      cases noBracket
    | group _ _ => cases (List.cons.inj same).1
  | leaf noBracket _ ih =>
    intro other inner' shown' delimiter delimiter' after after' same
    cases shown' with
    | nil =>
      rw [(List.cons.inj same).1] at noBracket
      cases noBracket
    | leaf _ more' =>
      obtain ⟨first, rest⟩ := List.cons.inj same
      obtain ⟨rfl, later⟩ := ih more' rest
      exact ⟨by rw [first], later⟩
    | group _ _ =>
      rw [(List.cons.inj same).1] at noBracket
      cases noBracket
  | group inside _ ihInside ih =>
    intro other inner' shown' delimiter delimiter' after after' same
    cases shown' with
    | nil => cases (List.cons.inj same).1
    | leaf noBracket' _ =>
      rw [← (List.cons.inj same).1] at noBracket'
      cases noBracket'
    | group inside' more' =>
      simp only [List.cons_append, List.append_assoc] at same
      obtain ⟨first, rest⟩ := List.cons.inj same
      cases first
      obtain ⟨rfl, rest⟩ := ihInside inside' rest
      obtain ⟨rfl, later⟩ := ih more' (List.cons.inj (List.append_cancel_left rest)).2
      exact ⟨rfl, later⟩

theorem exists_leaf {lexemes : List Lexeme} {t : Token} {tokens : List Token}
    (shown : Shows lexemes (t :: tokens)) (noBracket : t.isBracket = false) :
    ∃ place rest, lexemes = .leaf t place :: rest ∧ Shows rest tokens := by
  cases shown with
  | leaf _ more => exact ⟨_, _, rfl, more⟩
  | group _ _ => cases noBracket

theorem exists_group {lexemes : List Lexeme} {delimiter : Delimiter} {inner tokens : List Token}
    (shown : Shows lexemes (.opening delimiter :: (inner ++ .closing delimiter :: tokens)))
    (balanced : IsMatched inner) :
    ∃ body start stop rest, lexemes = .group delimiter body start stop :: rest ∧
      Shows body inner ∧ Shows rest tokens := by
  obtain ⟨other, shown'⟩ := balanced
  generalize same : Token.opening delimiter :: (inner ++ .closing delimiter :: tokens) = all
    at shown
  cases shown with
  | nil => cases same
  | leaf noBracket _ =>
    rw [← (List.cons.inj same).1] at noBracket
    cases noBracket
  | group inside more =>
    obtain ⟨first, rest⟩ := List.cons.inj same
    cases first
    obtain ⟨rfl, rfl⟩ := shown'.inner_unique inside rest
    exact ⟨_, _, _, _, rfl, inside, more⟩

/-- Lexemes can be told apart where matching brackets end. -/
theorem exists_append {before after : List Token} (matched : IsMatched before)
    {lexemes : List Lexeme} (shown : Shows lexemes (before ++ after)) :
    ∃ first last, lexemes = first ++ last ∧ Shows first before ∧ Shows last after := by
  obtain ⟨shape, shape_shown⟩ := matched
  induction shape_shown generalizing lexemes with
  | nil => exact ⟨[], lexemes, rfl, .nil, shown⟩
  | leaf noBracket _ ih =>
    obtain ⟨place, rest, rfl, later⟩ := shown.exists_leaf noBracket
    obtain ⟨first, last, rfl, shown, shown'⟩ := ih later
    exact ⟨_ :: first, last, rfl, .leaf noBracket shown, shown'⟩
  | group inside _ _ ih =>
    rw [List.cons_append, List.append_assoc, List.cons_append] at shown
    obtain ⟨body, start, stop, rest, rfl, within, later⟩ := shown.exists_group ⟨_, inside⟩
    obtain ⟨first, last, rfl, shown, shown'⟩ := ih later
    exact ⟨_ :: first, last, rfl, .group within shown, shown'⟩

/-- Every one of some parts takes up a lexeme at least. -/
theorem length_le {separator : String} {trailing : Bool} {parts : List (List Token)}
    (matched : IsMatched (Token.operator separator))
    (each : ∀ part ∈ parts, IsMatched part ∧ part ≠ []) {after : List Token}
    {lexemes : List Lexeme}
    (shown : Shows lexemes (Token.separated separator trailing parts ++ after)) :
    parts.length ≤ lexemes.length := by
  induction parts generalizing lexemes with
  | nil => exact Nat.zero_le _
  | cons part parts ih =>
    obtain ⟨own, filled⟩ := each part List.mem_cons_self
    rw [Token.separated, List.append_assoc] at shown
    obtain ⟨first, last, rfl, shown, later⟩ := exists_append own shown
    have some : first ≠ [] := by
      rintro rfl
      cases shown
      exact filled rfl
    have := List.length_pos_iff.mpr some
    have rest : parts.length ≤ last.length := by
      split at later
      · rename_i alone
        obtain ⟨rfl, -⟩ : parts = [] ∧ trailing = false := by simpa using alone
        exact Nat.zero_le _
      · rw [List.append_assoc] at later
        obtain ⟨_, between, rfl, -, later⟩ := exists_append matched later
        have := ih (fun p member => each p (List.mem_cons_of_mem _ member)) later
        rw [List.length_append]
        omega
    rw [List.length_append, List.length_cons]
    omega

/-- The tokens are at most two for every lexeme, at whatever depth. -/
theorem length_tokens_le {lexemes : List Lexeme} {tokens : List Token}
    (shown : Shows lexemes tokens) : tokens.length ≤ 2 * sizeOf lexemes := by
  induction shown with
  | nil => exact Nat.zero_le _
  | leaf _ _ ih =>
    rw [List.length_cons, sizeOf, size]
    omega
  | group _ _ ihInside ih =>
    rw [List.length_cons, List.length_append, List.length_cons, sizeOf, size]
    omega

end Shows

end Lexeme

namespace Lexer

open Lexeme

/-- Matching the brackets of tokens in which they match adds lexemes that show the tokens. -/
theorem balance_of_shows {shape : List Lexeme} {tokens : List Token} (shown : Shows shape tokens) :
    ∀ {placed : List (Token × Position)}, placed.map Prod.fst = tokens →
      ∃ lexemes, Shows lexemes tokens ∧ ∀ stack current more,
        balance none stack current (placed ++ more) =
          balance none stack (lexemes.reverse ++ current) more := by
  induction shown with
  | nil =>
    intro placed same
    rw [List.map_eq_nil_iff] at same
    subst same
    exact ⟨[], .nil, fun _ _ _ => rfl⟩
  | leaf noBracket _ ih =>
    intro placed same
    obtain ⟨⟨t, place⟩, rest, rfl, own, later⟩ := List.map_eq_cons_iff.mp same
    obtain rfl : t = _ := own
    obtain ⟨lexemes, shown, balanced⟩ := ih later
    refine ⟨.leaf t place :: lexemes, .leaf noBracket shown, fun stack current more => ?_⟩
    rw [List.cons_append, List.reverse_cons, List.append_assoc, List.singleton_append, ← balanced]
    cases t <;> first | rfl | cases noBracket
  | @group delimiter _ _ _ _ inner after _ _ ihInside ih =>
    intro placed same
    obtain ⟨⟨first, start⟩, _, rfl, own, sameAfter⟩ := List.map_eq_cons_iff.mp same
    obtain ⟨inside, _, rfl, sameInside, sameLast⟩ := List.map_eq_append_iff.mp sameAfter
    obtain ⟨⟨last, stop⟩, rest, rfl, own', later⟩ := List.map_eq_cons_iff.mp sameLast
    obtain rfl : first = _ := own
    obtain rfl : last = _ := own'
    obtain ⟨body, shownBody, balancedBody⟩ := ihInside sameInside
    obtain ⟨lexemes, shown, balanced⟩ := ih later
    refine ⟨.group delimiter body start stop :: lexemes, .group shownBody shown,
      fun stack current more => ?_⟩
    rw [List.cons_append, List.append_assoc, List.reverse_cons, List.append_assoc,
      List.singleton_append, ← balanced, balance, balancedBody, List.cons_append, balance]
    simp

/-- A text without a mark, all of whose tokens have matching brackets, has lexemes that show
them. -/
theorem lex_of_words {text : List Char} {tokens : List Token}
    (unmarked : (text.head? == some byteOrderMark) = false)
    (read : words (text.length + 1) text = (tokens, false)) (balanced : IsMatched tokens) :
    ∃ lexemes, lex text = .ok lexemes ∧ Shows lexemes tokens := by
  obtain ⟨shape, shown⟩ := balanced
  rw [← words_scan _ .first] at read
  obtain ⟨placed, noFailure⟩ := Prod.mk.inj read
  rw [Option.isSome_eq_false_iff, Option.isNone_iff_eq_none] at noFailure
  obtain ⟨lexemes, shown, matched⟩ := balance_of_shows shown placed
  refine ⟨lexemes, ?_, shown⟩
  unfold lex
  rw [byteOrderMark] at unmarked
  simp only [unmarked, Bool.false_eq_true, if_false, noFailure]
  have whole := matched [] [] []
  rw [List.append_nil, List.append_nil] at whole
  rw [whole, balance, List.reverse_reverse]

theorem words_of_spells {text : List Char} {tokens : List Token} (spelled : Spells [] text tokens)
    {fuel : Nat} (enough : text.length < fuel) : words fuel text = (tokens, false) := by
  obtain ⟨left, more, same⟩ := spelled.words enough
  obtain ⟨left, rfl⟩ : ∃ n, left = n + 1 := ⟨left - 1, by omega⟩
  rw [same, words_succ]
  simp [skipBlanks]

/-- A text that spells tokens with matching brackets has lexemes that show them. -/
theorem lex_of_spells {text : List Char} {tokens : List Token} (spelled : Spells [] text tokens)
    (balanced : IsMatched tokens) : ∃ lexemes, lex text = .ok lexemes ∧ Shows lexemes tokens := by
  refine lex_of_words ?_ (words_of_spells spelled (Nat.lt_succ_self _)) balanced
  rcases spelled.head with rfl | ⟨⟨c, first, apart⟩, -⟩
  · rfl
  · rw [first]
    simpa using apart

end Lexer

namespace Token

open Lexer Lexeme

/-- Tokens that are read back from what is printed of them, with matching brackets. -/
structure IsLexable (tokens : List Token) : Prop where
  printable : Printable tokens
  matched : IsMatched tokens

namespace IsLexable

theorem nil : IsLexable [] :=
  ⟨.nil, isMatched_of_noBracket (by simp)⟩

theorem append {before after : List Token} (first : IsLexable before) (last : IsLexable after) :
    IsLexable (before ++ after) := by
  obtain ⟨_, shown⟩ := first.matched
  obtain ⟨_, shown'⟩ := last.matched
  exact ⟨first.printable.append last.printable, _, shown.append shown'⟩

theorem word {name : String} {rest : List Token} (named : IsName name) (more : IsLexable rest) :
    IsLexable (ident name :: rest) := by
  obtain ⟨printable, shape, shown⟩ := more
  exact ⟨.word named printable, .leaf _ .first :: shape, .leaf rfl shown⟩

theorem lifetime {name : String} (named : IsName name) : IsLexable (Token.lifetime name) :=
  ⟨.lifetime named .nil, isMatched_of_noBracket (by simp [isBracket, Token.lifetime])⟩

theorem operator (symbols : String) (each : ∀ c ∈ symbols.toList, c ∈ operatorSymbols) :
    IsLexable (Token.operator symbols) := by
  unfold Token.operator
  generalize symbols.toList = chars at each
  induction chars with
  | nil => exact nil
  | cons c more ih =>
    obtain ⟨printable, shape, shown⟩ := ih fun d member => each d (List.mem_cons_of_mem _ member)
    have own := each c List.mem_cons_self
    cases more with
    | nil => exact ⟨.operator (.tail _ own) .nil, [.leaf _ .first], .leaf rfl .nil⟩
    | cons d more =>
      refine ⟨?_, .leaf _ .first :: shape, .leaf rfl shown⟩
      have next := operatorSymbols_symbols (each d (by simp))
      have apart : c = '/' → d ≠ '/' ∧ d ≠ '*' := by
        rintro rfl
        exact absurd own (by decide)
      cases more with
      | nil => exact .joint (.symbol (.tail _ own) rfl next apart) printable
      | cons e more => exact .joint (.symbol (.tail _ own) rfl next apart) printable

theorem group (delimiter : Delimiter) {inner : List Token} (inside : IsLexable inner) :
    IsLexable (opening delimiter :: (inner ++ [closing delimiter])) := by
  obtain ⟨printable, body, shown⟩ := inside
  exact ⟨.opening _ (printable.append (.closing _ .nil)),
    [.group delimiter body .first .first], .group shown .nil⟩

theorem separated {separator : String} (trailing : Bool) {parts : List (List Token)}
    (apart : IsLexable (Token.operator separator)) (each : ∀ part ∈ parts, IsLexable part) :
    IsLexable (Token.separated separator trailing parts) := by
  induction parts with
  | nil => exact nil
  | cons part parts ih =>
    refine (each part List.mem_cons_self).append ?_
    split
    · exact nil
    · exact apart.append (ih fun p member => each p (List.mem_cons_of_mem _ member))

theorem spells {tokens : List Token} (lexable : IsLexable tokens) :
    Spells [] (renderChars tokens) tokens := by
  have stops : Stops [] := fun c first => by cases first
  have spelled := lexable.printable.spells stops
  rwa [List.append_nil] at spelled

end IsLexable

end Token

end Forwarding
