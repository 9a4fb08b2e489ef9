import Forwarding.Proofs.Quoting
import Forwarding.Tree
/-!
Printed tokens. Tokens that are printed one after another are read back, provided that each could
have been read and that the joint characters among them belong to operators and lifetimes.
-/

namespace Forwarding

theorem Tree.tokensOf_append (before after : List Tree) :
    tokensOf (before ++ after) = tokensOf before ++ tokensOf after := by
  induction before with
  | nil => simp [tokensOf]
  | cons tree rest ih => simp [tokensOf, ih]

theorem Tree.tokensOf_map_token (tokens : List Token) : tokensOf (tokens.map token) = tokens := by
  induction tokens with
  | nil => rfl
  | cons t rest ih => rw [List.map_cons, tokensOf, ih, Tree.tokens, List.singleton_append]

theorem Tree.tokens_operator (symbols : String) :
    (operator symbols).tokens = Token.operator symbols :=
  tokensOf_map_token _

namespace Lexer

theorem Stops.punct? {text : List Char} (stops : Stops text) : punct? text = none := by
  cases text with
  | nil => rfl
  | cons c text =>
    have each : ∀ d ∈ [' ', '\n', ')', ']'], d ∉ symbols := by decide
    rw [punct?_cons, if_neg (each c (stops c rfl)), ite_self]

theorem Stops.noComment {text : List Char} (stops : Stops text) : beginsComment text = false := by
  cases text with
  | nil => rfl
  | cons c text =>
    have each : ∀ d ∈ [' ', '\n', ')', ']'], d ≠ '/' := by decide
    exact beginsComment_cons (each c (stops c rfl)) text

end Lexer

namespace Token

open Lexer

/-- What may stand at once after a joint character: another symbol, unless the two begin a comment,
or the name of a lifetime. A string literal with letters before its quote may follow an apostrophe as
well. -/
inductive Joins : Char → Token → Prop
  | symbol {symbol c : Char} {next : Token} (operator : symbol ∈ '/' :: operatorSymbols)
      (first : next.chars.head? = some c) (goesOn : c ∈ symbols)
      (apart : symbol = '/' → c ≠ '/' ∧ c ≠ '*') : Joins symbol next
  | lifetime {name : String} (named : IsName name) : Joins apostrophe (ident name)
  | lettered {text : String} (stands : ∀ rest, Stands (text.toList ++ rest) (punct apostrophe true)) :
      Joins apostrophe (literal text)

/-- Tokens that are read back from what is printed of them. -/
inductive Printable : List Token → Prop
  | nil : Printable []
  | word {name : String} {rest : List Token} (named : IsName name) (more : Printable rest) :
      Printable (ident name :: rest)
  | literal {text : String} {rest : List Token} (whole : IsLiteral text) (more : Printable rest) :
      Printable (literal text :: rest)
  | mark {rest : List Token} (more : Printable rest) : Printable (.literal errorMark :: rest)
  | opening {rest : List Token} (delimiter : Delimiter) (more : Printable rest) :
      Printable (opening delimiter :: rest)
  | closing {rest : List Token} (delimiter : Delimiter) (more : Printable rest) :
      Printable (closing delimiter :: rest)
  | operator {symbol : Char} {rest : List Token} (operator : symbol ∈ '/' :: operatorSymbols)
      (more : Printable rest) : Printable (punct symbol false :: rest)
  | joint {symbol : Char} {next : Token} {rest : List Token} (joins : Joins symbol next)
      (more : Printable (next :: rest)) : Printable (punct symbol true :: next :: rest)

theorem Printable.lifetime {name : String} {rest : List Token} (named : IsName name)
    (more : Printable rest) : Printable (punct apostrophe true :: ident name :: rest) :=
  .joint (.lifetime named) (.word named more)

theorem Printable.append {before after : List Token} (first : Printable before)
    (last : Printable after) : Printable (before ++ after) := by
  induction first with
  | nil => exact last
  | word named _ ih => exact .word named ih
  | literal whole _ ih => exact .literal whole ih
  | mark _ ih => exact .mark ih
  | opening delimiter _ ih => exact .opening delimiter ih
  | closing delimiter _ ih => exact .closing delimiter ih
  | operator operator _ ih => exact .operator operator ih
  | joint joins _ ih => exact .joint joins ih

/-- The blank between a token and those after it. -/
def gap (a : Token) : List Token → List Char
  | [] => []
  | b :: _ => if spaced a b then [' '] else []

theorem renderChars_cons (a : Token) (rest : List Token) :
    renderChars (a :: rest) = a.chars ++ (gap a rest ++ renderChars rest) := by
  cases rest with
  | nil => simp [renderChars, gap]
  | cons b rest => simp [renderChars, gap]

/-- Whether a blank follows a token wherever no bracket closes. -/
def isApart : Token → Bool
  | ident _ => true
  | literal _ => true
  | closing _ => true
  | punct _ joint => !joint
  | opening _ => false

theorem stops_after {a : Token} (apart : a.isApart = true) {rest : List Token}
    {text : List Char} (stops : Stops text) :
    Stops (gap a rest ++ (renderChars rest ++ text)) := by
  cases rest with
  | nil => exact stops
  | cons b rest =>
    intro c first
    cases spaces : spaced a b with
    | true =>
      rw [gap, spaces] at first
      cases first
      decide
    | false =>
      cases b with
      | closing delimiter =>
        rw [gap, spaces, renderChars_cons] at first
        cases delimiter with
        | parenthesis =>
          cases first
          decide
        | bracket =>
          cases first
          decide
        | brace => cases a <;> simp [spaced] at spaces
      | _ => cases a <;> simp_all [spaced, isApart]

theorem spells_gap (a : Token) (rest : List Token) {after text : List Char} {tokens : List Token}
    (spelled : Spells after text tokens) : Spells after (gap a rest ++ text) tokens := by
  cases rest with
  | nil => exact spelled
  | cons b rest =>
    cases spaces : spaced a b with
    | true =>
      rw [gap, if_pos spaces]
      exact .blank (c := ' ') (by decide) spelled
    | false =>
      rw [gap, if_neg (by simp [spaces])]
      exact spelled

theorem Stands.symbol {symbol : Char} {rest : List Char} (operator : symbol ∈ '/' :: operatorSymbols)
    (noComment : beginsComment (symbol :: rest) = false) :
    Stands rest (punct symbol (punct? rest).isSome) := by
  rcases List.mem_cons.mp operator with rfl | operator
  · exact .slash noComment
  · exact .operator rest operator

theorem beginsComment_pair {c d : Char} (apart : c = '/' → d ≠ '/' ∧ d ≠ '*') (rest : List Char) :
    beginsComment (c :: d :: rest) = false := by
  by_cases slash : c = '/'
  · obtain ⟨noSlash, noStar⟩ := apart slash
    simp [beginsComment, startsWith, List.isPrefixOf, noSlash.symm, noStar.symm]
  · exact beginsComment_cons slash _

theorem beginsComment_of_stops (c : Char) {rest : List Char} (stops : Stops rest) :
    beginsComment (c :: rest) = false := by
  cases rest with
  | nil => simp [beginsComment, startsWith, List.isPrefixOf]
  | cons d rest =>
    have each : ∀ d ∈ [' ', '\n', ')', ']'], d ≠ '/' ∧ d ≠ '*' := by decide
    exact beginsComment_pair (fun _ => each d (stops d rfl)) rest

theorem Joins.gap {symbol : Char} {next : Token} (joins : Joins symbol next) (rest : List Token) :
    gap (punct symbol true) (next :: rest) = [] := by
  have open? : ∀ delimiter, next ≠ Token.closing delimiter := by
    rintro delimiter rfl
    cases joins with
    | symbol operator first goesOn apart =>
      cases first
      revert goesOn
      cases delimiter <;> decide
  cases next with
  | closing delimiter => exact absurd rfl (open? delimiter)
  | _ => simp [Token.gap, spaced]

/-- Printed tokens are read back before a text that goes on with none of them. -/
theorem Printable.spells {tokens : List Token} (printable : Printable tokens) {after : List Char}
    (stops : Stops after) : Spells after (renderChars tokens ++ after) tokens := by
  induction printable with
  | nil => exact .done
  | @word name rest named more ih =>
    rw [renderChars_cons, List.append_assoc, List.append_assoc]
    exact .token (.word named (stops_after rfl stops).endsWord) (spells_gap _ _ ih)
  | @literal text rest whole more ih =>
    rw [renderChars_cons, List.append_assoc, List.append_assoc]
    exact .token (.literal whole.filled (whole.skipped _ (stops_after rfl stops)))
      (spells_gap _ _ ih)
  | @mark rest more ih =>
    rw [renderChars_cons, List.append_assoc, List.append_assoc]
    exact .token (.mark _) (spells_gap _ _ ih)
  | @opening rest delimiter more ih =>
    rw [renderChars_cons, List.append_assoc, List.append_assoc]
    have spelled := spells_gap (Token.opening delimiter) rest ih
    refine .token (.opening delimiter ?_) spelled
    rcases spelled.head with same | ⟨-, noComment⟩
    · rw [same]
      exact stops.noComment
    · exact noComment
  | @closing rest delimiter more ih =>
    rw [renderChars_cons, List.append_assoc, List.append_assoc]
    exact .token (.closing _ delimiter) (spells_gap _ _ ih)
  | @operator symbol rest operator more ih =>
    rw [renderChars_cons, List.append_assoc, List.append_assoc]
    have stop : Stops (gap (punct symbol false) rest ++ (renderChars rest ++ after)) :=
      stops_after rfl stops
    have stands := Stands.symbol operator (beginsComment_of_stops symbol stop)
    rw [stop.punct?] at stands
    exact .token stands (spells_gap _ _ ih)
  | @joint symbol next rest joins more ih =>
    rw [renderChars_cons, joins.gap rest, List.append_assoc, List.nil_append]
    refine .token ?_ ih
    cases joins with
    | @symbol _ c _ operator first goesOn apart =>
      obtain ⟨more, same⟩ : ∃ more, renderChars (next :: rest) ++ after = c :: more := by
        obtain ⟨tail, same⟩ := List.head?_eq_some_iff.mp first
        exact ⟨_, by rw [renderChars_cons, same]; rfl⟩
      have noComment : beginsComment (c :: more) = false := by
        rw [← same]
        rcases ih.head with ended | ⟨-, noComment⟩
        · rw [ended]
          exact stops.noComment
        · exact noComment
      have found : punct? (c :: more) = some (c, more) := by
        rw [punct?_cons, if_pos goesOn]
        rw [beginsComment] at noComment
        simp only [noComment, Bool.false_eq_true, if_false]
      have stands := Stands.symbol operator (beginsComment_pair apart more)
      rw [same]
      rwa [found] at stands
    | lifetime named =>
      rw [renderChars_cons, List.append_assoc, List.append_assoc]
      exact .lifetime named (stops_after rfl stops).endsWord
    | lettered stands =>
      rw [renderChars_cons, List.append_assoc]
      exact stands _

end Token

end Forwarding
