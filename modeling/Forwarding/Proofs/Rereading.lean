import Forwarding.Proofs.Readers
import Forwarding.Proofs.Relexing
/-!
Readers on tokens. What a reader does depends on the tokens of the lexemes ahead but not on their
places, so that a run can be followed along the tokens that were printed.
-/

namespace Forwarding.Grammar

open Lexeme

/-- The tokens of one group as if they were the leaves of it. -/
def leaves (tokens : List Token) : List Lexeme :=
  tokens.map (.leaf · Position.first)

/-- Whether an expectation is met by the tokens ahead. -/
def ahead (tokens : List Token) : Expectation → Bool
  | .group delimiter => tokens.head? == some (.opening delimiter)
  | expectation => sees (leaves tokens) expectation

theorem isSome_dropOperator_of_shows {symbols : List Char} {lexemes : List Lexeme}
    {tokens : List Token} (shown : Shows lexemes tokens) :
    (dropOperator symbols lexemes).isSome = (dropOperator symbols (leaves tokens)).isSome := by
  induction symbols generalizing lexemes tokens with
  | nil => cases shown <;> simp [dropOperator]
  | cons c more ih =>
    cases shown with
    | nil => rfl
    | group _ _ => cases more <;> rfl
    | @leaf t _ _ _ noBracket later =>
      cases t with
      | punct symbol joint =>
        cases more with
        | nil => simp only [leaves, List.map_cons, dropOperator]; split <;> rfl
        | cons d more =>
          simp only [leaves, List.map_cons, dropOperator]
          split
          · exact ih later
          · rfl
      | _ => cases more <;> rfl

theorem isEmpty_of_shows {lexemes : List Lexeme} {tokens : List Token}
    (shown : Shows lexemes tokens) : lexemes.isEmpty = tokens.isEmpty := by
  cases shown <;> rfl

theorem dropLifetime_of_shows {lexemes : List Lexeme} {tokens : List Token}
    (shown : Shows lexemes tokens) :
    (dropLifetime lexemes).map Prod.fst = (dropLifetime (leaves tokens)).map Prod.fst := by
  cases shown with
  | nil => rfl
  | group _ _ => rfl
  | @leaf t _ _ _ _ later =>
    rcases t with _ | ⟨symbol, joint⟩ | _ | _ | _
    · rfl
    · cases joint <;> cases later with
      | nil => rfl
      | group _ _ => rfl
      | @leaf u _ _ _ _ _ =>
        cases u <;> simp only [leaves, List.map_cons, dropLifetime] <;> grind
    all_goals rfl

theorem dropLiteral_of_shows {lexemes : List Lexeme} {tokens : List Token}
    (shown : Shows lexemes tokens) :
    (dropLiteral lexemes).map Prod.fst = (dropLiteral (leaves tokens)).map Prod.fst := by
  cases shown with
  | nil => rfl
  | group _ _ => rfl
  | @leaf t _ _ _ _ later =>
    cases later with
    | nil => cases t <;> simp only [leaves, List.map_cons, dropLiteral] <;> grind
    | group _ _ => cases t <;> simp only [leaves, List.map_cons, dropLiteral] <;> grind
    | @leaf u _ _ _ _ _ =>
      cases t <;> cases u <;> simp only [leaves, List.map_cons, dropLiteral] <;> grind

theorem sees_of_shows {lexemes : List Lexeme} {tokens : List Token} (shown : Shows lexemes tokens)
    (e : Expectation) : sees lexemes e = ahead tokens e := by
  cases e with
  | operator symbols => exact isSome_dropOperator_of_shows shown
  | lifetime =>
    have same := congrArg Option.isSome (dropLifetime_of_shows shown)
    rwa [Option.isSome_map, Option.isSome_map] at same
  | literal =>
    have same := congrArg Option.isSome (dropLiteral_of_shows shown)
    rwa [Option.isSome_map, Option.isSome_map] at same
  | integerLiteral =>
    have same := dropLiteral_of_shows shown
    simp only [ahead, sees]
    grind
  | group delimiter =>
    cases shown with
    | nil => rfl
    | group _ _ => simp [sees, ahead]
    | @leaf t _ _ _ noBracket _ => cases t <;> first | rfl | cases noBracket
  | _ =>
    cases shown with
    | nil => rfl
    | group _ _ => rfl
    | @leaf t _ _ _ _ _ => cases t <;> rfl

namespace Parser

variable {α β : Type} {tokens after : List Token}

/-- A reader takes some of the tokens ahead and leaves the others. -/
def Takes (p : Parser α) (tokens : List Token) (a : α) (after : List Token) : Prop :=
  ∀ i : Input, Shows i.rest tokens → ∃ rest, Shows rest after ∧ Reads p i a { i with rest }

theorem takes_pure (a : α) : Takes (pure a) tokens a tokens :=
  fun i shown => ⟨i.rest, shown, reads_pure.mpr ⟨rfl, rfl⟩⟩

theorem Takes.bind {p : Parser α} {f : α → Parser β} {a : α} {b : β} {middle : List Token}
    (first : Takes p tokens a middle) (next : Takes (f a) middle b after) :
    Takes (p >>= f) tokens b after := by
  intro i shown
  obtain ⟨rest, shown, ran⟩ := first i shown
  obtain ⟨rest', shown', ran'⟩ := next { i with rest } shown
  exact ⟨rest', shown', reads_bind.mpr ⟨a, _, ran, ran'⟩⟩

theorem Takes.map {p : Parser α} {f : α → β} {a : α} (taken : Takes p tokens a after) :
    Takes (f <$> p) tokens (f a) after := by
  intro i shown
  obtain ⟨rest, shown, ran⟩ := taken i shown
  exact ⟨rest, shown, reads_map.mpr ⟨a, ran, rfl⟩⟩

/-- A test that stays where it is and whose answer is determined by the tokens. -/
def Tests (test : Parser α) (answer : List Token → α) : Prop :=
  ∀ i tokens, Shows i.rest tokens → ∀ a j, Reads test i a j ↔ j = i ∧ a = answer tokens

theorem Tests.takes_bind {test : Parser α} {answer : List Token → α} (tested : Tests test answer)
    {f : α → Parser β} {b : β} :
    Takes (test >>= f) tokens b after ↔ Takes (f (answer tokens)) tokens b after := by
  refine forall₂_congr fun i shown => exists_congr fun rest => and_congr_right fun _ => ?_
  simp only [reads_bind, tested i tokens shown]
  simp

theorem tests_peek (e : Expectation) : Tests (peek e) (ahead · e) :=
  fun i tokens shown flag j => by rw [reads_peek, sees_of_shows shown]

theorem tests_seesWord (text : String) : Tests (seesWord text) (ahead · (.word text)) :=
  tests_peek _

theorem tests_seesOperator (symbols : String) :
    Tests (seesOperator symbols) (ahead · (.operator symbols)) :=
  tests_peek _

theorem tests_peekAny (alternatives : List Expectation) :
    Tests (peekAny alternatives) (alternatives.any <| ahead ·) :=
  fun i tokens shown flag j => by rw [reads_peekAny, funext (sees_of_shows shown)]

theorem Tests.pure (a : α) : Tests (pure a) fun _ => a :=
  fun _ _ _ _ _ => reads_pure

theorem Tests.bind {test : Parser α} {answer : List Token → α} {f : α → Parser β}
    {next : α → List Token → β} (tested : Tests test answer) (each : ∀ a, Tests (f a) (next a)) :
    Tests (test >>= f) fun tokens => next (answer tokens) tokens := by
  intro i tokens shown b j
  simp only [reads_bind, tested i tokens shown]
  constructor
  · rintro ⟨a, k, ⟨rfl, rfl⟩, ran⟩
    exact (each _ _ tokens shown b j).mp ran
  · intro same
    exact ⟨_, i, ⟨rfl, rfl⟩, (each _ _ tokens shown b j).mpr same⟩

theorem Tests.ite {condition : Prop} [Decidable condition] {p q : Parser α}
    {answer other : List Token → α} (first : Tests p answer) (second : Tests q other) :
    Tests (if condition then p else q)
      fun tokens => if condition then answer tokens else other tokens := by
  split
  · exact first
  · exact second

theorem takes_peek_bind {e : Expectation} {f : Bool → Parser β} {b : β} :
    Takes (peek e >>= f) tokens b after ↔ Takes (f (ahead tokens e)) tokens b after :=
  (tests_peek e).takes_bind

theorem takes_seesWord_bind {text : String} {f : Bool → Parser β} {b : β} :
    Takes (seesWord text >>= f) tokens b after ↔
      Takes (f (ahead tokens (.word text))) tokens b after :=
  (tests_seesWord text).takes_bind

theorem takes_seesOperator_bind {symbols : String} {f : Bool → Parser β} {b : β} :
    Takes (seesOperator symbols >>= f) tokens b after ↔
      Takes (f (ahead tokens (.operator symbols))) tokens b after :=
  (tests_seesOperator symbols).takes_bind

theorem takes_peekAny_bind {alternatives : List Expectation} {f : Bool → Parser β} {b : β} :
    Takes (peekAny alternatives >>= f) tokens b after ↔
      Takes (f (alternatives.any (ahead tokens))) tokens b after :=
  (tests_peekAny alternatives).takes_bind

theorem tests_atEnd : Tests atEnd List.isEmpty :=
  fun i tokens shown flag j => by rw [reads_atEnd, isEmpty_of_shows shown]

/-- The places of lexemes and what stands further ahead are open. -/
theorem takes_get_bind {f : Input → Parser β} {b : β}
    (each : ∀ i : Input, Shows i.rest tokens → Takes (f i) tokens b after) :
    Takes (get >>= f) tokens b after := by
  intro i shown
  obtain ⟨rest, shown', ran⟩ := each i shown i shown
  exact ⟨rest, shown', reads_bind.mpr ⟨i, i, reads_get.mpr ⟨rfl, rfl⟩, ran⟩⟩

theorem takes_place_bind {f : Position → Parser β} {b : β}
    (each : ∀ position, Takes (f position) tokens b after) :
    Takes (place >>= f) tokens b after := by
  intro i shown
  obtain ⟨rest, shown', ran⟩ := each _ i shown
  exact ⟨rest, shown', reads_bind.mpr ⟨_, i, reads_place.mpr ⟨rfl, rfl⟩, ran⟩⟩

theorem takes_peek2_bind {e : Expectation} {f : Bool → Parser β} {b : β}
    (each : ∀ flag, Takes (f flag) tokens b after) : Takes (peek2 e >>= f) tokens b after := by
  intro i shown
  obtain ⟨rest, shown', ran⟩ := each _ i shown
  exact ⟨rest, shown', reads_bind.mpr ⟨_, i, reads_peek2.mpr ⟨rfl, rfl⟩, ran⟩⟩

theorem takes_peek3_bind {e : Expectation} {f : Bool → Parser β} {b : β}
    (each : ∀ flag, Takes (f flag) tokens b after) : Takes (peek3 e >>= f) tokens b after := by
  intro i shown
  obtain ⟨rest, shown', ran⟩ := each _ i shown
  exact ⟨rest, shown', reads_bind.mpr ⟨_, i, reads_peek3.mpr ⟨rfl, rfl⟩, ran⟩⟩

theorem skipOne_of_shows {symbol : Char} {joint : Bool} (noMark : symbol ≠ Token.apostrophe)
    {lexemes : List Lexeme} (shown : Shows lexemes (.punct symbol joint :: after)) :
    Shows (skipOne lexemes) after := by
  obtain ⟨place, rest, rfl, later⟩ := shown.exists_leaf rfl
  have none : dropLifetime (.leaf (.punct symbol joint) place :: rest) = none := by
    unfold dropLifetime
    split <;> simp_all
  rw [skipOne, none]
  exact later

theorem takes_peek2_lifetime_bind {e : Expectation} {f : Bool → Parser β} {b : β} {name : String}
    {middle : List Token} :
    Takes (peek2 e >>= f) (Token.lifetime name ++ middle) b after ↔
      Takes (f (ahead middle e)) (Token.lifetime name ++ middle) b after := by
  refine forall₂_congr fun i shown => exists_congr fun rest => and_congr_right fun _ => ?_
  obtain ⟨place, more, same, shown'⟩ := shown.exists_leaf rfl
  obtain ⟨place', last, rfl, later⟩ := shown'.exists_leaf rfl
  have skipped : skipOne i.rest = last := by simp [same, skipOne, dropLifetime]
  simp only [reads_bind, reads_peek2, skipped, sees_of_shows later]
  simp

theorem takes_peek3_colons_bind {e : Expectation} {f : Bool → Parser β} {b : β}
    {middle : List Token} :
    Takes (peek3 e >>= f) (Token.operator "::" ++ middle) b after ↔
      Takes (f (ahead middle e)) (Token.operator "::" ++ middle) b after := by
  refine forall₂_congr fun i shown => exists_congr fun rest => and_congr_right fun _ => ?_
  have later : Shows (skipOne (skipOne i.rest)) middle :=
    skipOne_of_shows (by decide) (skipOne_of_shows (by decide) shown)
  simp only [reads_bind, reads_peek3, sees_of_shows later]
  simp

theorem takes_anyWord (name : String) : Takes anyWord (.ident name :: after) name after := by
  intro i shown
  obtain ⟨place, rest, same, shown⟩ := shown.exists_leaf rfl
  exact ⟨rest, shown, reads_anyWord.mpr ⟨place, rest, same, rfl⟩⟩

theorem takes_identifier {name : String} (allowed : isIdentifier name = true) :
    Takes identifier (.ident name :: after) name after := by
  intro i shown
  obtain ⟨place, rest, same, shown⟩ := shown.exists_leaf rfl
  exact ⟨rest, shown, reads_identifier.mpr ⟨place, rest, same, rfl, allowed⟩⟩

theorem takes_word (text : String) : Takes (word text) (.ident text :: after) (.word text) after := by
  intro i shown
  obtain ⟨place, rest, same, shown⟩ := shown.exists_leaf rfl
  exact ⟨rest, shown, reads_word.mpr ⟨place, rest, same, rfl, rfl⟩⟩

theorem dropOperator_of_shows {symbols : List Char} (some : symbols ≠ [])
    (noMark : Token.apostrophe ∉ symbols) {lexemes : List Lexeme}
    (shown : Shows lexemes (Token.operatorChars symbols ++ after)) :
    ∃ rest, dropOperator symbols lexemes = .some rest ∧ Shows rest after := by
  induction symbols generalizing lexemes with
  | nil => exact absurd rfl some
  | cons c more ih =>
    rw [List.mem_cons, not_or] at noMark
    cases more with
    | nil =>
      obtain ⟨place, rest, rfl, later⟩ := shown.exists_leaf rfl
      have noMark : c ≠ Token.apostrophe := Ne.symm noMark.1
      exact ⟨rest, by simp [dropOperator, noMark], later⟩
    | cons d more =>
      obtain ⟨place, rest, rfl, later⟩ := shown.exists_leaf rfl
      obtain ⟨rest', dropped, last⟩ := ih (List.cons_ne_nil _ _) noMark.2 later
      exact ⟨rest', by simp [dropOperator, dropped], last⟩

theorem takes_operator {symbols : String} (some : symbols.toList ≠ [])
    (noMark : Token.apostrophe ∉ symbols.toList) :
    Takes (operator symbols) (Token.operator symbols ++ after) (.operator symbols) after := by
  intro i shown
  obtain ⟨rest, dropped, shown⟩ := dropOperator_of_shows some noMark shown
  exact ⟨rest, shown, reads_operator.mpr ⟨rest, dropped, rfl, rfl⟩⟩

theorem takes_operator?_some {symbols : String} (some : symbols.toList ≠ [])
    (noMark : Token.apostrophe ∉ symbols.toList) :
    Takes (operator? symbols) (Token.operator symbols ++ after) (.some (.operator symbols))
      after := by
  intro i shown
  obtain ⟨rest, shown, ran⟩ := takes_operator some noMark i shown
  exact ⟨rest, shown, reads_operator?.mpr (.inl ⟨_, ran, rfl⟩)⟩

theorem takes_operator?_none {symbols : String} (absent : ahead tokens (.operator symbols) = false) :
    Takes (operator? symbols) tokens none tokens := by
  intro i shown
  refine ⟨i.rest, shown, reads_operator?.mpr (.inr ⟨?_, rfl, rfl⟩)⟩
  rw [sees_of_shows shown, absent]

theorem takes_word?_some (text : String) :
    Takes (word? text) (.ident text :: after) (some (.word text)) after := by
  intro i shown
  obtain ⟨rest, shown, ran⟩ := takes_word text i shown
  exact ⟨rest, shown, reads_word?.mpr (.inl ⟨_, ran, rfl⟩)⟩

theorem takes_word?_none {text : String} (absent : ahead tokens (.word text) = false) :
    Takes (word? text) tokens none tokens := by
  intro i shown
  refine ⟨i.rest, shown, reads_word?.mpr (.inr ⟨?_, rfl, rfl⟩)⟩
  rw [sees_of_shows shown, absent]

theorem takes_lifetime (name : String) :
    Takes lifetime (Token.lifetime name ++ after) name after := by
  intro i shown
  obtain ⟨place, rest, same, later⟩ := shown.exists_leaf rfl
  obtain ⟨place', rest', rfl, last⟩ := later.exists_leaf rfl
  refine ⟨rest', last, ?_⟩
  simp only [lifetime, reads_bind, reads_get, existsAndEq, same, dropLifetime]
  simp

theorem takes_lifetime?_some (name : String) :
    Takes lifetime? (Token.lifetime name ++ after) (some name) after := by
  unfold lifetime?
  rw [takes_peek_bind]
  exact (takes_lifetime name).map

theorem takes_lifetime?_none (absent : ahead tokens .lifetime = false) :
    Takes lifetime? tokens none tokens := by
  unfold lifetime?
  rw [takes_peek_bind, absent]
  exact takes_pure none

/-- A group is taken when a reader takes all that stands in it. -/
theorem takes_grouped {delimiter : Delimiter} {p : Parser α} {a : α} {inner : List Token}
    (taken : Takes p inner a []) (matched : IsMatched inner) :
    Takes (grouped delimiter p) (.opening delimiter :: (inner ++ .closing delimiter :: after)) a
      after := by
  intro i shown
  obtain ⟨body, start, stop, rest, same, inside, later⟩ := shown.exists_group matched
  obtain ⟨left, nothing, ran⟩ := taken ⟨body, stop, i.leftover⟩ inside
  cases nothing
  refine ⟨rest, later, ?_⟩
  simp only [grouped, reads_bind, reads_get, existsAndEq, same, if_true, reads_skip, within,
    reads_set, true_and, exists_const]
  refine ⟨a, _, ran, reads_pure.mpr ⟨?_, rfl⟩⟩
  cases i.leftover <;> rfl

theorem takes_punctuatedUpTo {separator : String} (some : separator.toList ≠ [])
    (noMark : Token.apostrophe ∉ separator.toList) {stop : Parser Bool} {ends : List Token → Bool}
    (tested : Tests stop ends) {element : Parser α} {parts : List (List Token)} {values : List α}
    {trailing : Bool}
    (each : List.Forall₂ (fun part value => ∀ rest,
      rest = after ∨ (∃ more, rest = Token.operator separator ++ more) →
        ends (part ++ rest) = false ∧ Takes element (part ++ rest) value rest) parts values)
    (ended : ends after = true) (goesOn : ∀ more, ends (Token.operator separator ++ more) = false)
    (filled : parts ≠ [] ∨ trailing = true) {count : Nat} (enough : parts.length ≤ count) :
    Takes (punctuatedUpTo separator stop element count)
      (Token.separated separator trailing parts ++ after) (values, trailing) after := by
  induction each generalizing count with
  | nil =>
    obtain rfl : trailing = true := by simpa using filled
    cases count with
    | zero => exact takes_pure _
    | succ count =>
      rw [punctuatedUpTo, tested.takes_bind, Token.separated, List.nil_append, ended]
      exact takes_pure _
  | @cons part value parts values first each ih =>
    obtain ⟨count, rfl⟩ : ∃ n, count = n + 1 := ⟨count - 1, by rw [List.length_cons] at enough; omega⟩
    rw [List.length_cons] at enough
    rw [punctuatedUpTo, tested.takes_bind, Token.separated, List.append_assoc]
    split
    · rename_i last
      obtain ⟨rfl, rfl⟩ : parts = [] ∧ trailing = false := by simpa using last
      obtain ⟨begins, taken⟩ := first after (.inl rfl)
      cases each
      rw [List.nil_append, begins]
      refine taken.bind ?_
      rw [tested.takes_bind, ended]
      exact takes_pure _
    · rename_i others
      rw [List.append_assoc]
      obtain ⟨begins, taken⟩ := first _ (.inr ⟨_, rfl⟩)
      rw [begins]
      refine taken.bind ?_
      rw [tested.takes_bind, goesOn]
      refine (takes_operator some noMark).bind ((ih ?_ (by omega)).bind (takes_pure _))
      simpa [imp_iff_not_or] using others

theorem takes_sumUpTo {stop : Parser Bool} {ends : List Token → Bool} (tested : Tests stop ends)
    {element : Parser α} {parts : List (List Token)} {values : List α}
    (each : List.Forall₂ (fun part value => ∀ rest,
      rest = after ∨ (∃ more, rest = Token.operator "+" ++ more) →
        ends (part ++ rest) = false ∧ Takes element (part ++ rest) value rest) parts values)
    (ended : ahead after (.operator "+") = false) (filled : parts ≠ []) {count : Nat}
    (enough : parts.length ≤ count) :
    Takes (sumUpTo stop element count) (Token.separated "+" false parts ++ after) (values, false)
      after := by
  induction each generalizing count with
  | nil => exact absurd rfl filled
  | @cons part value parts values first each ih =>
    obtain ⟨count, rfl⟩ : ∃ n, count = n + 1 := ⟨count - 1, by rw [List.length_cons] at enough; omega⟩
    rw [List.length_cons] at enough
    rw [sumUpTo, tested.takes_bind, Token.separated, List.append_assoc]
    cases each with
    | nil =>
      obtain ⟨begins, taken⟩ := first after (.inl rfl)
      rw [List.isEmpty_nil, Bool.not_false, Bool.and_self, if_pos rfl, List.nil_append, begins]
      refine taken.bind ?_
      rw [takes_seesOperator_bind, ended]
      exact takes_pure _
    | cons second others =>
      rw [List.isEmpty_cons, Bool.false_and, if_neg Bool.false_ne_true, List.append_assoc]
      obtain ⟨begins, taken⟩ := first _ (.inr ⟨_, rfl⟩)
      rw [begins]
      refine taken.bind ?_
      have sign (more : List Token) : ahead (Token.operator "+" ++ more) (.operator "+") = true := rfl
      rw [takes_seesOperator_bind, sign]
      exact (takes_operator (by decide) (by decide)).bind
        ((ih (List.cons_ne_nil _ _) (by omega)).bind (takes_pure _))

theorem takes_punctuated {separator : String} (some : separator.toList ≠ [])
    (noMark : Token.apostrophe ∉ separator.toList) {stop : Parser Bool} {ends : List Token → Bool}
    (tested : Tests stop ends) {element : Parser α} {parts : List (List Token)} {values : List α}
    {trailing : Bool}
    (each : List.Forall₂ (fun part value => ∀ rest,
      rest = after ∨ (∃ more, rest = Token.operator separator ++ more) →
        ends (part ++ rest) = false ∧ Takes element (part ++ rest) value rest) parts values)
    (ended : ends after = true) (goesOn : ∀ more, ends (Token.operator separator ++ more) = false)
    (filled : parts ≠ [] ∨ trailing = true) (matched : IsMatched (Token.operator separator))
    (parted : ∀ part ∈ parts, IsMatched part ∧ part ≠ []) :
    Takes (punctuated separator stop element)
      (Token.separated separator trailing parts ++ after) (values, trailing) after :=
  takes_get_bind fun _ shown => takes_punctuatedUpTo some noMark tested each ended goesOn filled
    (Nat.le_succ_of_le (Shows.length_le matched parted shown))

theorem takes_sum {stop : Parser Bool} {ends : List Token → Bool} (tested : Tests stop ends)
    {element : Parser α} {parts : List (List Token)} {values : List α}
    (each : List.Forall₂ (fun part value => ∀ rest,
      rest = after ∨ (∃ more, rest = Token.operator "+" ++ more) →
        ends (part ++ rest) = false ∧ Takes element (part ++ rest) value rest) parts values)
    (ended : ahead after (.operator "+") = false) (filled : parts ≠ [])
    (parted : ∀ part ∈ parts, IsMatched part ∧ part ≠ []) :
    Takes (sum stop element) (Token.separated "+" false parts ++ after) (values, false) after :=
  takes_get_bind fun _ shown => takes_sumUpTo tested each ended filled
    (Nat.le_succ_of_le (Shows.length_le (isMatched_of_noBracket (by decide)) parted shown))

end Parser

/-- A text that a reader accepts. -/
def Parses {α : Type} (p : Grammar → Parser α) (text : String) : Prop :=
  ∃ value, parseText p text = .ok value

open Lexer in
/-- A text parses when a reader takes all the tokens that it spells. -/
theorem parseText_of_takes {α : Type} {p : Grammar → Parser α} {a : α} {tokens : List Token}
    {text : String} (spelled : Spells [] text.toList tokens)
    (matched : IsMatched tokens)
    (taken : ∀ depth, tokens.length < depth → (p (ofDepth depth)).Takes tokens a []) :
    parseText p text = .ok a := by
  obtain ⟨lexemes, lexed, shown⟩ := lex_of_spells spelled matched
  unfold parseText parseChars
  rw [lexed]
  dsimp only
  rw [parseLexemes, Parser.runAll_eq_ok_iff]
  have deep : tokens.length < depthOf lexemes := by
    have := shown.length_tokens_le
    rw [depthOf]
    omega
  obtain ⟨rest, nothing, ran⟩ := taken _ deep ⟨lexemes, Position.first, none⟩ shown
  cases nothing
  exact ⟨_, ran, rfl, rfl⟩

end Forwarding.Grammar
