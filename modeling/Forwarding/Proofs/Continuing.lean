import Forwarding.Proofs.Displacement
import Forwarding.Proofs.Readers
import Forwarding.Proofs.Relexing
/-!
Readers before further lexemes. A reader that succeeds on some lexemes to their end is compared with
a reader on lexemes with the same tokens, at other places and with more lexemes after them. The second
reader may belong to a deeper grammar.
-/

namespace Forwarding

namespace Lexeme

/-- Lexemes that show the same tokens differ in their places only. -/
theorem Alike.of_shows {a : List Lexeme} {tokens : List Token} (shown : Shows a tokens) :
    ∀ {b : List Lexeme}, Shows b tokens → Alike a b := by
  induction shown with
  | nil =>
    intro b shown'
    cases shown'
    exact .nil
  | leaf noBracket _ ih =>
    intro b shown'
    obtain ⟨place, rest, rfl, later⟩ := shown'.exists_leaf noBracket
    exact .leaf _ _ _ (ih later)
  | group inside _ ihInside ih =>
    intro b shown'
    obtain ⟨body, start, stop, rest, rfl, within, later⟩ := shown'.exists_group ⟨_, inside⟩
    exact .group _ _ _ _ _ (ihInside within) (ih later)

namespace Alike

variable {a b : List Lexeme}

theorem symm (alike : Alike a b) : Alike b a := by
  induction alike with
  | nil => exact .nil
  | leaf token place other _ ih => exact .leaf token other place ih
  | group delimiter start stop start' stop' _ _ inner ih => exact .group _ _ _ _ _ inner ih

theorem tokensOf_eq (alike : Alike a b) : tokensOf a = tokensOf b := by
  induction alike with
  | nil => rfl
  | leaf token place other _ ih => rw [tokensOf, tokensOf, ih, tokens, tokens]
  | group delimiter start stop start' stop' _ _ inner ih =>
    rw [tokensOf, tokensOf, ih, tokens, tokens, inner]

theorem take (alike : Alike a b) (count : Nat) : Alike (a.take count) (b.take count) := by
  induction alike generalizing count with
  | nil =>
    rw [List.take_nil]
    exact .nil
  | leaf token place other _ ih =>
    cases count with
    | zero => exact .nil
    | succ count => exact .leaf _ _ _ (ih count)
  | group delimiter start stop start' stop' inside _ _ ih =>
    cases count with
    | zero => exact .nil
    | succ count => exact .group _ _ _ _ _ inside (ih count)

end Alike

/-- Lexemes that do not end with a character that is joint to the next one. -/
def Closed (lexemes : List Lexeme) : Prop :=
  ∀ symbol place, lexemes.getLast? ≠ some (.leaf (.punct symbol true) place)

namespace Closed

variable {lexemes rest : List Lexeme}

theorem of_suffix (closed : Closed lexemes) (suffix : rest <:+ lexemes) : Closed rest := by
  obtain ⟨before, rfl⟩ := suffix
  intro symbol place last
  refine closed symbol place ?_
  rw [List.getLast?_append, last]
  rfl

theorem of_alike {other : List Lexeme} (closed : Closed lexemes) (alike : Alike lexemes other) :
    Closed other := by
  induction alike with
  | nil => exact closed
  | leaf token place place' later ih =>
    cases later with
    | nil =>
      intro symbol found last
      cases Option.some.inj last
      exact closed symbol place rfl
    | leaf | group =>
      have tail := ih (closed.of_suffix (List.suffix_cons _ _))
      intro symbol found last
      exact tail symbol found (by rwa [List.getLast?_cons_cons] at last)
  | group delimiter start stop start' stop' _ later _ ih =>
    cases later with
    | nil =>
      intro symbol found last
      cases Option.some.inj last
    | leaf | group =>
      have tail := ih (closed.of_suffix (List.suffix_cons _ _))
      intro symbol found last
      exact tail symbol found (by rwa [List.getLast?_cons_cons] at last)

end Closed

end Lexeme

namespace Grammar

open Lexeme (Alike Closed)

section Tests

variable {lexemes after : List Lexeme}

/-- Lexemes before which a type may end: none, or first a comma, a closing angle, a semicolon or
braces. -/
def EndsType (after : List Lexeme) : Prop :=
  ∀ first ∈ after.head?, (∃ symbol joint place, first = .leaf (.punct symbol joint) place ∧
    symbol ∈ [',', '>', ';']) ∨ ∃ body start stop, first = .group .brace body start stop

/-- Whether something may stand next where a type has ended. -/
def Expectation.endsType : Expectation → Bool
  | .operator symbols => [',', '>', ';'].any (symbols.toList.head? == some ·)
  | .group delimiter => delimiter == .brace
  | _ => false

theorem sees_nil (e : Expectation) : sees [] e = false := by
  cases e with
  | operator symbols =>
    rw [sees]
    rcases symbols.toList with _ | ⟨c, _ | _⟩ <;> rfl
  | _ => rfl

theorem filled_of_sees {ahead : List Lexeme} {e : Expectation} (met : sees ahead e = true) :
    ahead ≠ [] := by
  rintro rfl
  rw [sees_nil] at met
  cases met

/-- Two colons are two lexemes. -/
theorem skipOne_filled_of_colons {ahead : List Lexeme} (met : sees ahead (.operator "::") = true) :
    skipOne ahead ≠ [] := by
  have met : (dropOperator [':', ':'] ahead).isSome = true := met
  rcases ahead with _ | ⟨⟨token, place⟩ | _, _ | ⟨second, rest⟩⟩
  · cases met
  · cases token with
    | punct symbol joint => simp [dropOperator] at met
    | _ => cases met
  · cases token with
    | punct symbol joint =>
      have apart : symbol ≠ Token.apostrophe := by
        rintro rfl
        simp [dropOperator, Token.apostrophe] at met
      rcases second with ⟨_ | _, _⟩ | _ <;> cases joint <;> simp [skipOne, dropLifetime, apart]
    | _ => cases met
  · cases met
  · cases met

theorem EndsType.unseen (ends : EndsType after) {e : Expectation} (other : e.endsType = false) :
    sees after e = false := by
  rcases after with _ | ⟨first, rest⟩
  · exact sees_nil e
  · rcases ends first rfl with ⟨symbol, joint, place, rfl, listed⟩ | ⟨body, start, stop, rfl⟩
    · cases e with
      | operator symbols =>
        rw [sees]
        rcases split : symbols.toList with _ | ⟨c, more⟩
        · rfl
        · have apart : symbol ≠ c := by
            rintro rfl
            simp only [Expectation.endsType, split, List.head?_cons] at other
            simp_all
          cases more <;> simp [dropOperator, apart]
      | lifetime =>
        have apart : symbol ≠ Token.apostrophe := by
          rintro rfl
          revert listed
          decide
        cases joint with
        | false => rfl
        | true => rcases rest with _ | ⟨⟨_ | _⟩ | _, _⟩ <;> simp [sees, dropLifetime, apart]
      | literal =>
        have apart : symbol ≠ '-' := by
          rintro rfl
          revert listed
          decide
        rcases rest with _ | ⟨⟨_ | _⟩ | _, _⟩ <;> simp [sees, dropLiteral, apart]
      | integerLiteral =>
        have apart : symbol ≠ '-' := by
          rintro rfl
          revert listed
          decide
        rcases rest with _ | ⟨⟨_ | _⟩ | _, _⟩ <;> simp [sees, dropLiteral, apart]
      | _ => rfl
    · cases e with
      | operator symbols =>
        rw [sees]
        rcases symbols.toList with _ | ⟨c, _ | _⟩ <;> rfl
      | group delimiter =>
        cases delimiter with
        | brace => cases other
        | _ => rfl
      | _ => rfl

theorem dropOperator_append (closed : Closed lexemes) (filled : lexemes ≠ []) (symbols : List Char) :
    dropOperator symbols (lexemes ++ after) = (dropOperator symbols lexemes).map (· ++ after) := by
  induction symbols generalizing lexemes with
  | nil => rfl
  | cons c more ih =>
    obtain ⟨first, rest, rfl⟩ := List.exists_cons_of_ne_nil filled
    rcases first with ⟨token, place⟩ | _
    · cases token with
      | punct symbol joint =>
        cases more with
        | nil =>
          simp only [List.cons_append, dropOperator]
          split <;> rfl
        | cons d more =>
          simp only [List.cons_append, dropOperator]
          split
          · rename_i goesOn
            refine ih (closed.of_suffix (List.suffix_cons _ _)) ?_
            rintro rfl
            simp only [Bool.and_eq_true] at goesOn
            exact closed symbol place (by rw [goesOn.2]; rfl)
          · rfl
      | _ => cases more <;> rfl
    · cases more <;> rfl

theorem dropLifetime_append (closed : Closed lexemes) (filled : lexemes ≠ []) :
    dropLifetime (lexemes ++ after) =
      (dropLifetime lexemes).map fun found => (found.1, found.2 ++ after) := by
  rcases lexemes with _ | ⟨⟨token, place⟩ | _, _ | ⟨second, rest⟩⟩
  · exact absurd rfl filled
  · cases token with
    | punct symbol joint =>
      cases joint with
      | true => exact absurd rfl (closed symbol place)
      | false => rfl
    | _ => rfl
  · cases token with
    | punct symbol joint =>
      cases joint with
      | true =>
        rcases second with ⟨_ | _, _⟩ | _ <;> simp only [List.cons_append, dropLifetime]
        all_goals first | rfl | (split <;> rfl)
      | false => rfl
    | _ => rfl
  · rfl
  · rfl

theorem dropLiteral_append (ends : EndsType after) (filled : lexemes ≠ []) :
    dropLiteral (lexemes ++ after) =
      (dropLiteral lexemes).map fun found => (found.1, found.2 ++ after) := by
  rcases lexemes with _ | ⟨⟨token, place⟩ | _, _ | ⟨second, rest⟩⟩
  · exact absurd rfl filled
  · cases token with
    | ident text =>
      simp only [List.cons_append, dropLiteral]
      split <;> rfl
    | punct symbol joint =>
      rcases after with _ | ⟨first, later⟩
      · rfl
      · rcases ends first rfl with ⟨_, _, _, rfl, -⟩ | ⟨_, _, _, rfl⟩ <;> rfl
    | _ => rfl
  · cases token with
    | ident text =>
      simp only [List.cons_append, dropLiteral]
      split <;> rfl
    | punct symbol joint =>
      rcases second with ⟨_ | _, _⟩ | _ <;> simp only [List.cons_append, dropLiteral]
      all_goals first | rfl | (split <;> rfl)
    | _ => rfl
  · rfl
  · rfl

/-- What stands next does not depend on lexemes that come later. -/
theorem sees_append (ends : EndsType after) (closed : Closed lexemes) (filled : lexemes ≠ [])
    (e : Expectation) : sees (lexemes ++ after) e = sees lexemes e := by
  obtain ⟨first, rest, rfl⟩ := List.exists_cons_of_ne_nil filled
  cases e with
  | operator symbols =>
    simp only [sees, dropOperator_append closed filled, Option.isSome_map]
  | lifetime => simp only [sees, dropLifetime_append closed filled, Option.isSome_map]
  | literal => simp only [sees, dropLiteral_append ends filled, Option.isSome_map]
  | integerLiteral =>
    simp only [sees, dropLiteral_append ends filled]
    cases dropLiteral (first :: rest) <;> rfl
  | _ =>
    rcases first with ⟨token, place⟩ | _
    · cases token <;> rfl
    · rfl

theorem skipOne_append (closed : Closed lexemes) (filled : lexemes ≠ []) :
    skipOne (lexemes ++ after) = skipOne lexemes ++ after := by
  unfold skipOne
  rw [dropLifetime_append closed filled]
  cases dropLifetime lexemes with
  | some found => rfl
  | none =>
    obtain ⟨first, rest, rfl⟩ := List.exists_cons_of_ne_nil filled
    rfl

theorem suffix_of_skipOne (lexemes : List Lexeme) : skipOne lexemes <:+ lexemes := by
  unfold skipOne
  split
  · rename_i found
    unfold dropLifetime at found
    split at found
    · split at found <;> cases found
      exact (List.suffix_cons _ _).trans (List.suffix_cons _ _)
    · cases found
  · exact List.drop_suffix _ _

end Tests

section Alike

variable {a b : List Lexeme}

theorem dropLifetime_alike (alike : Alike a b) :
    Option.Rel (fun found other => found.1 = other.1 ∧ Alike found.2 other.2)
      (dropLifetime a) (dropLifetime b) := by
  cases alike with
  | nil => exact .none
  | group => exact .none
  | leaf token place other later =>
    cases token with
    | punct symbol joint =>
      cases joint with
      | false => exact .none
      | true =>
        cases later with
        | nil => exact .none
        | group => exact .none
        | leaf next place' other' last =>
          cases next with
          | ident name =>
            simp only [dropLifetime]
            split
            · exact .some ⟨rfl, last⟩
            · exact .none
          | _ => exact .none
    | _ => exact .none

/-- What stands next does not depend on places. -/
theorem sees_alike (alike : Alike a b) (e : Expectation) : sees a e = sees b e := by
  cases e with
  | operator symbols => exact alike.sees_operator symbols
  | lifetime =>
    have same := dropLifetime_alike alike
    simp only [sees]
    generalize dropLifetime a = found at same ⊢
    generalize dropLifetime b = other at same ⊢
    cases same <;> rfl
  | literal =>
    have same := alike.dropLiteral
    simp only [sees]
    generalize dropLiteral a = found at same ⊢
    generalize dropLiteral b = other at same ⊢
    cases same <;> rfl
  | integerLiteral =>
    have same := alike.dropLiteral
    simp only [sees]
    generalize dropLiteral a = found at same ⊢
    generalize dropLiteral b = other at same ⊢
    cases same with
    | none => rfl
    | some same => simp only [same.1]
  | _ =>
    cases alike with
    | nil => rfl
    | group => rfl
    | leaf token => cases token <;> rfl

theorem skipOne_alike (alike : Alike a b) : Alike (skipOne a) (skipOne b) := by
  have same := dropLifetime_alike alike
  unfold skipOne
  generalize dropLifetime a = found at same ⊢
  generalize dropLifetime b = other at same ⊢
  cases same with
  | none => exact alike.drop 1
  | some same => exact same.2

end Alike

/-- The tokens ahead of an input, and then some lexemes, are ahead of another one. -/
structure Input.Prolongs (after : List Lexeme) (i j : Input) : Prop where
  rest : ∃ front, Lexeme.Alike i.rest front ∧ j.rest = front ++ after
  closed : after = [] ∨ Closed i.rest
  leftover : i.leftover.isSome = j.leftover.isSome

namespace Input.Prolongs

variable {after : List Lexeme} {i j : Input}

/-- The same step on both sides. -/
theorem step (prolongs : i.Prolongs after j) {rest front : List Lexeme} (suffix : rest <:+ i.rest)
    (alike : Lexeme.Alike rest front) :
    Input.Prolongs after { i with rest } { j with rest := front ++ after } :=
  ⟨⟨front, alike, rfl⟩, prolongs.closed.imp_right fun closed => closed.of_suffix suffix,
    prolongs.leftover⟩

theorem leaf (prolongs : i.Prolongs after j) {token : Token} {place : Position}
    {rest : List Lexeme} (first : i.rest = .leaf token place :: rest) :
    ∃ place' rest', j.rest = .leaf token place' :: rest' ∧
      Input.Prolongs after { i with rest } { j with rest := rest' } := by
  obtain ⟨front, alike, same⟩ := prolongs.rest
  rw [first] at alike
  cases alike with
  | leaf _ _ place' later =>
    exact ⟨place', _, same, prolongs.step (first ▸ List.suffix_cons _ _) later⟩

theorem group (prolongs : i.Prolongs after j) {delimiter : Delimiter} {body rest : List Lexeme}
    {start stop : Position} (first : i.rest = .group delimiter body start stop :: rest) :
    ∃ body' start' stop' rest', j.rest = .group delimiter body' start' stop' :: rest' ∧
      Lexeme.Alike body body' ∧ Input.Prolongs after { i with rest } { j with rest := rest' } := by
  obtain ⟨front, alike, same⟩ := prolongs.rest
  rw [first] at alike
  cases alike with
  | group _ _ _ start' stop' inside later =>
    exact ⟨_, start', stop', _, same, inside, prolongs.step (first ▸ List.suffix_cons _ _) later⟩

theorem sees_eq (prolongs : i.Prolongs after j) (ends : EndsType after) {e : Expectation}
    (given : e.endsType = false ∨ i.rest ≠ [] ∨ after = []) : sees j.rest e = sees i.rest e := by
  obtain ⟨front, alike, same⟩ := prolongs.rest
  rw [same, sees_alike alike]
  rcases prolongs.closed with rfl | closed
  · rw [List.append_nil]
  · by_cases filled : front = []
    · subst filled
      rw [List.nil_append, sees_nil]
      rcases given with other | other | rfl
      · exact ends.unseen other
      · exact absurd (List.length_eq_zero_iff.mp alike.length_eq) other
      · exact sees_nil e
    · exact sees_append ends (closed.of_alike alike) filled e

/-- One lexeme further on both sides. -/
theorem skipOne (prolongs : i.Prolongs after j) (filled : i.rest ≠ []) :
    Input.Prolongs after { i with rest := Grammar.skipOne i.rest }
      { j with rest := Grammar.skipOne j.rest } := by
  obtain ⟨front, alike, same⟩ := prolongs.rest
  have later : Grammar.skipOne j.rest = Grammar.skipOne front ++ after := by
    rcases prolongs.closed with rfl | closed
    · rw [same, List.append_nil, List.append_nil]
    · rw [same, skipOne_append (closed.of_alike alike)]
      rintro rfl
      exact filled (List.length_eq_zero_iff.mp alike.length_eq)
  rw [later]
  exact prolongs.step (suffix_of_skipOne _) (skipOne_alike alike)

theorem operator (prolongs : i.Prolongs after j) {symbols : List Char} {rest : List Lexeme}
    (dropped : dropOperator symbols i.rest = some rest) (suffix : rest <:+ i.rest) :
    ∃ rest', dropOperator symbols j.rest = some rest' ∧
      Input.Prolongs after { i with rest } { j with rest := rest' } := by
  obtain ⟨front, alike, same⟩ := prolongs.rest
  have related := alike.dropOperator symbols
  rw [dropped] at related
  generalize found : dropOperator symbols front = other at related
  cases related with
  | some later =>
    refine ⟨_, ?_, prolongs.step suffix later⟩
    rcases prolongs.closed with rfl | closed
    · rw [same, List.append_nil, List.append_nil, found]
    · have filled : front ≠ [] := by
        rintro rfl
        rcases symbols with _ | ⟨c, _ | _⟩ <;> cases found
      rw [same, dropOperator_append (closed.of_alike alike) filled, found]
      rfl

theorem literal (prolongs : i.Prolongs after j) (ends : EndsType after) {tokens : List Token}
    {rest : List Lexeme} (dropped : dropLiteral i.rest = some (tokens, rest))
    (suffix : rest <:+ i.rest) :
    ∃ rest', dropLiteral j.rest = some (tokens, rest') ∧
      Input.Prolongs after { i with rest } { j with rest := rest' } := by
  obtain ⟨front, alike, same⟩ := prolongs.rest
  have related := alike.dropLiteral
  rw [dropped] at related
  generalize found : dropLiteral front = other at related
  cases related with
  | @some _ other later =>
    obtain ⟨_, rest'⟩ := other
    obtain ⟨rfl, later⟩ := later
    have filled : front ≠ [] := by
      rintro rfl
      cases found
    exact ⟨_, by rw [same, dropLiteral_append ends filled, found]; rfl, prolongs.step suffix later⟩

theorem seesAnyWord_eq (prolongs : i.Prolongs after j) (ends : EndsType after) :
    seesAnyWord j.rest = seesAnyWord i.rest := by
  obtain ⟨front, alike, same⟩ := prolongs.rest
  rw [same]
  generalize i.rest = rest at alike
  cases alike with
  | nil =>
    rcases after with _ | ⟨first, later⟩
    · rfl
    · rcases ends first rfl with ⟨_, _, _, rfl, -⟩ | ⟨_, _, _, rfl⟩ <;> rfl
  | leaf token => cases token <;> rfl
  | group => rfl

/-- The tokens read in the meantime are the same on both sides. -/
theorem tokensSince {k l : Input} (first : i.Prolongs after j) (last : k.Prolongs after l) :
    Lexeme.tokensOf (i.rest.take (i.rest.length - k.rest.length)) =
      Lexeme.tokensOf (j.rest.take (j.rest.length - l.rest.length)) := by
  obtain ⟨front, alike, same⟩ := first.rest
  obtain ⟨front', alike', same'⟩ := last.rest
  have count : j.rest.length - l.rest.length = i.rest.length - k.rest.length := by
    rw [same, same', List.length_append, List.length_append, alike.length_eq, alike'.length_eq]
    omega
  have short : i.rest.length - k.rest.length ≤ front.length := by
    rw [← alike.length_eq]
    omega
  rw [count, same, List.take_append_of_le_length short]
  exact (alike.take _).tokensOf_eq

end Input.Prolongs

end Grammar

end Forwarding
