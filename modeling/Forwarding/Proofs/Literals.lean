import Forwarding.Proofs.Spelling
/-!
Literals by themselves. What the lexer reads as a literal is read as the same literal wherever a
blank or a closing bracket stands after it. A quoted literal ends at its quote, whatever follows; a
number ends where its characters do, and what has followed it does not matter to it.
-/

namespace Forwarding

namespace Lexer

/-- What follows a printed word, literal or operator: a blank, or a bracket that closes. -/
def Stops (text : List Char) : Prop :=
  ∀ c, text.head? = some c → c ∈ [' ', '\n', ')', ']']

theorem Stops.endsWord {text : List Char} (stops : Stops text) : EndsWord text := by
  have each : ∀ c ∈ [' ', '\n', ')', ']'], Text.isIdentStart c = false ∧
      Text.isIdentContinue c = false ∧ c ≠ '"' ∧ c ≠ '#' ∧ c ≠ Token.apostrophe := by
    decide
  exact fun c first => each c (stops c first)

/-- Nothing of a number is read from a blank or a closing bracket. -/
theorem Stops.outside {c : Char} {text : List Char} (stops : Stops (c :: text)) :
    c.isDigit = false ∧ c ∉ ['_', '.', 'e', 'E', '+', '-', 'x', 'o', 'b'] ∧
      Literal.hexValue? c = none := by
  have each : ∀ c ∈ [' ', '\n', ')', ']'], c.isDigit = false ∧
      c ∉ ['_', '.', 'e', 'E', '+', '-', 'x', 'o', 'b'] ∧ Literal.hexValue? c = none := by
    decide
  exact each c (stops c rfl)

/-- What is left of some ranges after those within others, where both are in their order. -/
def uncovered (others ranges : List (Nat × Nat)) : List (Nat × Nat) :=
  others.foldl (fun left wider => left.dropWhile fun range =>
    decide (wider.1 ≤ range.1) && decide (range.2 ≤ wider.2)) ranges

theorem exists_wider {others ranges : List (Nat × Nat)} {range : Nat × Nat}
    (member : range ∈ ranges) :
    range ∈ uncovered others ranges ∨
      ∃ wider ∈ others, wider.1 ≤ range.1 ∧ range.2 ≤ wider.2 := by
  induction others generalizing ranges with
  | nil => exact .inl member
  | cons wider others ih =>
    rw [← List.takeWhile_append_dropWhile (l := ranges)
      (p := fun range => decide (wider.1 ≤ range.1) && decide (range.2 ≤ wider.2))] at member
    rcases List.mem_append.mp member with inside | left
    · have within := List.mem_takeWhile_imp inside
      simp only [Bool.and_eq_true, decide_eq_true_eq] at within
      exact .inr ⟨wider, List.mem_cons_self, within⟩
    · refine (ih left).imp_right fun ⟨other, listed, within⟩ => ?_
      exact ⟨other, List.mem_cons_of_mem _ listed, within⟩

theorem isIdentContinue_of_isIdentStart {c : Char} (begins : Text.isIdentStart c = true) :
    Text.isIdentContinue c = true := by
  have covered : uncovered Text.xidContinueRanges Text.xidStartRanges = [] := by decide +kernel
  unfold Text.isIdentStart at begins
  unfold Text.isIdentContinue
  split at begins
  · rw [if_pos ‹_›]
    simp only [Bool.or_eq_true, Char.isAlphanum] at begins ⊢
    exact begins.imp_left .inl
  · rw [if_neg ‹_›]
    obtain ⟨range, member, within⟩ := List.any_eq_true.mp begins
    obtain left | ⟨wider, listed, bounds⟩ :
        range ∈ uncovered Text.xidContinueRanges Text.xidStartRanges ∨
          ∃ wider ∈ Text.xidContinueRanges, wider.1 ≤ range.1 ∧ range.2 ≤ wider.2 :=
      exists_wider member
    · rw [covered] at left
      cases left
    refine List.any_eq_true.mpr ⟨wider, listed, ?_⟩
    simp only [Bool.and_eq_true, decide_eq_true_eq] at within ⊢
    exact ⟨bounds.1.trans within.1, within.2.trans bounds.2⟩

theorem WordChars.continues {chars : List Char} (word : WordChars chars) :
    ∀ c ∈ chars, Text.isIdentContinue c = true := by
  obtain ⟨begins, continues⟩ := word
  intro c member
  rcases List.mem_cons.mp member with rfl | member
  · exact isIdentContinue_of_isIdentStart begins
  · exact continues c member

/-- A literal that is read as a whole wherever a printed one may end. -/
structure IsLiteral (text : String) : Prop where
  filled : text.toList ≠ []
  skipped : ∀ rest, Stops rest → Literal.skip? (text.toList ++ rest) = some rest

end Lexer

namespace Literal

open Lexer

variable {family : Family} {text rest : List Char}

section Quoted

theorem readQuoted_front {reading : Reading} {value : List Char}
    (read : readQuoted family reading text = some (value, rest)) :
    ∃ front, text = front ++ rest ∧
      ∀ other, readQuoted family reading (front ++ other) = some (value, other) := by
  induction text generalizing reading value with
  | nil => cases read
  | cons c text ih =>
    rw [readQuoted] at read
    split at read
    · rename_i closes
      cases read
      exact ⟨[c], rfl, fun other => by rw [List.singleton_append, readQuoted, if_pos closes]⟩
    · rename_i goesOn
      split at read
      · cases read
      rename_i next said step
      obtain ⟨⟨value, after⟩, found, same⟩ := Option.map_eq_some_iff.mp read
      cases same
      obtain ⟨front, rfl, each⟩ := ih found
      refine ⟨c :: front, rfl, fun other => ?_⟩
      rw [List.cons_append, readQuoted, if_neg goesOn, step]
      simp only [each, Option.map_some]

theorem rawOpening_front {hashes : Nat} (opened : rawOpening text = some (hashes, rest)) :
    ∃ front, text = front ++ rest ∧
      ∀ other, rawOpening (front ++ other) = some (hashes, other) := by
  induction text generalizing hashes with
  | nil => cases opened
  | cons c text ih =>
    unfold rawOpening at opened
    split at opened
    · rename_i same
      cases opened
      obtain ⟨rfl, rfl⟩ := List.cons.inj same
      exact ⟨['"'], rfl, fun other => rfl⟩
    · rename_i same
      obtain ⟨rfl, rfl⟩ := List.cons.inj same
      split at opened
      · rename_i more body found
        split at opened
        · rename_i few
          cases opened
          obtain ⟨front, rfl, each⟩ := ih found
          refine ⟨'#' :: front, rfl, fun other => ?_⟩
          rw [List.cons_append, rawOpening, each]
          simp only [few, if_true]
        · cases opened
      · cases opened
    · cases opened

theorem skipHashes_front {n : Nat} (skipped : skipHashes n text = some rest) :
    ∃ front, text = front ++ rest ∧ ∀ other, skipHashes n (front ++ other) = some other := by
  induction n generalizing text with
  | zero =>
    cases skipped
    exact ⟨[], rfl, fun other => rfl⟩
  | succ n ih =>
    unfold skipHashes at skipped
    split at skipped
    · rename_i same
      cases same
    · rename_i more same
      cases same
      obtain ⟨front, rfl, each⟩ := ih skipped
      exact ⟨'#' :: front, rfl, fun other => each other⟩
    · cases skipped

/-- Whether hash signs are too few is decided by what stands before a quote. -/
theorem skipHashes_of_quote {front : List Char} (quote : '"' ∈ front) {n : Nat} {after : List Char}
    (few : skipHashes n (front ++ after) = none) (other : List Char) :
    skipHashes n (front ++ other) = none := by
  induction n generalizing front with
  | zero => cases few
  | succ n ih =>
    cases front with
    | nil => cases quote
    | cons c front =>
      by_cases hash : c = '#'
      · subst hash
        exact ih (by simpa using quote) few
      · rw [List.cons_append, skipHashes]
        · simpa using hash

theorem readRaw_front {hashes : Nat} {value : List Char}
    (read : readRaw family hashes text = some (value, rest)) :
    ∃ front, text = front ++ rest ∧ '"' ∈ front ∧
      ∀ other, readRaw family hashes (front ++ other) = some (value, other) := by
  induction text generalizing value with
  | nil => cases read
  | cons c text ih =>
    rw [readRaw] at read
    dsimp only at read
    split at read
    · rename_i after closed
      cases read
      have quote : c = '"' := by
        by_contra other
        rw [if_neg (by simpa using other)] at closed
        cases closed
      subst quote
      obtain ⟨front, rfl, each⟩ := skipHashes_front closed
      refine ⟨'"' :: front, rfl, List.mem_cons_self, fun other => ?_⟩
      rw [List.cons_append, readRaw]
      simp [each]
    · rename_i opened
      split at read
      · cases read
      rename_i allowed
      split at read
      · cases read
      rename_i noReturn
      obtain ⟨⟨value, after⟩, found, same⟩ := Option.map_eq_some_iff.mp read
      cases same
      obtain ⟨front, rfl, quote, each⟩ := ih found
      refine ⟨c :: front, rfl, List.mem_cons_of_mem _ quote, fun other => ?_⟩
      have still : (if c == '"' then skipHashes hashes (front ++ other) else none) = none := by
        split
        · rename_i isQuote
          rw [if_pos isQuote] at opened
          exact skipHashes_of_quote quote opened other
        · rfl
      have first : (front ++ other).head? = (front ++ after).head? := by
        obtain ⟨d, more, rfl⟩ := List.exists_cons_of_ne_nil (List.ne_nil_of_mem quote)
        rfl
      rw [List.cons_append, readRaw]
      dsimp only
      rw [still, if_neg allowed, first, if_neg noReturn, each]
      rfl

theorem readString_front {raw : Bool} {value : List Char}
    (read : readString family raw text = some (value, rest)) :
    ∃ front, text = front ++ rest ∧
      ∀ other, readString family raw (front ++ other) = some (value, other) := by
  unfold readString at read
  split at read
  · rename_i isRaw
    split at read
    · rename_i hashes body opened
      obtain ⟨first, rfl, opens⟩ := rawOpening_front opened
      obtain ⟨second, rfl, -, each⟩ := readRaw_front read
      refine ⟨first ++ second, (List.append_assoc _ _ _).symm, fun other => ?_⟩
      simp only [readString, if_pos isRaw, List.append_assoc, opens]
      exact each other
    · cases read
  · rename_i notRaw
    split at read
    · rename_i text
      obtain ⟨front, rfl, each⟩ := readQuoted_front read
      refine ⟨'"' :: front, rfl, fun other => ?_⟩
      simp only [readString, if_neg notRaw, List.cons_append]
      exact each other
    · cases read

theorem skipEscape_front {reading : Reading}
    (skipped : skipEscape family reading text = some rest) :
    ∃ front, text = front ++ rest ∧
      ∀ other, skipEscape family reading (front ++ other) = some other := by
  induction text generalizing reading with
  | nil => cases skipped
  | cons c text ih =>
    rw [skipEscape] at skipped
    -- the character ends the escape, ends it badly, or leads on
    split at skipped
    · cases skipped
    · rename_i said step
      cases skipped
      exact ⟨[c], rfl, fun other => by rw [List.singleton_append, skipEscape, step]⟩
    · cases skipped
    · cases skipped
    · rename_i next said plain continuation return_ step
      obtain ⟨front, rfl, each⟩ := ih skipped
      refine ⟨c :: front, rfl, fun other => ?_⟩
      rw [List.cons_append, skipEscape, step]
      cases next <;> first | exact each other | contradiction

theorem skipCharacter_front (skipped : skipCharacter family text = some rest) :
    ∃ front, text = front ++ rest ∧
      ∀ other, skipCharacter family (front ++ other) = some other := by
  cases text with
  | nil => cases skipped
  | cons c text =>
    rw [skipCharacter] at skipped
    split at skipped
    · rename_i escape
      obtain ⟨front, rfl, each⟩ := skipEscape_front skipped
      refine ⟨c :: front, rfl, fun other => ?_⟩
      rw [List.cons_append, skipCharacter, if_pos escape]
      exact each other
    · rename_i noEscape
      split at skipped
      · cases skipped
      rename_i allowed
      cases skipped
      exact ⟨[c], rfl, fun other => by
        rw [List.singleton_append, skipCharacter, if_neg noEscape, if_neg allowed]⟩

theorem readCharacter_front (read : readCharacter family text = some rest) :
    ∃ front, text = front ++ rest ∧
      ∀ other, readCharacter family (front ++ other) = some other := by
  unfold readCharacter at read
  split at read
  · rename_i c after skipped
    split at read
    · rename_i mark
      cases read
      obtain ⟨front, rfl, each⟩ := skipCharacter_front skipped
      refine ⟨front ++ [c], by simp, fun other => ?_⟩
      rw [List.append_assoc, List.singleton_append, readCharacter, each]
      simp only [mark, if_true]
    · cases read
  · cases read

theorem readQuoted_of_readString {value : List Char}
    (read : readString family false ('"' :: text) = some (value, rest)) :
    readQuoted family .plain text = some (value, rest) := by
  simpa [readString] using read

/-- A string literal ends at its quote, whatever follows. -/
theorem string?_front {found : Family} {value : List Char}
    (read : string? text = some (found, value, rest)) :
    ∃ front, text = front ++ rest ∧ front ≠ [] ∧
      ∀ other, string? (front ++ other) = some (found, value, other) := by
  unfold string? at read
  split at read
  -- one case for each of the letters that may stand before the quote
  · obtain ⟨⟨value, rest⟩, inner, same⟩ := Option.map_eq_some_iff.mp read
    cases same
    obtain ⟨front, rfl, each⟩ := readQuoted_front (readQuoted_of_readString inner)
    exact ⟨'"' :: front, rfl, by simp, fun other => by simp [string?, readString, each]⟩
  · obtain ⟨⟨value, rest⟩, inner, same⟩ := Option.map_eq_some_iff.mp read
    cases same
    obtain ⟨front, rfl, each⟩ := readString_front inner
    exact ⟨'r' :: front, rfl, by simp, fun other => by simp [string?, each]⟩
  · obtain ⟨⟨value, rest⟩, inner, same⟩ := Option.map_eq_some_iff.mp read
    cases same
    obtain ⟨front, rfl, each⟩ := readQuoted_front (readQuoted_of_readString inner)
    exact ⟨'b' :: '"' :: front, rfl, by simp, fun other => by simp [string?, readString, each]⟩
  · obtain ⟨⟨value, rest⟩, inner, same⟩ := Option.map_eq_some_iff.mp read
    cases same
    obtain ⟨front, rfl, each⟩ := readString_front inner
    exact ⟨'b' :: 'r' :: front, rfl, by simp, fun other => by simp [string?, each]⟩
  · obtain ⟨⟨value, rest⟩, inner, same⟩ := Option.map_eq_some_iff.mp read
    cases same
    obtain ⟨front, rfl, each⟩ := readQuoted_front (readQuoted_of_readString inner)
    exact ⟨'c' :: '"' :: front, rfl, by simp, fun other => by simp [string?, readString, each]⟩
  · obtain ⟨⟨value, rest⟩, inner, same⟩ := Option.map_eq_some_iff.mp read
    cases same
    obtain ⟨front, rfl, each⟩ := readString_front inner
    exact ⟨'c' :: 'r' :: front, rfl, by simp, fun other => by simp [string?, each]⟩
  · cases read

/-- A character literal is no string literal, and ends at its apostrophe, whatever follows. -/
theorem character?_front (read : character? text = some rest) :
    ∃ front, text = front ++ rest ∧ front ≠ [] ∧
      ∀ other, string? (front ++ other) = none ∧ character? (front ++ other) = some other := by
  unfold character? at read
  split at read
  · rename_i c body
    split at read
    · rename_i mark
      rw [beq_iff_eq] at mark
      subst mark
      obtain ⟨front, rfl, each⟩ := readCharacter_front read
      exact ⟨'b' :: Char.ofNat 39 :: front, rfl, by simp, fun other =>
        ⟨by simp [string?], by simp [character?, each]⟩⟩
    · cases read
  · rename_i c body other
    split at read
    · rename_i mark
      rw [beq_iff_eq] at mark
      subst mark
      obtain ⟨front, rfl, each⟩ := readCharacter_front read
      exact ⟨Char.ofNat 39 :: front, rfl, by simp, fun other =>
        ⟨by simp [string?], by simp [character?, each]⟩⟩
    · cases read
  · cases read

end Quoted

section Suffixes

theorem Stops.skipSuffix {stop : List Char} (stops : Stops stop) : skipSuffix stop = stop := by
  cases stop with
  | nil => rfl
  | cons c stop => simp [Literal.skipSuffix, skipIdent, (stops.endsWord c rfl).1]

/-- What is skipped as the suffix of a literal: a word or nothing. -/
theorem skipSuffix_front (skipped : skipSuffix text = rest) :
    ∃ suffix, text = suffix ++ rest ∧ (∀ c ∈ suffix, Text.isIdentContinue c = true) ∧
      ∀ stop, Stops stop → skipSuffix (suffix ++ stop) = stop := by
  unfold skipSuffix at skipped
  cases found : skipIdent text with
  | none =>
    rw [found, Option.getD_none] at skipped
    exact ⟨[], skipped, by simp, fun stop stops => Stops.skipSuffix stops⟩
  | some after =>
    rw [found, Option.getD_some] at skipped
    subst skipped
    obtain ⟨suffix, rfl, word, -⟩ := skipIdent_eq_some found
    refine ⟨suffix, rfl, word.continues, fun stop stops => ?_⟩
    rw [skipSuffix, word.skipIdent stops.endsWord.continuesWord, Option.getD_some]

theorem endNumber_front (ended : endNumber text = some rest) :
    ∃ suffix, text = suffix ++ rest ∧ (∀ c ∈ suffix, Text.isIdentContinue c = true) ∧
      continuesWord rest = false ∧ ∀ stop, Stops stop → endNumber (suffix ++ stop) = some stop := by
  unfold endNumber at ended
  dsimp only at ended
  split at ended
  · cases ended
  rename_i noWord
  obtain ⟨suffix, rfl, continues, each⟩ := skipSuffix_front (Option.some.inj ended)
  rw [Option.some.inj ended, Bool.not_eq_true] at noWord
  refine ⟨suffix, rfl, continues, noWord, fun stop stops => ?_⟩
  unfold endNumber
  simp only [each stop stops, stops.endsWord.continuesWord, Bool.false_eq_true, if_false]

end Suffixes

section Numbers

/-- A text before which a number ends as it does before another one. -/
def EndsAs (rest other : List Char) : Prop :=
  Stops other ∨ other.head? = rest.head?

theorem EndsAs.append {rest other : List Char} (ends : EndsAs rest other) (front : List Char) :
    EndsAs (front ++ rest) (front ++ other) := by
  cases front with
  | nil => exact ends
  | cons c front => exact .inr rfl

theorem mantissa?_of_outside {point : Bool} (outside : ∀ c, text.head? = some c →
    c.isDigit = false ∧ c ≠ '_' ∧ (c = '.' → point = true) ∧ c ≠ 'e' ∧ c ≠ 'E') :
    mantissa? point text = some (.ended point text) := by
  cases text with
  | nil => rfl
  | cons c text =>
    obtain ⟨noDigit, noScore, noPoint, lower, upper⟩ := outside c rfl
    rw [mantissa?.eq_def]
    by_cases dot : c = '.'
    · simp [dot, noPoint dot]
    · simp [noDigit, noScore, dot, lower, upper]

theorem Stops.mantissa? {stop : List Char} (stops : Stops stop) (point : Bool) :
    mantissa? point stop = some (.ended point stop) := by
  refine mantissa?_of_outside fun c first => ?_
  obtain ⟨more, rfl⟩ := List.head?_eq_some_iff.mp first
  obtain ⟨noDigit, others, -⟩ := stops.outside
  simp only [List.mem_cons, not_or] at others
  exact ⟨noDigit, others.1, fun dot => absurd dot others.2.1, others.2.2.1, others.2.2.2.1⟩

theorem mantissa?_of_endsAs {point : Bool} {other : List Char} (ends : EndsAs text other)
    (outside : ∀ c, text.head? = some c →
      c.isDigit = false ∧ c ≠ '_' ∧ (c = '.' → point = true) ∧ c ≠ 'e' ∧ c ≠ 'E') :
    mantissa? point other = some (.ended point other) := by
  rcases ends with stops | same
  · exact Stops.mantissa? stops point
  · exact mantissa?_of_outside fun c first => outside c (same ▸ first)

/-- After a decimal point that a digit or an end follows, the digits go on. -/
theorem mantissa?_point {d : Char} {other : List Char} (ends : EndsAs (d :: rest) other)
    (allowed : (d == '.' || Text.isIdentStart d) = false) :
    mantissa? false ('.' :: other) = mantissa? true other := by
  cases other with
  | nil => rfl
  | cons e other =>
    have allowed : (e == '.' || Text.isIdentStart e) = false := by
      rcases ends with stops | same
      · have others := stops.outside.2.1
        have noStart := (stops.endsWord e rfl).1
        simp_all
      · obtain rfl := Option.some.inj same
        exact allowed
    have noDigit : ('.' : Char).isDigit = false := by decide
    rw [mantissa?]
    simp [noDigit, allowed]

theorem mantissa?_ended {point ended : Bool}
    (read : mantissa? point text = some (.ended ended rest)) :
    ∃ front, text = front ++ rest ∧ ∀ other, EndsAs rest other →
      mantissa? point (front ++ other) = some (.ended ended other) := by
  induction text generalizing point with
  | nil =>
    cases read
    exact ⟨[], rfl, fun other ends => mantissa?_of_endsAs ends (by simp)⟩
  | cons c text ih =>
    rw [mantissa?.eq_def] at read
    dsimp only at read
    split at read
    · rename_i digit
      obtain ⟨front, rfl, each⟩ := ih read
      refine ⟨c :: front, rfl, fun other ends => ?_⟩
      rw [List.cons_append, mantissa?.eq_def]
      simp only [if_pos digit, each other ends]
    rename_i noDigit
    rw [Bool.or_eq_true, not_or, Bool.not_eq_true, beq_iff_eq] at noDigit
    split at read
    · rename_i dot
      rw [beq_iff_eq] at dot
      subst dot
      split at read
      · rename_i pointed
        cases read
        exact ⟨[], rfl, fun other ends => mantissa?_of_endsAs ends (by simp [pointed])⟩
      rename_i first
      rw [Bool.not_eq_true] at first
      subst first
      split at read
      · rename_i d more
        split at read
        · cases read
        rename_i allowed
        rw [Bool.not_eq_true] at allowed
        obtain ⟨front, same, each⟩ := ih read
        refine ⟨'.' :: front, by rw [same, List.cons_append], fun other ends => ?_⟩
        rw [List.cons_append, mantissa?_point (same ▸ ends.append front) allowed, each other ends]
      · cases read
        refine ⟨['.'], rfl, fun other ends => ?_⟩
        have ends' : EndsAs (' ' :: []) other ∨ other = [] := by
          rcases ends with stops | same
          · exact .inl (.inl stops)
          · exact .inr (List.head?_eq_none_iff.mp same)
        rcases ends' with ends' | rfl
        · rw [List.singleton_append, mantissa?_point ends' (by decide)]
          exact mantissa?_of_endsAs ends (by simp)
        · rfl
    · split at read
      · cases read
      · cases read
        exact ⟨[], rfl, fun other ends => mantissa?_of_endsAs ends (by simp_all)⟩

theorem mantissa?_exponent {point ended : Bool}
    (read : mantissa? point text = some (.exponent ended rest)) :
    ∃ front e after, rest = e :: after ∧ Text.isIdentStart e = true ∧ text = front ++ rest ∧
      ∀ other, mantissa? point (front ++ e :: other) = some (.exponent ended (e :: other)) := by
  induction text generalizing point with
  | nil => cases read
  | cons c text ih =>
    rw [mantissa?.eq_def] at read
    dsimp only at read
    split at read
    · rename_i digit
      obtain ⟨front, e, after, rfl, letter, rfl, each⟩ := ih read
      refine ⟨c :: front, e, after, rfl, letter, rfl, fun other => ?_⟩
      rw [List.cons_append, mantissa?.eq_def]
      simp only [if_pos digit, each other]
    rename_i noDigit
    split at read
    · rename_i noMore
      split at read
      · cases read
      rename_i first
      rw [beq_iff_eq] at noMore
      rw [Bool.not_eq_true] at first
      subst noMore first
      split at read
      · rename_i d more
        split at read
        · cases read
        rename_i allowed
        rw [Bool.not_eq_true] at allowed
        obtain ⟨front, e, after, rfl, letter, same, each⟩ := ih read
        refine ⟨'.' :: front, e, after, rfl, letter, by rw [same, List.cons_append],
          fun other => ?_⟩
        have ends : EndsAs (d :: more) (front ++ e :: other) := by
          rw [same]
          exact EndsAs.append (.inr (by rfl)) front
        rw [List.cons_append, mantissa?_point ends allowed, each other]
      · cases read
    · rename_i noDot
      split at read
      · rename_i letter
        cases read
        have begins : Text.isIdentStart c = true := by
          rw [Bool.or_eq_true, beq_iff_eq, beq_iff_eq] at letter
          rcases letter with rfl | rfl <;> decide
        refine ⟨[], c, text, rfl, begins, rfl, fun other => ?_⟩
        rw [List.nil_append, mantissa?.eq_def]
        simp only [if_neg noDigit, if_neg noDot, if_pos letter]
      · cases read

theorem exponent?_true_ne_none (sign : Bool) (text : List Char) :
    exponent? sign true text ≠ none := by
  induction text generalizing sign with
  | nil => simp [exponent?]
  | cons c text ih =>
    rw [exponent?]
    split
    · simp
    split
    · exact ih sign
    split
    · exact ih sign
    · simp

theorem exponent?_of_outside {sign : Bool}
    (outside : ∀ c, text.head? = some c → c.isDigit = false ∧ c ≠ '_') :
    exponent? sign true text = some text := by
  cases text with
  | nil => rfl
  | cons c text =>
    obtain ⟨noDigit, noScore⟩ := outside c rfl
    simp [exponent?, noDigit, noScore]

theorem exponent?_of_endsAs {sign : Bool} {other : List Char} (ends : EndsAs text other)
    (outside : ∀ c, text.head? = some c → c.isDigit = false ∧ c ≠ '_') :
    exponent? sign true other = some other := by
  refine exponent?_of_outside fun c first => ?_
  rcases ends with stops | same
  · obtain ⟨more, rfl⟩ := List.head?_eq_some_iff.mp first
    exact ⟨stops.outside.1, fun score => stops.outside.2.1 (by simp [score])⟩
  · exact outside c (same ▸ first)

theorem exponent?_front {sign digits : Bool} (read : exponent? sign digits text = some rest) :
    ∃ front, text = front ++ rest ∧
      ∀ other, EndsAs rest other → exponent? sign digits (front ++ other) = some other := by
  induction text generalizing sign digits with
  | nil =>
    cases digits with
    | false => cases read
    | true =>
      cases read
      exact ⟨[], rfl, fun other ends => exponent?_of_endsAs ends (by simp)⟩
  | cons c text ih =>
    rw [exponent?] at read
    split at read
    · rename_i signed
      have outside : c.isDigit = false ∧ c ≠ '_' := by
        rw [Bool.or_eq_true, beq_iff_eq, beq_iff_eq] at signed
        rcases signed with rfl | rfl <;> decide
      split at read
      · rename_i some
        cases read
        subst some
        exact ⟨[], rfl, fun other ends => exponent?_of_endsAs ends (by simpa using outside)⟩
      rename_i none
      split at read
      · cases read
      rename_i first
      obtain ⟨front, rfl, each⟩ := ih read
      refine ⟨c :: front, rfl, fun other ends => ?_⟩
      rw [List.cons_append, exponent?, if_pos signed, if_neg none, if_neg first, each other ends]
    rename_i unsigned
    split at read
    · rename_i digit
      obtain ⟨front, rfl, each⟩ := ih read
      refine ⟨c :: front, rfl, fun other ends => ?_⟩
      rw [List.cons_append, exponent?, if_neg unsigned, if_pos digit, each other ends]
    rename_i noDigit
    split at read
    · rename_i score
      obtain ⟨front, rfl, each⟩ := ih read
      refine ⟨c :: front, rfl, fun other ends => ?_⟩
      rw [List.cons_append, exponent?, if_neg unsigned, if_neg noDigit, if_pos score,
        each other ends]
    rename_i noScore
    split at read
    · rename_i some
      cases read
      subst some
      exact ⟨[], rfl, fun other ends => exponent?_of_endsAs ends (by simp_all)⟩
    · cases read

theorem isIdentContinue_of_hexValue {c : Char} {digit : Nat} (value : hexValue? c = some digit) :
    Text.isIdentContinue c = true := by
  unfold hexValue? at value
  have ascii : c.isDigit = true ∨ ('a' ≤ c ∧ c ≤ 'f') ∨ ('A' ≤ c ∧ c ≤ 'F') := by
    by_contra none
    simp only [not_or] at none
    obtain ⟨noDigit, noLower, noUpper⟩ := none
    simp [noDigit, noLower, noUpper] at value
  unfold Text.isIdentContinue
  have letters : c.isAlphanum = ((decide ('A' ≤ c ∧ c ≤ 'Z') ||
      (decide ('a' ≤ c) && decide (c ≤ 'z'))) || c.isDigit) := rfl
  have small : c.toNat < 128 ∧ c.isAlphanum = true := by
    rw [letters]
    simp only [Char.isDigit, Bool.and_eq_true, Bool.or_eq_true, decide_eq_true_eq, ge_iff_le,
      Char.le_def, UInt32.le_iff_toNat_le, Char.toNat] at ascii ⊢
    simp at ascii ⊢
    omega
  simp [small]

theorem isDigit_of_not_continue {c : Char} (ended : continuesWord (c :: text) = false) :
    c.isDigit = false ∧ c ≠ '_' := by
  rw [continuesWord] at ended
  constructor
  · by_contra digit
    have value : hexValue? c = some (c.toNat - '0'.toNat) := by
      rw [Bool.not_eq_false] at digit
      simp [hexValue?, digit]
    rw [isIdentContinue_of_hexValue value] at ended
    cases ended
  · rintro rfl
    revert ended
    decide

theorem endNumber_of_not_continue (ended : continuesWord text = false) :
    endNumber text = some text := by
  have noSuffix : skipSuffix text = text := by
    cases text with
    | nil => rfl
    | cons c text =>
      have noStart : ¬ Text.isIdentStart c = true := fun begins => by
        rw [continuesWord, isIdentContinue_of_isIdentStart begins] at ended
        cases ended
      simp [skipSuffix, skipIdent, noStart]
  simp [endNumber, noSuffix, ended]

theorem not_signed_of_continue {c : Char} (inside : Text.isIdentContinue c = true) :
    ¬ (c == '+' || c == '-') = true := by
  rw [Bool.or_eq_true, beq_iff_eq, beq_iff_eq]
  rintro (rfl | rfl) <;> revert inside <;> decide

theorem exponent?_false_stop {sign : Bool} {stop : List Char} (stops : Stops stop) :
    exponent? sign false stop = none := by
  cases stop with
  | nil => rfl
  | cons c stop =>
    have others := stops.outside
    simp_all [exponent?]

/-- An exponent without digits has none where its text ends sooner. -/
theorem exponent?_none {word stop : List Char} {sign : Bool} (digits : Bool)
    (continues : ∀ c ∈ word, Text.isIdentContinue c = true) (stops : Stops stop)
    (none : exponent? sign digits (word ++ rest) = none) :
    exponent? sign digits (word ++ stop) = .none := by
  induction word generalizing digits with
  | nil =>
    cases digits with
    | true => exact absurd none (exponent?_true_ne_none sign rest)
    | false => exact exponent?_false_stop stops
  | cons c word ih =>
    have later := fun digits => ih digits fun d member =>
      continues d (List.mem_cons_of_mem _ member)
    have unsigned := not_signed_of_continue (continues c List.mem_cons_self)
    rw [List.cons_append, exponent?, if_neg unsigned] at none ⊢
    split
    · rename_i digit
      rw [if_pos digit] at none
      exact later true none
    rename_i noDigit
    rw [if_neg noDigit] at none
    split
    · rename_i score
      rw [if_pos score] at none
      exact later digits none
    rename_i noScore
    rw [if_neg noScore] at none
    cases digits with
    | true => cases none
    | false => rfl

/-- An exponent that does not end a number does not do so where its text ends sooner. -/
theorem exponent?_bind_none {word stop : List Char} (sign digits : Bool)
    (continues : ∀ c ∈ word, Text.isIdentContinue c = true) (ended : continuesWord rest = false)
    (stops : Stops stop) (none : (exponent? sign digits (word ++ rest)).bind endNumber = none) :
    (exponent? sign digits (word ++ stop)).bind endNumber = .none := by
  induction word generalizing digits with
  | nil =>
    cases digits with
    | true =>
      have outside : ∀ c, rest.head? = some c → c.isDigit = false ∧ c ≠ '_' := fun c first => by
        obtain ⟨more, rfl⟩ := List.head?_eq_some_iff.mp first
        exact isDigit_of_not_continue ended
      rw [List.nil_append, exponent?_of_outside outside, Option.bind_some,
        endNumber_of_not_continue ended] at none
      cases none
    | false =>
      have missing : exponent? sign false stop = .none :=
        exponent?_false_stop stops
      rw [List.nil_append, missing, Option.bind_none]
  | cons c word ih =>
    have later := fun digits => ih digits fun d member =>
      continues d (List.mem_cons_of_mem _ member)
    have inside := continues c List.mem_cons_self
    have unsigned := not_signed_of_continue inside
    rw [List.cons_append, exponent?, if_neg unsigned] at none ⊢
    split
    · rename_i digit
      rw [if_pos digit] at none
      exact later true none
    rename_i noDigit
    rw [if_neg noDigit] at none
    split
    · rename_i score
      rw [if_pos score] at none
      exact later digits none
    rename_i noScore
    rw [if_neg noScore] at none
    cases digits with
    | false => rfl
    | true =>
      -- the letter would begin a suffix, or it can only go on with a word
      rw [if_pos rfl, Option.bind_some] at none ⊢
      by_cases begins : Text.isIdentStart c = true
      · have word : WordChars (c :: word) :=
          ⟨begins, fun d member => continues d (List.mem_cons_of_mem _ member)⟩
        rw [← List.cons_append, endNumber, skipSuffix, word.skipIdent ended] at none
        simp [ended] at none
      · simp [endNumber, skipSuffix, skipIdent, begins, continuesWord, inside]

/-- A number that is no fraction is none where its text ends sooner. -/
theorem fraction?_bind_none {word stop : List Char}
    (continues : ∀ c ∈ word, Text.isIdentContinue c = true) (ended : continuesWord rest = false)
    (stops : Stops stop) (none : (fraction? (word ++ rest)).bind endNumber = none) :
    (fraction? (word ++ stop)).bind endNumber = .none := by
  cases word with
  | nil =>
    cases stop with
    | nil => rfl
    | cons c stop => simp [fraction?, stops.outside.1]
  | cons c word =>
    replace continues := fun d member => continues d (List.mem_cons_of_mem _ member)
    by_cases digit : c.isDigit = true
    case neg => simp [fraction?, digit]
    simp only [List.cons_append, fraction?, digit, Bool.not_true, Bool.false_eq_true,
      if_false] at none ⊢
    induction word with
    | nil =>
      rw [List.nil_append, Stops.mantissa? stops, Option.bind_none]
    | cons d word ih =>
      have inside := continues d List.mem_cons_self
      have later := ih fun e member => continues e (List.mem_cons_of_mem _ member)
      rw [List.cons_append, mantissa?.eq_def] at none ⊢
      dsimp only at none ⊢
      by_cases more : (d.isDigit || d == '_') = true
      · rw [if_pos more] at none ⊢
        exact later none
      rw [if_neg more] at none ⊢
      have noPoint : ¬ (d == '.') = true := by
        rw [beq_iff_eq]
        rintro rfl
        revert inside
        decide
      rw [if_neg noPoint] at none ⊢
      by_cases letter : (d == 'e' || d == 'E') = true
      case neg => rw [if_neg letter, Option.bind_none]
      rw [if_pos letter] at none ⊢
      dsimp only at none ⊢
      have noEnd := exponent?_bind_none false false
        (fun e member => continues e (List.mem_cons_of_mem _ member)) ended stops
        (by
          cases found : exponent? false false (word ++ rest) with
          | none => rfl
          | some last => rw [found] at none; exact none)
      cases found : exponent? false false (word ++ stop) with
      | none => simp
      | some last => rw [found] at noEnd; exact noEnd

/-- A fraction is read as a whole wherever its text ends. -/
theorem fraction?_front (read : (fraction? text).bind endNumber = some rest) :
    ∃ front, text = front ++ rest ∧
      ∀ stop, Stops stop → (fraction? (front ++ stop)).bind endNumber = some stop := by
  obtain ⟨after, found, ended⟩ := Option.bind_eq_some_iff.mp read
  obtain ⟨suffix, rfl, continues, noWord, each⟩ := endNumber_front ended
  have ends : ∀ stop, Stops stop → EndsAs (suffix ++ rest) (suffix ++ stop) :=
    fun stop stops => EndsAs.append (.inl stops) suffix
  cases text with
  | nil => cases found
  | cons c text =>
    unfold fraction? at found
    split at found
    rotate_left
    · cases ‹_ :: _ = []›
    rename_i same
    obtain ⟨rfl, rfl⟩ := List.cons.inj same
    split at found
    · cases found
    rename_i digit
    split at found
    · rename_i after mantissa
      cases found
      obtain ⟨front, rfl, again⟩ := mantissa?_ended mantissa
      refine ⟨c :: front ++ suffix, by simp, fun stop stops => ?_⟩
      rw [List.append_assoc, List.cons_append, fraction?, if_neg digit, again _ (ends stop stops)]
      exact each stop stops
    · rename_i point e after mantissa
      obtain ⟨front, e, after, heads, letter, rfl, again⟩ := mantissa?_exponent mantissa
      obtain ⟨rfl, rfl⟩ := List.cons.inj heads
      split at found
      · rename_i last digits
        cases found
        obtain ⟨second, rfl, exponents⟩ := exponent?_front digits
        refine ⟨c :: front ++ e :: second ++ suffix, by simp, fun stop stops => ?_⟩
        simp only [List.append_assoc, List.cons_append, fraction?, if_neg digit, again,
          exponents _ (ends stop stops)]
        exact each stop stops
      · rename_i noDigits
        split at found
        · rename_i pointed
          obtain ⟨word, rfl, rfl⟩ : ∃ word, suffix = e :: word ∧ after = word ++ rest := by
            cases suffix with
            | nil =>
              rw [List.nil_append] at found
              cases found
              rw [continuesWord, isIdentContinue_of_isIdentStart letter] at noWord
              cases noWord
            | cons d word =>
              cases found
              exact ⟨word, rfl, rfl⟩
          refine ⟨c :: front ++ e :: word, by simp, fun stop stops => ?_⟩
          have still := exponent?_none false
            (fun d member => continues d (List.mem_cons_of_mem _ member)) stops noDigits
          simp only [List.append_assoc, List.cons_append, fraction?, if_neg digit, again, still,
            if_pos pointed]
          exact each stop stops
        · cases found
    · cases found

theorem digits?_of_endsAs {base : Nat} {other : List Char} (ends : EndsAs text other)
    (outside : ∀ c, text.head? = some c → c ≠ '_' ∧
      ∀ digit, hexValue? c = some digit → ¬ digit < base ∧ c.isDigit = false) :
    digits? base false other = some other := by
  cases other with
  | nil => rfl
  | cons c other =>
    rw [digits?]
    rcases ends with stops | same
    · have score : ¬ (c == '_') = true := fun score =>
        stops.outside.2.1 (by simp [beq_iff_eq.mp score])
      rw [if_neg score, stops.outside.2.2]
      rfl
    · obtain ⟨score, bound⟩ := outside c (by rw [← same]; rfl)
      rw [if_neg (by simpa using score)]
      split
      · rename_i digit value
        obtain ⟨large, noDigit⟩ := bound digit value
        simp [large, noDigit]
      · rfl

theorem digits?_front {base : Nat} {empty : Bool} (read : digits? base empty text = some rest) :
    ∃ front, text = front ++ rest ∧ (∀ c ∈ front, Text.isIdentContinue c = true) ∧
      (empty = true → front ≠ []) ∧
      ∀ other, EndsAs rest other → digits? base empty (front ++ other) = some other := by
  induction text generalizing empty with
  | nil =>
    cases empty with
    | true => cases read
    | false =>
      cases read
      exact ⟨[], rfl, by simp, by simp, fun other ends => digits?_of_endsAs ends (by simp)⟩
  | cons c text ih =>
    rw [digits?] at read
    split at read
    · rename_i score
      split at read
      · cases read
      rename_i allowed
      obtain ⟨front, rfl, continues, -, each⟩ := ih read
      rw [beq_iff_eq] at score
      subst score
      refine ⟨'_' :: front, rfl, ?_, by simp, fun other ends => ?_⟩
      · exact List.forall_mem_cons.mpr ⟨by decide, continues⟩
      · rw [List.cons_append, digits?, if_pos (by rfl), if_neg allowed, each other ends]
    rename_i noScore
    split at read
    · rename_i digit value
      split at read
      · rename_i small
        obtain ⟨front, rfl, continues, -, each⟩ := ih read
        refine ⟨c :: front, rfl, ?_, by simp, fun other ends => ?_⟩
        · exact List.forall_mem_cons.mpr ⟨isIdentContinue_of_hexValue value, continues⟩
        · rw [List.cons_append, digits?, if_neg noScore, value]
          simp only [small, if_true, each other ends]
      rename_i large
      split at read
      · cases read
      rename_i ends
      rw [Bool.or_eq_true, not_or, Bool.not_eq_true, Bool.not_eq_true] at ends
      obtain ⟨noDigit, rfl⟩ := ends
      cases read
      refine ⟨[], rfl, by simp, by simp, fun other ends => digits?_of_endsAs ends ?_⟩
      rintro d same
      obtain rfl := Option.some.inj same
      refine ⟨by simpa using noScore, fun other same => ?_⟩
      rw [value] at same
      cases same
      exact ⟨large, noDigit⟩
    · rename_i value
      cases empty with
      | true => cases read
      | false =>
        cases read
        refine ⟨[], rfl, by simp, by simp, fun other ends => digits?_of_endsAs ends ?_⟩
        rintro d same
        obtain rfl := Option.some.inj same
        exact ⟨by simpa using noScore, by simp [value]⟩

/-- The base that an integer names is read from its first characters. -/
theorem radix_front (text : List Char) :
    ∃ front, text = front ++ (radix text).2 ∧ (∀ c ∈ front, Text.isIdentContinue c = true) ∧
      ∀ more rest stop : List Char, (radix text).2 = more ++ rest → more ≠ [] → Stops stop →
        radix (front ++ more ++ stop) = ((radix text).1, more ++ stop) := by
  have letters : ∀ c ∈ ['0', 'x', 'o', 'b'], Text.isIdentContinue c = true := by decide
  unfold radix
  split
  · exact ⟨['0', 'x'], rfl, fun c member => letters c (by simp_all; tauto), fun _ _ _ _ _ _ => rfl⟩
  · exact ⟨['0', 'o'], rfl, fun c member => letters c (by simp_all; tauto), fun _ _ _ _ _ _ => rfl⟩
  · exact ⟨['0', 'b'], rfl, fun c member => letters c (by simp_all; tauto), fun _ _ _ _ _ _ => rfl⟩
  · rename_i hex octal binary
    refine ⟨[], rfl, by simp, fun more rest stop same filled stops => ?_⟩
    obtain ⟨c, more, rfl⟩ := List.exists_cons_of_ne_nil filled
    have begins : ∀ d tail, c :: more ++ stop = '0' :: d :: tail → d ∈ ['x', 'o', 'b'] →
        ∃ tail, text = '0' :: d :: tail := by
      intro d tail named letter
      rw [List.cons_append] at named
      obtain ⟨rfl, heads⟩ := List.cons.inj named
      cases more with
      | nil =>
        rw [List.nil_append] at heads
        subst heads
        have others := stops.outside.2.1
        simp only [List.mem_cons] at letter others
        tauto
      | cons e more =>
        obtain ⟨rfl, -⟩ := List.cons.inj heads
        exact ⟨more ++ rest, same⟩
    rw [List.nil_append]
    split
    · rename_i named
      exact (begins _ _ named (by simp)).elim fun tail named => (hex tail named).elim
    · rename_i named
      exact (begins _ _ named (by simp)).elim fun tail named => (octal tail named).elim
    · rename_i named
      exact (begins _ _ named (by simp)).elim fun tail named => (binary tail named).elim
    · rfl

/-- A number is read as a whole wherever its text ends. -/
theorem number?_front (read : number? text = some rest) :
    ∃ front, text = front ++ rest ∧ front ≠ [] ∧
      ∀ stop, Stops stop → number? (front ++ stop) = some stop := by
  unfold number? at read
  split at read
  · rename_i found
    cases read
    obtain ⟨front, rfl, each⟩ := fraction?_front found
    refine ⟨front, rfl, ?_, fun stop stops => by rw [number?, each stop stops]⟩
    rintro rfl
    exact absurd (each [] (by simp [Stops])) (by simp [fraction?])
  · rename_i noFraction
    obtain ⟨after, digits, ended⟩ := Option.bind_eq_some_iff.mp read
    obtain ⟨base, split, letters, named⟩ := radix_front text
    obtain ⟨front, whole, continues, filled, again⟩ := digits?_front digits
    obtain ⟨suffix, rfl, word, noWord, each⟩ := endNumber_front ended
    have same : text = base ++ (front ++ suffix) ++ rest := by
      rw [split, whole]
      simp
    refine ⟨base ++ (front ++ suffix), same, by simp [filled rfl], fun stop stops => ?_⟩
    have inside : ∀ c ∈ base ++ (front ++ suffix), Text.isIdentContinue c = true := by
      simp only [List.forall_mem_append]
      exact ⟨letters, continues, word⟩
    rw [same] at noFraction
    rw [number?, fraction?_bind_none inside noWord stops noFraction,
      named (front ++ suffix) rest stop (by rw [whole, List.append_assoc]) (by simp [filled rfl])
        stops]
    dsimp only
    rw [List.append_assoc, again _ (EndsAs.append (.inl stops) suffix), Option.bind_some,
      each stop stops]

end Numbers

theorem skip?_of_isDigit {c : Char} {rest : List Char} (digit : c.isDigit = true) :
    skip? (c :: rest) = number? (c :: rest) := by
  have listed : ∀ d ∈ ['"', 'r', 'b', 'c', Char.ofNat 39], d.isDigit = false := by decide
  have letters : ∀ d ∈ ['"', 'r', 'b', 'c', Char.ofNat 39], c ≠ d := by
    rintro d member rfl
    rw [listed c member] at digit
    cases digit
  simp only [List.forall_mem_cons] at letters
  have still : string? (c :: rest) = none := by
    unfold string?
    split <;> simp_all
  have mark : character? (c :: rest) = none := by
    unfold character?
    split <;> simp_all
  rw [skip?, still, mark]

/-- Whatever is skipped as a literal is one by itself. -/
theorem skip?_front (skipped : skip? text = some rest) :
    ∃ front, text = front ++ rest ∧ IsLiteral (String.ofList front) := by
  unfold skip? at skipped
  split at skipped
  · rename_i family value after found
    cases skipped
    obtain ⟨front, rfl, filled, each⟩ := string?_front found
    obtain ⟨suffix, same, -, again⟩ := skipSuffix_front (rfl : skipSuffix after = _)
    refine ⟨front ++ suffix, by rw [List.append_assoc, ← same], by simp [filled],
      fun stop stops => ?_⟩
    rw [String.toList_ofList, List.append_assoc, skip?, each]
    simp only [again stop stops]
  · rename_i noString
    split at skipped
    · rename_i after found
      cases skipped
      obtain ⟨front, rfl, filled, each⟩ := character?_front found
      obtain ⟨suffix, same, -, again⟩ := skipSuffix_front (rfl : skipSuffix after = _)
      refine ⟨front ++ suffix, by rw [List.append_assoc, ← same], by simp [filled],
        fun stop stops => ?_⟩
      rw [String.toList_ofList, List.append_assoc, skip?, (each _).1, (each _).2]
      simp only [again stop stops]
    · rename_i noCharacter
      obtain ⟨front, rfl, filled, each⟩ := number?_front skipped
      refine ⟨front, rfl, by simpa using filled, fun stop stops => ?_⟩
      obtain ⟨c, more, rfl⟩ := List.exists_cons_of_ne_nil filled
      have digit : c.isDigit = true := by
        by_contra noDigit
        rw [List.cons_append, number?_of_not_isDigit (by simpa using noDigit)] at skipped
        cases skipped
      rw [String.toList_ofList, List.cons_append, skip?_of_isDigit digit]
      exact each stop stops

theorem mantissa?_of_isDigit {text : List Char} (digits : ∀ c ∈ text, c.isDigit = true) :
    mantissa? false text = some (.ended false []) := by
  induction text with
  | nil => rfl
  | cons c rest ih =>
    obtain ⟨own, later⟩ := List.forall_mem_cons.mp digits
    simp [mantissa?, own, ih later]

theorem digits?_of_isDigit {text : List Char} {empty : Bool} (digits : ∀ c ∈ text, c.isDigit = true)
    (some? : empty = false ∨ text ≠ []) : digits? 10 empty text = some [] := by
  induction text generalizing empty with
  | nil => simp_all [digits?]
  | cons c rest ih =>
    obtain ⟨own, later⟩ := List.forall_mem_cons.mp digits
    have noLine : (c == '_') = false := by
      rw [beq_eq_false_iff_ne]
      rintro rfl
      cases own
    have small : c.toNat - '0'.toNat < 10 := by
      simp only [Char.isDigit, Bool.and_eq_true, decide_eq_true_eq] at own
      have := own.2
      simp only [UInt32.le_iff_toNat_le] at this
      show c.val.toNat - 48 < 10
      have h : ('9'.val).toNat = 57 := rfl
      omega
    rw [digits?, noLine, if_neg (by decide), hexValue?, if_pos own]
    simp only [small, if_true]
    exact ih later (.inl rfl)

/-- A number in decimal digits is a literal. -/
theorem isLiteral_toString (n : Nat) : IsLiteral (toString n) := by
  have chars : (toString n).toList = Nat.toDigits 10 n := Nat.toList_repr
  have digits : ∀ c ∈ Nat.toDigits 10 n, c.isDigit = true := fun c =>
    Nat.isDigit_of_mem_toDigits (by decide) (by decide)
  have filled : Nat.toDigits 10 n ≠ [] := List.ne_nil_of_length_pos Nat.length_toDigits_pos
  have skipped : skip? (toString n).toList = some [] := by
    rw [chars]
    generalize Nat.toDigits 10 n = text at digits filled
    obtain ⟨c, rest, rfl⟩ := List.exists_cons_of_ne_nil filled
    obtain ⟨own, later⟩ := List.forall_mem_cons.mp digits
    have decimal : radix (c :: rest) = (10, c :: rest) := by
      unfold radix
      split
      · rename_i same
        cases same
        exact absurd (later 'x' List.mem_cons_self) (by decide)
      · rename_i same
        cases same
        exact absurd (later 'o' List.mem_cons_self) (by decide)
      · rename_i same
        cases same
        exact absurd (later 'b' List.mem_cons_self) (by decide)
      · rfl
    have whole : fraction? (c :: rest) = none := by
      rw [fraction?, own, mantissa?_of_isDigit later]
      rfl
    rw [skip?_of_isDigit own, number?, whole, decimal, digits?_of_isDigit digits (.inr filled)]
    rfl
  obtain ⟨front, same, literal⟩ := skip?_front skipped
  rw [List.append_nil] at same
  rwa [← same, String.ofList_toList] at literal
end Literal

end Forwarding
