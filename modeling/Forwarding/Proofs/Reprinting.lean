import Forwarding.Proofs.Lexemes
import Forwarding.Proofs.Relexing
/-!
Lexed tokens. Whatever a text is lexed into can be printed so that it is read back: the joint
characters among the tokens are followed by what they have been joined to, and the lexemes hold no
bracket but those of their groups.
-/

namespace Forwarding

open Token

namespace Lexer

variable {c : Char} {text rest : List Char}

/-- Nothing is skipped before a character of an operator. -/
theorem skipBlanks_of_symbol (symbol : c ∈ symbols) (noComment : beginsComment (c :: text) = false)
    (fuel : Nat) : skipBlanks fuel (c :: text) = c :: text := by
  have solid : ∀ d ∈ symbols, isSeparator d = false := by decide
  exact skipBlanks_of_noComment (solid c symbol) noComment fuel

theorem beginsComment_of_punct? {after : List Char} (found : punct? text = some (c, after)) :
    text = c :: after ∧ c ∈ symbols ∧ beginsComment text = false := by
  cases text with
  | nil => cases found
  | cons d text =>
    rw [punct?_cons] at found
    split at found
    · cases found
    rename_i noComment
    split at found
    · rename_i symbol
      cases found
      exact ⟨rfl, symbol, by simpa [beginsComment] using noComment⟩
    · cases found

theorem word?_of_symbol (symbol : c ∈ symbols) : word? (c :: text) = none := by
  have each : ∀ d ∈ symbols, Text.isIdentStart d = false ∧ d ≠ 'r' := by decide
  obtain ⟨noStart, noMark⟩ := each c symbol
  have plain : startsWith (c :: text) "r#" = false := by
    simp [startsWith, List.isPrefixOf, noMark.symm]
  simp [word?_plain plain, Literal.skipIdent, noStart]

/-- A literal is read as one token, of which it is the text. -/
theorem leaf?_of_skip? (skipped : Literal.skip? text = some rest) :
    ∃ front, text = front ++ rest ∧ IsLiteral (String.ofList front) ∧
      leaf? text = some (.literal (String.ofList front), rest) := by
  obtain ⟨front, rfl, whole⟩ := Literal.skip?_front skipped
  refine ⟨front, rfl, whole, ?_⟩
  rw [leaf?, skipped]
  simp only [take_length_sub]

/-- A text that is read to its end begins with a token unless blanks come first. -/
theorem exists_next? {fuel : Nat} (still : ∀ n, skipBlanks n (c :: text) = c :: text)
    (complete : (words fuel (c :: text)).2 = false) :
    ∃ tokens after more, next? (c :: text) = some (tokens, after) ∧
      (words fuel (c :: text)).1 = tokens ++ more := by
  cases fuel with
  | zero => cases complete
  | succ fuel =>
    rw [words_succ, still] at complete ⊢
    dsimp only at complete ⊢
    rw [if_neg (by simp)] at complete ⊢
    cases read : next? (c :: text) with
    | none =>
      rw [read] at complete
      cases complete
    | some found => exact ⟨found.1, found.2, _, rfl, rfl⟩

/-- The first token of a text that begins with a character of an operator begins with it too. -/
theorem head_of_leaf?_symbol (symbol : c ∈ symbols)
    (noComment : beginsComment (c :: text) = false) {t : Token}
    (leaf : leaf? (c :: text) = some (t, rest)) : t.chars.head? = some c := by
  have own : punct? (c :: text) = some (c, text) := by
    rw [punct?_cons, if_pos symbol]
    rw [beginsComment] at noComment
    simp only [noComment, Bool.false_eq_true, if_false]
  cases skipped : Literal.skip? (c :: text) with
  | some after =>
    obtain ⟨front, same, whole, literal⟩ := leaf?_of_skip? skipped
    rw [leaf] at literal
    cases literal
    have filled := whole.filled
    rw [String.toList_ofList] at filled
    obtain ⟨d, more, rfl⟩ := List.exists_cons_of_ne_nil filled
    rw [(List.cons.inj same).1, chars, String.toList_ofList]
    rfl
  | none =>
    rw [leaf?, skipped] at leaf
    cases punctuated : punctuation? (c :: text) with
    | some found =>
      rw [punctuated] at leaf
      cases leaf
      unfold punctuation? at punctuated
      rw [own] at punctuated
      dsimp only at punctuated
      split at punctuated
      · split at punctuated
        · cases punctuated
        · split at punctuated <;> cases punctuated
          rfl
      · cases punctuated
        rfl
    | none =>
      have noMark : startsWith (c :: text) errorMark = false := by
        have noOpening : ∀ d ∈ symbols, '(' ≠ d := by decide
        simp [startsWith, errorMark, List.isPrefixOf, noOpening c symbol]
      rw [punctuated, word?_of_symbol symbol] at leaf
      simp [noMark] at leaf

theorem exists_head_of_symbol (symbol : c ∈ symbols)
    (noComment : beginsComment (c :: text) = false) {fuel : Nat}
    (complete : (words fuel (c :: text)).2 = false) :
    ∃ t tokens, (words fuel (c :: text)).1 = t :: tokens ∧ t.chars.head? = some c := by
  have brackets : ∀ d ∈ symbols, Delimiter.ofOpening? d = none ∧ Delimiter.ofClosing? d = none := by
    decide
  obtain ⟨noOpening, noClosing⟩ := brackets c symbol
  obtain ⟨tokens, after, more, read, same⟩ :=
    exists_next? (skipBlanks_of_symbol symbol noComment) complete
  unfold next? at read
  rw [docComment?_of_beginsComment noComment] at read
  simp only [noOpening, noClosing, ite_self] at read
  obtain ⟨⟨t, last⟩, leaf, taken⟩ := Option.map_eq_some_iff.mp read
  cases taken
  exact ⟨t, more, same, head_of_leaf?_symbol symbol noComment leaf⟩

/-- The letters before the quote of a string literal. -/
def quoteLetters : List (List Char) :=
  [['r'], ['b'], ['b', 'r'], ['c'], ['c', 'r']]

theorem wordChars_of_letters {letters : List Char} (listed : letters ∈ quoteLetters) :
    WordChars letters ∧ (∃ c more, letters = c :: more ∧ c ≠ apostrophe ∧ c ≠ '\\') ∧
      letters[1]? ≠ some apostrophe ∧ ∀ tail, startsWith (letters ++ '"' :: tail) "r#" = false := by
  have starts : ∀ c ∈ ['r', 'b', 'c'], Text.isIdentStart c = true := by decide
  have continues : Text.isIdentContinue 'r' = true := by decide
  have plain : ∀ tail, startsWith (letters ++ '"' :: tail) "r#" = false := by
    intro tail
    simp only [quoteLetters, List.mem_cons, List.not_mem_nil, or_false] at listed
    rcases listed with rfl | rfl | rfl | rfl | rfl <;> simp [startsWith, List.isPrefixOf]
  simp only [quoteLetters, List.mem_cons, List.not_mem_nil, or_false] at listed
  refine ⟨?_, ?_, ?_, plain⟩ <;> rcases listed with rfl | rfl | rfl | rfl | rfl
  · exact ⟨starts 'r' (by decide), by simp⟩
  · exact ⟨starts 'b' (by decide), by simp⟩
  · exact ⟨starts 'b' (by decide), by simpa using continues⟩
  · exact ⟨starts 'c' (by decide), by simp⟩
  · exact ⟨starts 'c' (by decide), by simpa using continues⟩
  all_goals first
    | exact ⟨_, _, rfl, by decide, by decide⟩
    | decide

/-- An apostrophe begins a literal only if a second one follows a character or an escape. -/
theorem skip?_of_apostrophe {d : Char} (noEscape : c ≠ '\\') (apart : d ≠ apostrophe) :
    Literal.skip? (apostrophe :: c :: d :: text) = none := by
  have noString : Literal.string? (apostrophe :: c :: d :: text) = none := by
    unfold Literal.string?
    split <;> simp_all [apostrophe]
  have noCharacter : Literal.character? (apostrophe :: c :: d :: text) = none := by
    have apart : d ≠ Char.ofNat 39 := apart
    simp [Literal.character?, Literal.readCharacter, Literal.skipCharacter, noEscape, apart,
      apostrophe]
  simp [Literal.skip?, noString, noCharacter, number?_of_not_isDigit (c := apostrophe) (by decide)]

/-- An apostrophe before letters and a quote stands by itself. -/
theorem stands_of_letters {letters : List Char} (listed : letters ∈ quoteLetters)
    (tail : List Char) :
    Stands (letters ++ '"' :: tail) (punct apostrophe true) := by
  obtain ⟨chars, ⟨c, more, rfl, mark, noEscape⟩, second, plain⟩ := wordChars_of_letters listed
  have quote : Text.isIdentContinue '"' = false := by decide
  have word : word? (c :: more ++ '"' :: tail) = some (c :: more, '"' :: tail) :=
    word?_eq_some_iff.mpr ⟨c :: more, chars, quote, .inl ⟨rfl, rfl, plain tail⟩⟩
  have noLiteral : Literal.skip? (apostrophe :: (c :: more ++ '"' :: tail)) = none := by
    cases more with
    | nil => exact skip?_of_apostrophe noEscape (by decide)
    | cons d more =>
      exact skip?_of_apostrophe noEscape (by simpa using second)
  have own : punct? (apostrophe :: (c :: more ++ '"' :: tail)) =
      some (apostrophe, c :: more ++ '"' :: tail) := by
    rw [punct?_cons, if_neg (by simp [startsWith, apostrophe]), if_pos (by decide)]
  refine .of_leaf rfl (by decide) ?_
  change leaf? (apostrophe :: (c :: more ++ '"' :: tail)) = _
  unfold leaf? punctuation?
  rw [noLiteral, own]
  simp only [BEq.rfl, if_true, word, plain]
  rfl

theorem isIdentStart_of_word? {name after : List Char}
    (word : word? (c :: text) = some (name, after)) : Text.isIdentStart c = true := by
  obtain ⟨chars, letters, -, ⟨same, -, -⟩ | ⟨same, -, -⟩⟩ := word?_eq_some_iff.mp word
  · obtain ⟨begins, -⟩ := letters
    rwa [(List.cons.inj same).1]
  · rw [(List.cons.inj same).1]
    decide

theorem isIdentStart_of_word?_raw {name after : List Char}
    (word : word? ('r' :: '#' :: c :: text) = some (name, after)) :
    Text.isIdentStart c = true := by
  rw [word?_raw, Option.bind_eq_some_iff] at word
  obtain ⟨last, skipped, -⟩ := word
  rw [Literal.skipIdent] at skipped
  by_contra noStart
  rw [if_neg noStart] at skipped
  cases skipped

/-- What opens a raw string is a quote, or a hash sign before a quote or another hash sign. -/
theorem rawOpening_cases {family : Literal.Family} {value : List Char}
    (read : Literal.readString family true text = some (value, rest)) :
    (∃ tail, text = '"' :: tail) ∨ ∃ d tail, text = '#' :: d :: tail ∧ (d = '"' ∨ d = '#') := by
  have opening : ∀ {text : List Char} {found}, Literal.rawOpening text = some found →
      ∃ d tail, text = d :: tail ∧ (d = '"' ∨ d = '#') := by
    intro text found opened
    unfold Literal.rawOpening at opened
    split at opened
    · exact ⟨_, _, rfl, .inl rfl⟩
    · exact ⟨_, _, rfl, .inr rfl⟩
    · cases opened
  simp only [Literal.readString, if_true] at read
  split at read
  · rename_i opened
    unfold Literal.rawOpening at opened
    split at opened
    · exact .inl ⟨_, rfl⟩
    · split at opened
      · rename_i inner
        obtain ⟨d, tail, rfl, mark⟩ := opening inner
        exact .inr ⟨d, tail, rfl, mark⟩
      · cases opened
    · cases opened
  · cases read

/-- What is both a word and a literal after an apostrophe begins with letters before a quote. -/
theorem exists_letters {name after : List Char}
    (noLiteral : Literal.skip? (apostrophe :: text) = none)
    (word : word? text = some (name, after))
    (open? : (after.head? == some apostrophe
      || (after.head? == some '#' && !startsWith text "r#")) = false)
    (skipped : Literal.skip? text = some rest) :
    ∃ letters ∈ quoteLetters, ∃ tail, text = letters ++ '"' :: tail := by
  -- letters before a raw string with hash signs would be a word that closes the apostrophe
  have raw : ∀ {letter : Char} {body : List Char}, letter ∈ ['b', 'c'] →
      text = letter :: 'r' :: body → ∀ {family value rest},
        Literal.readString family true body = some (value, rest) →
          ∃ tail, text = letter :: 'r' :: '"' :: tail := by
    intro letter body listed same family value rest read
    rcases rawOpening_cases read with ⟨tail, rfl⟩ | ⟨d, tail, rfl, mark⟩
    · exact ⟨tail, same⟩
    · have starts : ∀ c ∈ ['b', 'c'], Text.isIdentStart c = true := by decide
      have continues : Text.isIdentContinue 'r' = true ∧ Text.isIdentContinue '#' = false := by
        decide
      have plain : startsWith text "r#" = false := by
        simp [same, startsWith, List.isPrefixOf]
      have found : word? text = some ([letter, 'r'], '#' :: d :: tail) :=
        word?_eq_some_iff.mpr ⟨[letter, 'r'], ⟨starts letter listed, by simpa using continues.1⟩,
          continues.2, .inl ⟨same, rfl, plain⟩⟩
      rw [word] at found
      cases found
      simp [plain] at open?
  unfold Literal.skip? at skipped
  split at skipped
  · rename_i found
    unfold Literal.string? at found
    split at found
    · exact absurd (isIdentStart_of_word? word) (by decide)
    · rename_i body
      obtain ⟨inner, read, -⟩ := Option.map_eq_some_iff.mp found
      rcases rawOpening_cases read with ⟨tail, rfl⟩ | ⟨d, tail, rfl, mark⟩
      · exact ⟨['r'], by decide, tail, rfl⟩
      · have begins := isIdentStart_of_word?_raw word
        rcases mark with rfl | rfl <;> exact absurd begins (by decide)
    · rename_i tail
      exact ⟨['b'], by decide, tail, rfl⟩
    · obtain ⟨inner, read, -⟩ := Option.map_eq_some_iff.mp found
      obtain ⟨tail, same⟩ := raw (by decide) rfl read
      exact ⟨['b', 'r'], by decide, tail, same⟩
    · rename_i tail
      exact ⟨['c'], by decide, tail, rfl⟩
    · obtain ⟨inner, read, -⟩ := Option.map_eq_some_iff.mp found
      obtain ⟨tail, same⟩ := raw (by decide) rfl read
      exact ⟨['c', 'r'], by decide, tail, same⟩
    · cases found
  · split at skipped
    · rename_i found
      unfold Literal.character? at found
      split at found
      · rename_i body noString
        split at found
        · rename_i mark
          rw [beq_iff_eq] at mark
          subst mark
          -- the letter between two apostrophes would be a literal itself
          have closed : Literal.skip? (apostrophe :: 'b' :: Char.ofNat 39 :: body) ≠ none := by
            simp [Literal.skip?, Literal.string?, Literal.character?, Literal.readCharacter,
              Literal.skipCharacter, apostrophe]
          exact absurd noLiteral closed
        · cases found
      · split at found
        · rename_i mark
          rw [beq_iff_eq] at mark
          subst mark
          exact absurd (isIdentStart_of_word? word) (by decide)
        · cases found
      · cases found
    · cases text with
      | nil => cases skipped
      | cons c text =>
        have noDigit := not_isDigit_of_isIdentStart (isIdentStart_of_word? word)
        rw [number?_of_not_isDigit noDigit] at skipped
        cases skipped

/-- A literal after an apostrophe can be printed there. -/
theorem joins_of_letters {letters tail front : List Char} (listed : letters ∈ quoteLetters)
    (whole : IsLiteral (String.ofList front)) (same : letters ++ '"' :: tail = front ++ rest) :
    Joins apostrophe (.literal (String.ofList front)) := by
  have short : ∀ letters ∈ quoteLetters, ∀ n ≤ letters.length,
      Literal.skip? (letters.take n) ≠ some [] := by decide
  have own := whole.skipped [] (by simp [Stops])
  rw [String.toList_ofList, List.append_nil] at own
  obtain ⟨more, rfl⟩ : ∃ more, front = letters ++ '"' :: more := by
    rcases List.append_eq_append_iff.mp same with ⟨more, rfl, split⟩ | ⟨more, rfl, -⟩
    · cases more with
      | nil =>
        rw [List.append_nil] at own
        exact absurd (by simpa using own) (short letters listed letters.length le_rfl)
      | cons c more =>
        cases split
        exact ⟨more, rfl⟩
    · refine absurd ?_ (short _ listed front.length (by simp))
      rwa [List.take_left]
  refine .lettered fun rest => ?_
  rw [String.toList_ofList, List.append_assoc]
  exact stands_of_letters listed (more ++ rest)

/-- After an apostrophe that is a token, the name of a lifetime or a string literal is read. -/
theorem exists_joins_apostrophe {name after : List Char}
    (noLiteral : Literal.skip? (apostrophe :: text) = none)
    (word : word? text = some (name, after))
    (open? : (after.head? == some apostrophe
      || (after.head? == some '#' && !startsWith text "r#")) = false)
    {fuel : Nat} (complete : (words fuel text).2 = false) :
    ∃ next tokens, (words fuel text).1 = next :: tokens ∧ Joins apostrophe next := by
  cases text with
  | nil => cases word
  | cons c text =>
    have begins := isIdentStart_of_word? word
    have inert := isInert_of_isIdentStart begins
    have solid : isSolid c = true := by
      simp only [isInert, Bool.and_eq_true] at inert
      exact inert.1.1
    obtain ⟨tokens, last, more, read, same⟩ :=
      exists_next? (fun n => skipBlanks_cons solid n text) complete
    cases skipped : Literal.skip? (c :: text) with
    | some rest =>
      obtain ⟨letters, listed, tail, split⟩ := exists_letters noLiteral word open? skipped
      obtain ⟨front, split', whole, leaf⟩ := leaf?_of_skip? skipped
      rw [next?_of_leaf inert leaf] at read
      cases read
      exact ⟨_, more, same, joins_of_letters listed whole (split.symm.trans split')⟩
    | none =>
      have noOpening : '(' ≠ c := fun mark => by
        revert begins
        rw [← mark]
        decide
      have noMark : startsWith (c :: text) errorMark = false := by
        simp [startsWith, errorMark, List.isPrefixOf, noOpening]
      have leaf : next? (c :: text) =
          (leaf? (c :: text)).map fun read => ([read.1], read.2) := by
        simp only [isInert, isSolid, Bool.and_eq_true, Bool.not_eq_true', bne_iff_ne, ne_eq,
          Option.isNone_iff_eq_none] at inert
        unfold next?
        rw [docComment?_cons inert.1.1.1.2]
        simp [noMark, inert.1.2, inert.2]
      rw [leaf, leaf?, skipped, punctuation?, punct?_of_isIdentStart begins] at read
      split at read
      · cases ‹none = some _›
      cases lettered : isLettered (c :: text) with
      | true => simp [lettered, noMark] at read
      | false =>
        simp only [lettered, Bool.false_eq_true, if_false, word, Option.map_some,
          Option.some.injEq, Prod.mk.injEq] at read
        rw [← read.1] at same
        exact ⟨_, more, same, .lifetime (isName_of_word? word)⟩

/-- A lexed punctuation character can be printed before what follows it. -/
theorem exists_joins {joint : Bool} (read : punctuation? text = some (.punct c joint, rest))
    (noLiteral : Literal.skip? text = none) {fuel : Nat} (complete : (words fuel rest).2 = false) :
    (joint = false ∧ c ∈ '/' :: operatorSymbols) ∨
      joint = true ∧ ∃ next tokens, (words fuel rest).1 = next :: tokens ∧ Joins c next := by
  unfold punctuation? at read
  split at read
  · cases read
  rename_i d after found
  obtain ⟨rfl, symbol, noComment⟩ := beginsComment_of_punct? found
  split at read
  · rename_i mark
    rw [beq_iff_eq] at mark
    subst mark
    split at read
    · cases read
    rename_i name last word
    dsimp only at read
    split at read
    · cases read
    rename_i open?
    cases read
    exact .inr ⟨rfl, exists_joins_apostrophe noLiteral word (by simpa using open?) complete⟩
  · rename_i noMark
    cases read
    have operator : c ∈ '/' :: operatorSymbols := by
      have each : ∀ d ∈ symbols, d = apostrophe ∨ d ∈ '/' :: operatorSymbols := by decide
      exact (each c symbol).resolve_left (by simpa using noMark)
    cases next : punct? rest with
    | none => exact .inl ⟨rfl, operator⟩
    | some found =>
      obtain ⟨e, more⟩ := found
      obtain ⟨rfl, goesOn, apart⟩ := beginsComment_of_punct? next
      obtain ⟨t, tokens, same, first⟩ := exists_head_of_symbol goesOn apart complete
      refine .inr ⟨rfl, t, tokens, same, .symbol operator first goesOn ?_⟩
      rintro rfl
      constructor
      all_goals
        rintro rfl
        simp [beginsComment, startsWith, List.isPrefixOf] at noComment

/-- The token that begins a text can be printed before the tokens that are read after it. -/
theorem printable_leaf {t : Token} (read : leaf? text = some (t, rest)) {fuel : Nat}
    (complete : (words fuel rest).2 = false) (more : Printable (words fuel rest).1) :
    Printable (t :: (words fuel rest).1) := by
  cases skipped : Literal.skip? text with
  | some after =>
    obtain ⟨front, -, whole, leaf⟩ := leaf?_of_skip? skipped
    rw [read] at leaf
    cases leaf
    exact .literal whole more
  | none =>
    have named : ∀ name, t = ident name → IsName name := by
      rintro name rfl
      exact isName_of_leaf? read
    rw [leaf?, skipped] at read
    cases punctuated : punctuation? text with
    | some found =>
      rw [punctuated] at read
      cases read
      obtain ⟨c, joint, rfl⟩ := punctuation?_eq_some punctuated
      rcases exists_joins punctuated skipped complete with
        ⟨rfl, operator⟩ | ⟨rfl, next, tokens, same, joins⟩
      · exact .operator operator more
      · rw [same] at more ⊢
        exact .joint joins more
    | none =>
      rw [punctuated] at read
      dsimp only at read
      split at read
      · cases read
        exact .word (named _ rfl) more
      split at read
      · cases read
        exact .mark more
      · cases read

theorem printable_docTokens (inner : Bool) (said : List Char) {tokens : List Token}
    (more : Printable tokens) : Printable (docTokens inner said ++ tokens) := by
  refine Printable.append ?_ more
  have marked : Printable [.opening .bracket, .ident "doc", .punct '=' false,
      .literal (Text.quoteLiteral (String.ofList said)), .closing .bracket] :=
    .opening _ (.word (by decide) (.operator (by decide)
      (.literal (isLiteral_quoteLiteral _) (.closing _ .nil))))
  cases inner with
  | false => exact .operator (by decide) marked
  | true => exact .operator (by decide) (.operator (by decide) marked)

theorem printable_words {fuel : Nat} (complete : (words fuel text).2 = false) :
    Printable (words fuel text).1 := by
  induction fuel generalizing text with
  | zero => cases complete
  | succ fuel ih =>
    rw [words_succ] at complete ⊢
    dsimp only at complete ⊢
    split at complete
    · rw [if_pos ‹_›]
      exact .nil
    rename_i filled
    rw [if_neg filled]
    generalize skipBlanks text.length text = trimmed at complete ⊢
    cases read : next? trimmed with
    | none =>
      rw [read] at complete
      cases complete
    | some found =>
      obtain ⟨tokens, rest⟩ := found
      rw [read] at complete
      dsimp only at complete ⊢
      have more := ih complete
      unfold next? at read
      split at read
      · cases read
        exact printable_docTokens _ _ more
      split at read
      · cases read
      split at read
      · cases read
        exact .opening _ more
      split at read
      · cases read
        exact .closing _ more
      · obtain ⟨⟨t, after⟩, leaf, same⟩ := Option.map_eq_some_iff.mp read
        cases same
        exact printable_leaf leaf complete more

end Lexer

namespace Lexeme

theorem Shows.reverse_cons {lexeme : Lexeme} {before : List Lexeme}
    (shown : Shows before.reverse (tokensOf before.reverse)) (own : Shows [lexeme] lexeme.tokens) :
    Shows (lexeme :: before).reverse (tokensOf (lexeme :: before).reverse) := by
  rw [List.reverse_cons, tokensOf_append]
  refine shown.append ?_
  rwa [tokensOf, tokensOf, List.append_nil]

end Lexeme

namespace Lexer

open Lexeme (Shows tokensOf)

/-- Matched brackets hold groups; no lexeme among them is a bracket by itself. -/
theorem shows_of_balance {failure : Option Position} {stack : List Frame} {current : List Lexeme}
    {tokens : List (Token × Position)} {lexemes : List Lexeme}
    (balanced : balance failure stack current tokens = .ok lexemes)
    (shown : Shows current.reverse (tokensOf current.reverse))
    (each : ∀ frame ∈ stack, Shows frame.before.reverse (tokensOf frame.before.reverse)) :
    failure = none ∧ Shows lexemes (tokensOf lexemes) := by
  fun_induction balance failure stack current tokens with
  | case1 => cases balanced
  | case2 => cases balanced
  | case3 current =>
    cases balanced
    exact ⟨by assumption, shown⟩
  | case4 stack current delimiter position rest ih =>
    exact ih balanced .nil (List.forall_mem_cons.mpr ⟨shown, each⟩)
  | case5 => cases balanced
  | case6 current position rest frame outer ih =>
    obtain ⟨own, others⟩ := List.forall_mem_cons.mp each
    exact ih balanced (own.reverse_cons (.group shown .nil)) others
  | case7 => cases balanced
  | case8 stack current token position rest noOpening noClosing ih =>
    have noBracket : token.isBracket = false := by
      cases token <;> simp_all [isBracket]
    exact ih balanced (shown.reverse_cons (.leaf noBracket .nil)) each

theorem lex_shows {text : List Char} {lexemes : List Lexeme} (lexed : lex text = .ok lexemes) :
    Shows lexemes (tokensOf lexemes) ∧
      ∃ fuel body, words fuel body = (tokensOf lexemes, false) := by
  unfold lex at lexed
  generalize (if text.head? == some (Char.ofNat 0xfeff) then
      (Position.first.step (Char.ofNat 0xfeff), text.drop 1)
    else (Position.first, text)) = start at lexed
  obtain ⟨position, body⟩ := start
  dsimp only at lexed
  obtain ⟨complete, shown⟩ := shows_of_balance lexed .nil (by simp)
  refine ⟨shown, body.length + 1, body, ?_⟩
  rw [← words_scan _ position, Scan.words, tokensOf_balance lexed, complete]
  rfl

/-- The tokens of a text can be printed and are read back. -/
theorem isLexable_of_lex {text : List Char} {lexemes : List Lexeme}
    (lexed : lex text = .ok lexemes) : IsLexable (tokensOf lexemes) := by
  obtain ⟨shown, fuel, body, read⟩ := lex_shows lexed
  refine ⟨?_, _, shown⟩
  have complete : (words fuel body).2 = false := by rw [read]
  have printable := printable_words complete
  rwa [read] at printable

end Lexer

/-- Nothing that can be printed ends with a character that is joint to the next one. -/
theorem Token.Printable.getLast?_ne {tokens : List Token} (printable : Printable tokens)
    (symbol : Char) : tokens.getLast? ≠ some (.punct symbol true) := by
  induction printable with
  | nil => simp
  | joint _ more ih => rwa [List.getLast?_cons_cons]
  | @word _ rest _ _ ih => cases rest <;> simp_all [List.getLast?_cons_cons]
  | @literal _ rest _ _ ih => cases rest <;> simp_all [List.getLast?_cons_cons]
  | @mark rest _ ih => cases rest <;> simp_all [List.getLast?_cons_cons]
  | @opening rest _ _ ih => cases rest <;> simp_all [List.getLast?_cons_cons]
  | @closing rest _ _ ih => cases rest <;> simp_all [List.getLast?_cons_cons]
  | @operator _ rest _ _ ih => cases rest <;> simp_all [List.getLast?_cons_cons]

end Forwarding
