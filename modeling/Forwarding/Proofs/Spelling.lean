import Forwarding.Proofs.Words
import Mathlib.Tactic.IntervalCases
/-!
From tokens to text and back. A text spells some tokens when it consists of their characters with
blanks between them, and no two tokens run together. The judgment keeps the text that follows in
view, because what a token ends at depends on it.
-/

namespace Forwarding.Lexer

/-- The mark that may stand before the first character of a text. -/
def byteOrderMark : Char :=
  Char.ofNat 0xfeff

/-- A character that begins neither a blank nor a comment. -/
def isSolid (c : Char) : Bool :=
  !isSeparator c && c != '/' && c != byteOrderMark

/-- A solid character that begins no group. -/
def isInert (c : Char) : Bool :=
  isSolid c && (Delimiter.ofOpening? c).isNone && (Delimiter.ofClosing? c).isNone

/-- The characters of operators. The slash is left out, since it may begin a comment. -/
def operatorSymbols : List Char :=
  "~!@#$%^&*-=+|;:,<.>?".toList

theorem ascii_of_table {p q : Char → Bool}
    (table : ∀ n : Fin 128, p (Char.ofNat n) = true → q (Char.ofNat n) = true) {c : Char}
    (low : c.toNat < 0x80) (holds : p c = true) : q c = true := by
  have entry := table ⟨c.toNat, low⟩
  rw [Char.ofNat_toNat] at entry
  exact entry holds

/-- Ranges that no word begins in, and that every separator and the byte order mark are in. -/
def separatorRanges : List (Nat × Nat) :=
  [(0x9, 0x20), (0x85, 0xa0), (0x1680, 0x1680), (0x2000, 0x205f), (0x3000, 0x3000),
   (0xfeff, 0xfeff)]

theorem apart_of_xidStart {n : Nat} (start : Text.inRanges Text.xidStartRanges n = true) :
    ∀ blank ∈ separatorRanges, n < blank.1 ∨ blank.2 < n := by
  have disjoint : (Text.xidStartRanges.all fun range => separatorRanges.all fun blank =>
      Nat.blt range.2 blank.1 || Nat.blt blank.2 range.1) = true := by
    decide +kernel
  simp only [Text.inRanges, List.any_eq_true, Bool.and_eq_true, decide_eq_true_eq] at start
  obtain ⟨range, listed, low, high⟩ := start
  intro blank member
  have apart := List.all_eq_true.mp (List.all_eq_true.mp disjoint range listed) blank member
  rw [Bool.or_eq_true, Nat.blt_eq, Nat.blt_eq] at apart
  omega

theorem isSeparator_of_xidStart {n : Nat} (start : Text.inRanges Text.xidStartRanges n = true) :
    Text.inRanges Text.whiteSpaceRanges n = false ∧ n ≠ 0x200e ∧ n ≠ 0x200f ∧ n ≠ 0xfeff := by
  have apart := apart_of_xidStart start
  simp only [separatorRanges, List.forall_mem_cons] at apart
  refine ⟨?_, by omega, by omega, by omega⟩
  rw [Bool.eq_false_iff]
  intro blank
  simp only [Text.inRanges, Text.whiteSpaceRanges, List.any_cons, List.any_nil, Bool.or_eq_true,
    Bool.and_eq_true, decide_eq_true_eq, Bool.false_eq_true, or_false] at blank
  omega

theorem isInert_of_isIdentStart {c : Char} (begins : Text.isIdentStart c = true) :
    isInert c = true := by
  by_cases low : c.toNat < 0x80
  · exact ascii_of_table (p := Text.isIdentStart) (by decide +kernel) low begins
  · rw [Text.isIdentStart, if_neg low] at begins
    obtain ⟨notBlank, left, right, noMark⟩ := isSeparator_of_xidStart begins
    have notMark : c ≠ byteOrderMark := by
      rintro rfl
      exact noMark rfl
    have apart : ∀ d : Char, d.toNat < 0x80 → c ≠ d := by
      rintro d small rfl
      exact low small
    simp [isInert, isSolid, isSeparator, Text.isBlank, notBlank, left, right, notMark,
      Delimiter.ofOpening?, Delimiter.ofClosing?, apart '/' (by decide), apart '(' (by decide),
      apart '[' (by decide), apart (Char.ofNat 0x7b) (by decide), apart ')' (by decide),
      apart ']' (by decide), apart (Char.ofNat 0x7d) (by decide)]

/-- The rest of a word and what follows it. -/
def WordTail (text : List Char) : Prop :=
  ∃ more rest, text = more ++ rest ∧ (∀ d ∈ more, Text.isIdentContinue d = true) ∧ EndsWord rest

theorem WordTail.head {d : Char} {text : List Char} (tail : WordTail (d :: text)) :
    d ≠ '"' ∧ d ≠ '#' ∧ d ≠ Token.apostrophe := by
  obtain ⟨more, rest, same, continues, ends⟩ := tail
  cases more with
  | nil =>
    rw [List.nil_append] at same
    exact (ends d (same ▸ rfl)).2.2
  | cons e more =>
    obtain ⟨rfl, -⟩ := List.cons.inj same
    have inside := continues d List.mem_cons_self
    refine ⟨?_, ?_, ?_⟩ <;>
      · rintro rfl
        revert inside
        decide

theorem WordTail.tail {d : Char} {text : List Char} (tail : WordTail (d :: text))
    (inside : Text.isIdentContinue d = true) : WordTail text := by
  obtain ⟨more, rest, same, continues, ends⟩ := tail
  cases more with
  | nil =>
    rw [List.nil_append] at same
    have outside := (ends d (same ▸ rfl)).2.1
    rw [inside] at outside
    cases outside
  | cons e more =>
    obtain ⟨rfl, rfl⟩ := List.cons.inj same
    exact ⟨more, rest, rfl, fun d member => continues d (List.mem_cons_of_mem _ member), ends⟩

theorem rawOpening_wordTail {text : List Char} (tail : WordTail text) :
    Literal.rawOpening text = none := by
  cases text with
  | nil => rfl
  | cons d text =>
    obtain ⟨quote, hash, -⟩ := tail.head
    unfold Literal.rawOpening
    split
    · simp_all
    · simp_all
    · rfl

theorem ne_of_isIdentStart {c d : Char} (begins : Text.isIdentStart c = true)
    (other : Text.isIdentStart d = false) : c ≠ d := by
  rintro rfl
  rw [begins] at other
  cases other

theorem not_isDigit_of_isIdentStart {c : Char} (begins : Text.isIdentStart c = true) :
    c.isDigit = false := by
  by_cases low : c.toNat < 0x80
  · have checked := ascii_of_table (p := Text.isIdentStart) (q := fun c => !c.isDigit)
      (by decide +kernel) low begins
    simpa using checked
  · have high : ¬ c.toNat ≤ '9'.toNat := by
      have bound : '9'.toNat = 57 := rfl
      omega
    simp only [Char.isDigit, Bool.and_eq_false_iff, decide_eq_false_iff_not]
    exact .inr fun small => high small

theorem number?_of_not_isDigit {c : Char} (noDigit : c.isDigit = false) (text : List Char) :
    Literal.number? (c :: text) = none := by
  have noFraction : Literal.fraction? (c :: text) = none := by
    simp [Literal.fraction?, noDigit]
  have decimal : Literal.radix (c :: text) = (10, c :: text) := by
    unfold Literal.radix
    split
    all_goals first | rfl | (rename_i same; cases same; cases noDigit)
  have noDigits : Literal.digits? 10 true (c :: text) = none := by
    unfold Literal.digits?
    split
    · rfl
    · split
      · rename_i digit value
        have large : ¬ digit < 10 := by
          rw [Literal.hexValue?, if_neg (by simp [noDigit])] at value
          split at value
          · cases value
            omega
          split at value
          · cases value
            omega
          · cases value
        simp [large]
      · rfl
  simp [Literal.number?, noFraction, decimal, noDigits]

theorem startsWith_cons (c : Char) (text : List Char) (d : Char) (start : List Char) :
    startsWith (c :: text) (String.ofList (d :: start)) =
      (d == c && startsWith text (String.ofList start)) := by
  simp [startsWith, List.isPrefixOf]

theorem not_startsWith_nil (d : Char) (start : List Char) :
    startsWith [] (String.ofList (d :: start)) = false := by
  simp [startsWith]

theorem WordTail.not_startsWith {text : List Char} (tail : WordTail text) {q : Char}
    (special : q = '"' ∨ q = '#' ∨ q = Token.apostrophe) (between start : List Char)
    (inside : ∀ d ∈ between, Text.isIdentContinue d = true) :
    startsWith text (String.ofList (between ++ q :: start)) = false := by
  induction between generalizing text with
  | nil =>
    cases text with
    | nil => exact not_startsWith_nil q start
    | cons d text =>
      obtain ⟨quote, hash, mark⟩ := tail.head
      have apart : q ≠ d := by
        rcases special with rfl | rfl | rfl
        · exact quote.symm
        · exact hash.symm
        · exact mark.symm
      rw [List.nil_append, startsWith_cons, beq_eq_false_iff_ne.mpr apart, Bool.false_and]
  | cons b between ih =>
    cases text with
    | nil => exact not_startsWith_nil b _
    | cons d text =>
      rw [List.cons_append, startsWith_cons, Bool.and_eq_false_iff]
      by_cases same : b = d
      · subst same
        exact .inr (ih (tail.tail (inside b List.mem_cons_self))
          fun e member => inside e (List.mem_cons_of_mem _ member))
      · exact .inl (beq_eq_false_iff_ne.mpr same)

theorem isLettered_of_wordTail {c : Char} {text : List Char} (tail : WordTail text) :
    isLettered (c :: text) = false := by
  have plain : ∀ (d q : Char) (between start : List Char),
      (q = '"' ∨ q = '#' ∨ q = Token.apostrophe) →
      (∀ e ∈ between, Text.isIdentContinue e = true) →
      startsWith (c :: text) (String.ofList (d :: (between ++ q :: start))) = false := by
    intro d q between start special inside
    rw [startsWith_cons, tail.not_startsWith special between start inside, Bool.and_false]
  have r : ∀ e ∈ ['r'], Text.isIdentContinue e = true := by decide
  have none : ∀ e ∈ ([] : List Char), Text.isIdentContinue e = true := by simp
  have mark : ((c :: text).take 2 == ['b', Token.apostrophe]) = false := by
    cases text with
    | nil => simp
    | cons d text => simp [tail.head.2.2]
  unfold isLettered
  rw [mark, Bool.or_false]
  simp only [List.any_cons, List.any_nil, Bool.or_false, Bool.or_eq_false_iff]
  exact ⟨plain 'r' '"' [] [] (by simp) none, plain 'r' '#' [] ['"'] (by simp) none,
    plain 'r' '#' [] ['#'] (by simp) none, plain 'b' '"' [] [] (by simp) none,
    plain 'b' '"' ['r'] [] (by simp) r, plain 'b' '#' ['r'] [] (by simp) r,
    plain 'c' '"' [] [] (by simp) none, plain 'c' '"' ['r'] [] (by simp) r,
    plain 'c' '#' ['r'] [] (by simp) r⟩

theorem string?_wordTail {c : Char} {text : List Char} (begins : Text.isIdentStart c = true)
    (tail : WordTail text) : Literal.string? (c :: text) = none := by
  have quote : c ≠ '"' := ne_of_isIdentStart begins (by decide)
  have raw : ∀ (family : Literal.Family) (rest : List Char), WordTail rest →
      Literal.readString family true rest = none := by
    intro family rest tail
    simp [Literal.readString, rawOpening_wordTail tail]
  have r : Text.isIdentContinue 'r' = true := by decide
  unfold Literal.string?
  split
  all_goals rename_i same
  · exact absurd (List.cons.inj same).1 quote
  · obtain ⟨-, rfl⟩ := List.cons.inj same
    rw [raw _ _ tail]
    rfl
  · obtain ⟨-, rfl⟩ := List.cons.inj same
    exact absurd rfl tail.head.1
  · obtain ⟨-, rfl⟩ := List.cons.inj same
    rw [raw _ _ (tail.tail r)]
    rfl
  · obtain ⟨-, rfl⟩ := List.cons.inj same
    exact absurd rfl tail.head.1
  · obtain ⟨-, rfl⟩ := List.cons.inj same
    rw [raw _ _ (tail.tail r)]
    rfl
  · rfl

theorem character?_wordTail {c : Char} {text : List Char} (begins : Text.isIdentStart c = true)
    (tail : WordTail text) : Literal.character? (c :: text) = none := by
  have mark : c ≠ Char.ofNat 39 := ne_of_isIdentStart begins (by decide)
  unfold Literal.character?
  split
  · rename_i d rest same
    obtain ⟨-, rfl⟩ := List.cons.inj same
    have apart : d ≠ Char.ofNat 39 := tail.head.2.2
    rw [if_neg (by simpa using apart)]
  · rename_i d rest other same
    obtain ⟨rfl, rfl⟩ := List.cons.inj same
    rw [if_neg (by simpa using mark)]
  · rfl

theorem IsName.wordTail {name : String} {rest : List Char} (named : IsName name)
    (ends : EndsWord rest) :
    (∃ c more, name.toList = c :: more ∧ Text.isIdentStart c = true ∧ WordTail (more ++ rest)) ∨
      ∃ c more, name.toList = 'r' :: '#' :: c :: more ∧ Text.isIdentStart c = true ∧
        WordTail (more ++ rest) := by
  rcases named.chars with word | ⟨chars, word, same, -⟩
  · cases chars : name.toList with
    | nil =>
      rw [chars] at word
      cases word
    | cons c more =>
      rw [chars] at word
      obtain ⟨begins, continues⟩ := word
      exact .inl ⟨c, more, rfl, begins, more, rest, rfl, continues, ends⟩
  · rw [same]
    obtain ⟨begins, continues⟩ := word
    exact .inr ⟨_, _, rfl, begins, _, rest, rfl, continues, ends⟩

/-- The characters of operators and the apostrophe. -/
def symbols : List Char :=
  Token.apostrophe :: "~!@#$%^&*-=+|;:,<.>/?".toList

theorem punct?_cons (c : Char) (text : List Char) :
    punct? (c :: text) =
      if startsWith (c :: text) "//" || startsWith (c :: text) "/*" then none
      else if c ∈ symbols then some (c, text) else none := by
  have listed : ("~!@#$%^&*-=+|;:,<.>/?".toList.contains c || c == Token.apostrophe) =
      decide (c ∈ symbols) := by
    rw [symbols, Bool.or_comm, List.contains_eq_mem, beq_eq_decide, ← Bool.decide_or]
    simp only [List.mem_cons]
  unfold punct?
  simp only [listed, decide_eq_true_eq]

theorem punct?_of_isIdentStart {c : Char} {text : List Char}
    (begins : Text.isIdentStart c = true) : punct? (c :: text) = none := by
  have noSymbol : c ∉ symbols := by
    intro member
    have none : ∀ d ∈ symbols, Text.isIdentStart d = false := by decide
    rw [none c member] at begins
    cases begins
  rw [punct?_cons, if_neg noSymbol, ite_self]

theorem skip?_of_raw {c : Char} {text : List Char} (begins : Text.isIdentStart c = true) :
    Literal.skip? ('r' :: '#' :: c :: text) = none := by
  have noOpening : Literal.rawOpening (c :: text) = none := by
    unfold Literal.rawOpening
    split
    · rename_i same
      exact absurd (List.cons.inj same).1 (ne_of_isIdentStart begins (by decide))
    · rename_i same
      exact absurd (List.cons.inj same).1 (ne_of_isIdentStart begins (by decide))
    · rfl
  have noString : Literal.string? ('r' :: '#' :: c :: text) = none := by
    simp [Literal.string?, Literal.readString, Literal.rawOpening, noOpening]
  have noCharacter : Literal.character? ('r' :: '#' :: c :: text) = none := by
    simp [Literal.character?]
  simp [Literal.skip?, noString, noCharacter, number?_of_not_isDigit]

theorem isLettered_of_raw {c : Char} {text : List Char} (begins : Text.isIdentStart c = true) :
    isLettered ('r' :: '#' :: c :: text) = false := by
  have quote : '"' ≠ c := (ne_of_isIdentStart begins (by decide)).symm
  have hash : '#' ≠ c := (ne_of_isIdentStart begins (by decide)).symm
  simp [isLettered, startsWith, List.isPrefixOf, quote, hash]

/-- No operator begins where a word does. -/
theorem IsName.punct?_append {name : String} (named : IsName name) (rest : List Char) :
    punct? (name.toList ++ rest) = none := by
  rcases named.chars with word | ⟨chars, -, same, -⟩
  · generalize name.toList = chars at word
    obtain ⟨begins, -⟩ := word
    exact punct?_of_isIdentStart begins
  · rw [same]
    exact punct?_of_isIdentStart (by decide)

theorem IsName.leaf? {name : String} {rest : List Char} (named : IsName name)
    (ends : EndsWord rest) : leaf? (name.toList ++ rest) = some (.ident name, rest) := by
  have word := named.word?_append ends
  have facts : Literal.skip? (name.toList ++ rest) = none ∧
      isLettered (name.toList ++ rest) = false := by
    rcases named.wordTail ends with ⟨c, more, same, begins, tail⟩ | ⟨c, more, same, begins, -⟩
    · rw [same, List.cons_append]
      refine ⟨?_, isLettered_of_wordTail tail⟩
      simp [Literal.skip?, string?_wordTail begins tail, character?_wordTail begins tail,
        number?_of_not_isDigit (not_isDigit_of_isIdentStart begins)]
    · rw [same]
      exact ⟨skip?_of_raw begins, isLettered_of_raw begins⟩
  unfold Lexer.leaf? punctuation?
  rw [facts.1, named.punct?_append, facts.2]
  simp [word]

theorem operatorSymbols_symbols {c : Char} (operator : c ∈ operatorSymbols) : c ∈ symbols := by
  revert operator
  revert c
  decide

theorem skip?_of_symbol {c : Char} (operator : c ∈ operatorSymbols) (text : List Char) :
    Literal.skip? (c :: text) = none := by
  have listed : ∀ d ∈ operatorSymbols, d ≠ '"' ∧ d ≠ 'r' ∧ d ≠ 'b' ∧ d ≠ 'c' ∧
      d ≠ Char.ofNat 39 ∧ d.isDigit = false := by
    decide
  obtain ⟨quote, r, b, c', mark, noDigit⟩ := listed c operator
  have noString : Literal.string? (c :: text) = none := by
    unfold Literal.string?
    split <;> simp_all
  have noCharacter : Literal.character? (c :: text) = none := by
    unfold Literal.character?
    split <;> simp_all
  simp [Literal.skip?, noString, noCharacter, number?_of_not_isDigit noDigit]

theorem punct?_of_symbol {c : Char} (operator : c ∈ operatorSymbols) (text : List Char) :
    punct? (c :: text) = some (c, text) := by
  have noSlash : '/' ≠ c := by
    rintro rfl
    revert operator
    decide
  rw [punct?_cons, if_pos (operatorSymbols_symbols operator)]
  simp [startsWith, noSlash]

theorem leaf?_of_symbol {c : Char} (operator : c ∈ operatorSymbols) (text : List Char) :
    leaf? (c :: text) = some (.punct c (punct? text).isSome, text) := by
  have noMark : c ≠ Token.apostrophe := by
    rintro rfl
    revert operator
    decide
  simp [leaf?, punctuation?, skip?_of_symbol operator, punct?_of_symbol operator, noMark]

theorem skip?_of_lifetime {name : String} {rest : List Char} (named : IsName name)
    (ends : EndsWord rest) : Literal.skip? (Token.apostrophe :: (name.toList ++ rest)) = none := by
  have noString : Literal.string? (Token.apostrophe :: (name.toList ++ rest)) = none := by
    unfold Literal.string?
    split <;> simp_all [Token.apostrophe]
  have noCharacter : Literal.character? (Token.apostrophe :: (name.toList ++ rest)) = none := by
    rcases named.wordTail ends with ⟨c, more, same, begins, tail⟩ | ⟨c, more, same, begins, -⟩
    · have escape : c ≠ '\\' := ne_of_isIdentStart begins (by decide)
      have closed : Literal.readCharacter .text (c :: (more ++ rest)) = none := by
        generalize more ++ rest = text at tail
        cases text with
        | nil => simp [Literal.readCharacter, Literal.skipCharacter, escape]
        | cons d text =>
          have apart : d ≠ Char.ofNat 39 := tail.head.2.2
          simp [Literal.readCharacter, Literal.skipCharacter, escape, apart]
      rw [same]
      simp [Literal.character?, Token.apostrophe, closed]
    · rw [same]
      simp [Literal.character?, Token.apostrophe, Literal.readCharacter, Literal.skipCharacter]
  have noNumber : Literal.number? (Token.apostrophe :: (name.toList ++ rest)) = none :=
    number?_of_not_isDigit (by decide) _
  simp [Literal.skip?, noString, noCharacter, noNumber]

theorem leaf?_of_lifetime {name : String} {rest : List Char} (named : IsName name)
    (ends : EndsWord rest) :
    leaf? (Token.apostrophe :: (name.toList ++ rest)) =
      some (.punct Token.apostrophe true, name.toList ++ rest) := by
  have found : punct? (Token.apostrophe :: (name.toList ++ rest)) =
      some (Token.apostrophe, name.toList ++ rest) := by
    rw [punct?_cons, if_neg (by simp [startsWith, Token.apostrophe]), if_pos (by decide)]
  have open? : (rest.head? == some Token.apostrophe) = false ∧
      (rest.head? == some '#') = false := by
    cases rest with
    | nil => exact ⟨rfl, rfl⟩
    | cons d rest =>
      have after := ends d rfl
      simp [after.2.2.2]
  unfold leaf? punctuation?
  rw [skip?_of_lifetime named ends, found]
  simp only [BEq.rfl, if_true, named.word?_append ends, open?, Bool.false_and, Bool.or_self,
    Bool.false_eq_true, if_false]

end Forwarding.Lexer

namespace Forwarding.Token

open Lexer

theorem ofOpening?_opening (delimiter : Delimiter) :
    Delimiter.ofOpening? delimiter.opening = some delimiter := by
  cases delimiter <;> decide

theorem ofClosing?_closing (delimiter : Delimiter) :
    Delimiter.ofOpening? delimiter.closing = none ∧
      Delimiter.ofClosing? delimiter.closing = some delimiter := by
  cases delimiter <;> decide

end Forwarding.Token

namespace Forwarding.Lexer

theorem docComment?_cons {c : Char} (noSlash : c ≠ '/') (text : List Char) :
    docComment? (c :: text) = none := by
  simp [docComment?, startsWith, noSlash.symm]

/-- A token that is no bracket begins with an inert character and is read as a leaf. -/
theorem next?_of_leaf {c : Char} {text rest : List Char} {t : Token} (inert : isInert c = true)
    (read : leaf? (c :: text) = some (t, rest)) : next? (c :: text) = some ([t], rest) := by
  simp only [isInert, isSolid, Bool.and_eq_true, Bool.not_eq_true', bne_iff_ne, ne_eq,
    Option.isNone_iff_eq_none] at inert
  obtain ⟨⟨⟨⟨-, noSlash⟩, -⟩, noOpening⟩, noClosing⟩ := inert
  unfold next?
  rw [docComment?_cons noSlash]
  simp [noOpening, noClosing, read]

/-- What begins a literal is inert. -/
theorem isInert_of_skip? {c : Char} {text rest : List Char}
    (read : Literal.skip? (c :: text) = some rest) : isInert c = true := by
  by_contra other
  have apart : ∀ d : Char, isInert d = true → c ≠ d := by
    rintro d inert rfl
    exact other inert
  have noDigit : c.isDigit = false := by
    rw [Bool.eq_false_iff]
    intro digit
    have low : c.toNat < 0x80 := by
      simp only [Char.isDigit, Bool.and_eq_true, decide_eq_true_eq] at digit
      have high : c.toNat ≤ '9'.toNat := digit.2
      exact Nat.lt_of_le_of_lt high (by decide)
    exact other (ascii_of_table (p := Char.isDigit) (by decide +kernel) low digit)
  have quote := apart '"' (by decide)
  have r := apart 'r' (by decide)
  have b := apart 'b' (by decide)
  have c' := apart 'c' (by decide)
  have mark := apart (Char.ofNat 39) (by decide)
  have noString : Literal.string? (c :: text) = none := by
    unfold Literal.string?
    split <;> simp_all
  have noCharacter : Literal.character? (c :: text) = none := by
    unfold Literal.character?
    split <;> simp_all
  simp [Literal.skip?, noString, noCharacter, number?_of_not_isDigit noDigit] at read

/-- Whether a comment begins here. -/
def beginsComment (text : List Char) : Bool :=
  startsWith text "//" || startsWith text "/*"

theorem beginsComment_cons {c : Char} (noSlash : c ≠ '/') (text : List Char) :
    beginsComment (c :: text) = false := by
  simp [beginsComment, startsWith, List.isPrefixOf, noSlash.symm]

theorem not_startsWith_of_short {text : List Char} {short long : String}
    (longer : short.toList <+: long.toList) (none : startsWith text short = false) :
    startsWith text long = false := by
  rw [Bool.eq_false_iff] at none ⊢
  intro starts
  refine none ?_
  rw [startsWith, List.isPrefixOf_iff_prefix] at starts ⊢
  exact longer.trans starts

theorem docComment?_of_beginsComment {text : List Char} (none : beginsComment text = false) :
    docComment? text = .none := by
  rw [beginsComment, Bool.or_eq_false_iff] at none
  have line (long : String) (longer : "//".toList <+: long.toList) :
      startsWith text long = false :=
    not_startsWith_of_short longer none.1
  have block (long : String) (longer : "/*".toList <+: long.toList) :
      startsWith text long = false :=
    not_startsWith_of_short longer none.2
  simp [docComment?, line "//!" (by decide), line "///" (by decide), block "/*!" (by decide),
    block "/**" (by decide)]

theorem isPlainBlock_of_beginsComment {text : List Char} (none : beginsComment text = false) :
    isPlainBlock text = false := by
  rw [beginsComment, Bool.or_eq_false_iff] at none
  rw [isPlainBlock, none.2, not_startsWith_of_short (by decide) none.2]
  rfl

/-- Nothing is skipped where neither a blank nor a comment begins. -/
theorem skipBlanks_of_noComment {c : Char} {text : List Char} (notSeparator : isSeparator c = false)
    (noComment : beginsComment (c :: text) = false) (fuel : Nat) :
    skipBlanks fuel (c :: text) = c :: text := by
  cases fuel with
  | zero => rfl
  | succ fuel =>
    have noBlock := isPlainBlock_of_beginsComment noComment
    rw [beginsComment, Bool.or_eq_false_iff] at noComment
    rw [skipBlanks.eq_def]
    simp only [isPlainLine, noComment.1, noBlock, notSeparator, Bool.false_and, Bool.false_eq_true,
      if_false]

end Forwarding.Lexer

namespace Forwarding.Token

open Lexer

/-- A token that the lexer reads as itself before a text, with neither a blank nor a comment before
it. -/
structure Stands (rest : List Char) (t : Token) : Prop where
  begins : ∃ c, t.chars.head? = some c ∧ isSeparator c = false ∧ c ≠ byteOrderMark
  noComment : beginsComment (t.chars ++ rest) = false
  read : next? (t.chars ++ rest) = some ([t], rest)

namespace Stands

variable {rest : List Char}

theorem of_solid {t : Token} {c : Char} {more : List Char} (same : t.chars = c :: more)
    (solid : isSolid c = true) (read : next? (c :: (more ++ rest)) = some ([t], rest)) :
    Stands rest t := by
  simp only [isSolid, Bool.and_eq_true, Bool.not_eq_true', bne_iff_ne, ne_eq] at solid
  refine ⟨⟨c, by rw [same]; rfl, solid.1.1, solid.2⟩, ?_, ?_⟩
  · rw [same]
    exact beginsComment_cons solid.1.2 _
  · rw [same]
    exact read

theorem of_leaf {t : Token} {c : Char} {more : List Char} (same : t.chars = c :: more)
    (inert : isInert c = true) (read : leaf? (t.chars ++ rest) = some (t, rest)) :
    Stands rest t := by
  have facts := inert
  simp only [isInert, Bool.and_eq_true] at facts
  rw [same] at read
  exact of_solid same facts.1.1 (next?_of_leaf inert read)

theorem word {name : String} (named : IsName name) (ends : EndsWord rest) :
    Stands rest (ident name) := by
  rcases named.wordTail ends with ⟨c, more, same, begins, -⟩ | ⟨c, more, same, -, -⟩
  · exact of_leaf same (isInert_of_isIdentStart begins) (named.leaf? ends)
  · exact of_leaf same (by decide) (named.leaf? ends)

theorem operator {symbol : Char} (rest : List Char) (operator : symbol ∈ operatorSymbols) :
    Stands rest (punct symbol (punct? rest).isSome) := by
  have inert : ∀ d ∈ operatorSymbols, isInert d = true := by decide
  exact of_leaf rfl (inert _ operator) (leaf?_of_symbol operator rest)

theorem lifetime {name : String} {after : List Char} (named : IsName name) (ends : EndsWord after) :
    Stands (name.toList ++ after) (punct apostrophe true) :=
  of_leaf rfl (by decide) (leaf?_of_lifetime named ends)

/-- A slash that begins no comment. -/
theorem slash (noComment : beginsComment ('/' :: rest) = false) :
    Stands rest (punct '/' (punct? rest).isSome) := by
  have noLiteral : Literal.skip? ('/' :: rest) = none := by
    cases read : Literal.skip? ('/' :: rest) with
    | none => rfl
    | some after => cases isInert_of_skip? read
  have noMark : startsWith ('/' :: rest) errorMark = false := by
    simp [startsWith, errorMark, List.isPrefixOf]
  have found : punct? ('/' :: rest) = some ('/', rest) := by
    rw [punct?_cons, if_pos (by decide : '/' ∈ symbols)]
    simp only [beginsComment] at noComment
    rw [noComment]
    rfl
  have noOpening : Delimiter.ofOpening? '/' = none := by decide
  have noClosing : Delimiter.ofClosing? '/' = none := by decide
  refine ⟨⟨'/', rfl, by decide, by decide⟩, noComment, ?_⟩
  change Lexer.next? ('/' :: rest) = _
  unfold Lexer.next?
  rw [docComment?_of_beginsComment noComment]
  simp [noMark, noOpening, noClosing, leaf?, noLiteral, punctuation?, found, apostrophe]

theorem literal {text : String} (filled : text.toList ≠ [])
    (skipped : Literal.skip? (text.toList ++ rest) = some rest) : Stands rest (literal text) := by
  obtain ⟨c, more, same⟩ := List.exists_cons_of_ne_nil filled
  refine of_leaf same (isInert_of_skip? (by rwa [same] at skipped)) ?_
  rw [chars, leaf?, skipped]
  simp only [take_length_sub, String.ofList_toList]

theorem mark (rest : List Char) : Stands rest (.literal errorMark) := by
  have text : errorMark.toList ++ rest = '(' :: ("/*ERROR*/)".toList ++ rest) := rfl
  have starts : startsWith (errorMark.toList ++ rest) errorMark = true := by
    rw [startsWith, List.isPrefixOf_iff_prefix]
    exact List.prefix_append _ _
  have noLiteral : Literal.skip? (errorMark.toList ++ rest) = none := by
    cases read : Literal.skip? (errorMark.toList ++ rest) with
    | none => rfl
    | some after => cases isInert_of_skip? (text ▸ read)
  have noSymbol : punct? (errorMark.toList ++ rest) = none := by
    rw [text, punct?_cons, if_neg (by decide : '(' ∉ symbols), ite_self]
  have noWord : word? (errorMark.toList ++ rest) = none := by
    have noStart : Text.isIdentStart '(' = false := by decide
    simp [text, word?, startsWith, List.isPrefixOf, Literal.skipIdent, noStart]
  have leaf : leaf? (errorMark.toList ++ rest) = some (.literal errorMark, rest) := by
    have after : (errorMark.toList ++ rest).drop errorMark.length = rest := by
      rw [← String.length_toList, List.drop_left]
    rw [leaf?, noLiteral, punctuation?, noSymbol, noWord]
    simp [starts, after]
  have noComment : beginsComment (errorMark.toList ++ rest) = false :=
    beginsComment_cons (by decide) _
  refine ⟨⟨'(', rfl, by decide, by decide⟩, noComment, ?_⟩
  have noClosing : Delimiter.ofClosing? '(' = none := by decide
  change Lexer.next? (errorMark.toList ++ rest) = _
  unfold Lexer.next?
  rw [docComment?_of_beginsComment noComment, starts, leaf]
  simp [text, noClosing]

/-- An opening bracket before no comment, so that it does not begin the mark of an error. -/
theorem opening (delimiter : Delimiter) (noComment : beginsComment rest = false) :
    Stands rest (opening delimiter) := by
  have solid : isSolid delimiter.opening = true := by cases delimiter <;> decide
  have noSlash : delimiter.opening ≠ '/' := by cases delimiter <;> decide
  have noMark : startsWith (delimiter.opening :: rest) Lexer.errorMark = false := by
    rw [beginsComment, Bool.or_eq_false_iff] at noComment
    have inside : startsWith rest "/*ERROR*/)" = false :=
      not_startsWith_of_short (by decide) noComment.2
    rw [show Lexer.errorMark = String.ofList ('(' :: "/*ERROR*/)".toList) from rfl,
      startsWith_cons, String.ofList_toList, inside, Bool.and_false]
  refine of_solid rfl solid ?_
  unfold Lexer.next?
  rw [docComment?_cons noSlash]
  simp [noMark, ofOpening?_opening]

theorem closing (rest : List Char) (delimiter : Delimiter) : Stands rest (closing delimiter) := by
  have solid : isSolid delimiter.closing = true := by cases delimiter <;> decide
  have noSlash : delimiter.closing ≠ '/' := by cases delimiter <;> decide
  refine of_solid rfl solid ?_
  unfold Lexer.next?
  rw [docComment?_cons noSlash]
  simp [ofClosing?_closing]

/-- Nothing is skipped before a token that stands. -/
theorem skipBlanks {t : Token} (stands : t.Stands rest) (fuel : Nat) :
    skipBlanks fuel (t.chars ++ rest) = t.chars ++ rest := by
  obtain ⟨⟨c, first, notSeparator, -⟩, noComment, -⟩ := stands
  obtain ⟨more, same⟩ := List.head?_eq_some_iff.mp first
  rw [same, List.cons_append] at noComment ⊢
  exact skipBlanks_of_noComment notSeparator noComment fuel

end Stands

end Forwarding.Token

namespace Forwarding.Lexer

/-- A text that spells tokens up to a rest. -/
inductive Spells (rest : List Char) : List Char → List Token → Prop
  | done : Spells rest rest []
  | blank {c : Char} {text : List Char} {tokens : List Token} (separates : isSeparator c = true)
      (spelled : Spells rest text tokens) : Spells rest (c :: text) tokens
  | token {t : Token} {text : List Char} {tokens : List Token} (stands : t.Stands text)
      (spelled : Spells rest text tokens) : Spells rest (t.chars ++ text) (t :: tokens)

theorem Spells.append {rest middle text : List Char} {before after : List Token}
    (first : Spells middle text before) (last : Spells rest middle after) :
    Spells rest text (before ++ after) := by
  induction first with
  | done => exact last
  | blank separates _ ih => exact .blank separates ih
  | token stands _ ih => exact .token stands ih

/-- What is spelled begins with neither a comment nor the mark before a text. -/
theorem Spells.head {rest text : List Char} {tokens : List Token}
    (spelled : Spells rest text tokens) :
    text = rest ∨ (∃ c, text.head? = some c ∧ c ≠ byteOrderMark) ∧ beginsComment text = false := by
  cases spelled with
  | done => exact .inl rfl
  | @blank c _ _ separates _ =>
    refine .inr ⟨⟨c, rfl, ?_⟩, beginsComment_cons ?_ _⟩
    all_goals
      rintro rfl
      revert separates
      decide
  | @token t _ _ stands _ =>
    obtain ⟨c, first, -, apart⟩ := stands.begins
    refine .inr ⟨⟨c, ?_, apart⟩, stands.noComment⟩
    rw [List.head?_append, first]
    rfl

theorem skipBlanks_cons {c : Char} (solid : isSolid c = true) (fuel : Nat) (text : List Char) :
    skipBlanks fuel (c :: text) = c :: text := by
  simp only [isSolid, Bool.and_eq_true, Bool.not_eq_true', bne_iff_ne, ne_eq] at solid
  exact skipBlanks_of_noComment solid.1.1 (beginsComment_cons solid.1.2 text) fuel

theorem skipBlanks_blank {c : Char} (separates : isSeparator c = true) (fuel : Nat)
    (text : List Char) : skipBlanks (fuel + 1) (c :: text) = skipBlanks fuel text := by
  have noSlash : '/' ≠ c := by
    rintro rfl
    revert separates
    decide
  simp [skipBlanks, isPlainLine, isPlainBlock, startsWith, noSlash, separates]

/-- The tokens of a scan, and whether it stopped early. -/
def Scan.words (scanned : Scan) : List Token × Bool :=
  (scanned.tokens.map Prod.fst, scanned.failure.isSome)

/-- The tokens of a text, whatever its place. -/
def words (fuel : Nat) (text : List Char) : List Token × Bool :=
  (scan fuel .first text).words

theorem words_scan_succ {fuel : Nat}
    (same : ∀ position rest, (scan fuel position rest).words = words fuel rest)
    (position : Position) (text : List Char) :
    (scan (fuel + 1) position text).words =
      let trimmed := skipBlanks text.length text
      if trimmed.isEmpty then ([], false)
      else match next? trimmed with
        | none => ([], true)
        | some (tokens, rest) => (tokens ++ (words fuel rest).1, (words fuel rest).2) := by
  simp only [scan]
  split
  · rfl
  cases next? (skipBlanks text.length text) with
  | none => rfl
  | some found =>
    obtain ⟨tokens, rest⟩ := found
    simp only [Scan.words, List.map_append, List.map_map]
    generalize Position.advance _ ((skipBlanks text.length text).take _) = after
    rw [show (Prod.fst ∘ fun t : Token => (t, _)) = id from rfl, List.map_id, ← same after rest]
    rfl

theorem words_scan (fuel : Nat) (position : Position) (text : List Char) :
    (scan fuel position text).words = words fuel text := by
  induction fuel generalizing position text with
  | zero => rfl
  | succ fuel ih =>
    rw [words_scan_succ ih, words, words_scan_succ ih]

theorem words_succ (fuel : Nat) (text : List Char) :
    words (fuel + 1) text =
      let trimmed := skipBlanks text.length text
      if trimmed.isEmpty then ([], false)
      else match next? trimmed with
        | none => ([], true)
        | some (tokens, rest) => (tokens ++ (words fuel rest).1, (words fuel rest).2) :=
  words_scan_succ (words_scan fuel) .first text

/-- The scan of a text begins with what the text spells. -/
theorem Spells.words {rest text : List Char} {tokens : List Token}
    (spelled : Spells rest text tokens) {fuel : Nat} (enough : text.length < fuel) :
    ∃ fuel', rest.length < fuel' ∧ Lexer.words fuel text =
      (tokens ++ (Lexer.words fuel' rest).1, (Lexer.words fuel' rest).2) := by
  induction spelled generalizing fuel with
  | done => exact ⟨fuel, enough, rfl⟩
  | @blank c text tokens separates _ ih =>
    have shorter : text.length < fuel := Nat.lt_of_succ_lt enough
    obtain ⟨fuel', more, same⟩ := ih shorter
    refine ⟨fuel', more, ?_⟩
    obtain ⟨fuel, rfl⟩ : ∃ n, fuel = n + 1 := ⟨fuel - 1, by omega⟩
    rw [← same, words_succ, words_succ, List.length_cons, skipBlanks_blank separates]
  | @token t text tokens stands _ ih =>
    obtain ⟨c, first, -⟩ := stands.begins
    obtain ⟨more, same⟩ := List.head?_eq_some_iff.mp first
    have filled : (t.chars ++ text).isEmpty = false := by rw [same]; rfl
    rw [List.length_append, same, List.length_cons] at enough
    obtain ⟨fuel, rfl⟩ : ∃ n, fuel = n + 1 := ⟨fuel - 1, by omega⟩
    have shorter : text.length < fuel := by omega
    obtain ⟨fuel', left, whole⟩ := ih shorter
    refine ⟨fuel', left, ?_⟩
    rw [words_succ, stands.skipBlanks]
    simp [filled, stands.read, whole]

end Forwarding.Lexer
