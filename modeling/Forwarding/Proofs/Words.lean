import Forwarding.Token.Lexer
import Mathlib.Data.List.TakeWhile
/-!
Words as the lexer reads them: identifiers and keywords, raw or not. The text of a word is itself a
word, and it is read back from any text that does not go on with it.
-/

namespace Forwarding.Lexer

/-- A text that is a single word. -/
def IsName (name : String) : Prop :=
  word? name.toList = some (name.toList, [])

instance (name : String) : Decidable (IsName name) :=
  inferInstanceAs (Decidable (_ = _))

/-- What may follow a word without becoming a part of it. -/
def EndsWord (rest : List Char) : Prop :=
  ∀ c, rest.head? = some c → Text.isIdentStart c = false ∧ Text.isIdentContinue c = false ∧
    c ≠ '"' ∧ c ≠ '#' ∧ c ≠ Token.apostrophe

/-- The characters of a word: one that begins identifiers, and others that continue them. -/
inductive WordChars : List Char → Prop
  | cons {c : Char} {more : List Char} (begins : Text.isIdentStart c = true)
      (continues : ∀ d ∈ more, Text.isIdentContinue d = true) : WordChars (c :: more)

/-- What is said of all of some characters is decided by these characters alone, not by going
through every character there is. -/
instance decidableForallMemChars (p : Char → Prop) [DecidablePred p] (chars : List Char) :
    Decidable (∀ c ∈ chars, p c) :=
  List.decidableBAll p chars

/-- The words that have no raw form. -/
def unrawable : List String :=
  ["_", "super", "self", "Self", "crate"]

theorem WordChars.not_mem {chars : List Char} (word : WordChars chars) {c : Char}
    (noStart : Text.isIdentStart c = false) (noMore : Text.isIdentContinue c = false) :
    c ∉ chars := by
  obtain ⟨begins, continues⟩ := word
  intro member
  rcases List.mem_cons.mp member with rfl | member
  · rw [noStart] at begins
    cases begins
  · rw [continues c member] at noMore
    cases noMore

theorem WordChars.skipIdent {chars rest : List Char} (word : WordChars chars)
    (ends : Literal.continuesWord rest = false) :
    Literal.skipIdent (chars ++ rest) = some rest := by
  obtain ⟨begins, continues⟩ := word
  rw [List.cons_append, Literal.skipIdent, if_pos begins, List.dropWhile_append_of_pos continues]
  cases rest with
  | nil => rfl
  | cons d rest =>
    change Text.isIdentContinue d = false at ends
    rw [List.dropWhile_cons_of_neg (by simp [ends])]

theorem skipIdent_eq_some {text rest : List Char} (skipped : Literal.skipIdent text = some rest) :
    ∃ chars, text = chars ++ rest ∧ WordChars chars ∧ Literal.continuesWord rest = false := by
  cases text with
  | nil => cases skipped
  | cons c more =>
    rw [Literal.skipIdent] at skipped
    split at skipped
    · rename_i begins
      cases skipped
      refine ⟨c :: more.takeWhile Text.isIdentContinue, ?_, ⟨begins, ?_⟩, ?_⟩
      · rw [List.cons_append, List.takeWhile_append_dropWhile]
      · exact fun d member => List.mem_takeWhile_imp member
      · cases kept : more.dropWhile Text.isIdentContinue with
        | nil => rfl
        | cons d rest =>
          have first := List.head?_dropWhile_not Text.isIdentContinue more
          rw [kept] at first
          simpa [Literal.continuesWord] using first
    · cases skipped

theorem take_length_sub (chars rest : List Char) :
    (chars ++ rest).take ((chars ++ rest).length - rest.length) = chars := by
  rw [List.length_append, Nat.add_sub_cancel]
  exact List.take_left

theorem word?_plain {text : List Char} (plain : startsWith text "r#" = false) :
    word? text = (Literal.skipIdent text).map fun rest =>
      (text.take (text.length - rest.length), rest) := by
  simp only [word?, plain, Bool.false_eq_true, if_false]
  cases Literal.skipIdent text <;> rfl

theorem word?_raw (body : List Char) :
    word? ('r' :: '#' :: body) = (Literal.skipIdent body).bind fun rest =>
      let name := body.take (body.length - rest.length)
      if unrawable.any fun word => name == word.toList then none
      else some ('r' :: '#' :: name, rest) := by
  have marked : startsWith ('r' :: '#' :: body) "r#" = true := rfl
  have dropped : ('r' :: '#' :: body).drop 2 = body := rfl
  simp only [word?, marked, if_true, dropped]
  cases Literal.skipIdent body <;> rfl

theorem eq_raw_of_startsWith {text : List Char} (raw : startsWith text "r#" = true) :
    ∃ body, text = 'r' :: '#' :: body := by
  obtain ⟨body, same⟩ := List.isPrefixOf_iff_prefix.mp raw
  exact ⟨body, same.symm⟩

/-- A word is raw, with the mark before its characters, or it consists of them alone. -/
theorem word?_eq_some_iff {text name rest : List Char} :
    word? text = some (name, rest) ↔
      ∃ chars, WordChars chars ∧ Literal.continuesWord rest = false ∧
        ((text = chars ++ rest ∧ name = chars ∧ startsWith text "r#" = false) ∨
          (text = 'r' :: '#' :: (chars ++ rest) ∧ name = 'r' :: '#' :: chars ∧
            (unrawable.any fun word => chars == word.toList) = false)) := by
  constructor
  · intro found
    cases raw : startsWith text "r#" with
    | true =>
      obtain ⟨body, rfl⟩ := eq_raw_of_startsWith raw
      rw [word?_raw, Option.bind_eq_some_iff] at found
      obtain ⟨rest', skipped, given⟩ := found
      obtain ⟨chars, rfl, word, ends⟩ := skipIdent_eq_some skipped
      simp only [take_length_sub] at given
      split at given
      · cases given
      rename_i allowed
      cases given
      exact ⟨chars, word, ends, .inr ⟨rfl, rfl, Bool.eq_false_iff.mpr allowed⟩⟩
    | false =>
      rw [word?_plain raw, Option.map_eq_some_iff] at found
      obtain ⟨rest', skipped, given⟩ := found
      obtain ⟨chars, rfl, word, ends⟩ := skipIdent_eq_some skipped
      rw [take_length_sub] at given
      cases given
      exact ⟨_, word, ends, .inl ⟨rfl, rfl, rfl⟩⟩
  · rintro ⟨chars, word, ends, ⟨rfl, rfl, plain⟩ | ⟨rfl, rfl, allowed⟩⟩
    · rw [word?_plain plain, word.skipIdent ends, Option.map_some, take_length_sub]
    · rw [word?_raw, word.skipIdent ends, Option.bind_some]
      simp only [take_length_sub, allowed, Bool.false_eq_true, if_false]

theorem WordChars.not_startsWith {chars : List Char} (word : WordChars chars) :
    startsWith chars "r#" = false := by
  obtain ⟨begins, continues⟩ := word
  rename_i c more
  cases more with
  | nil => simp [startsWith, List.isPrefixOf]
  | cons d more =>
    have hash : Text.isIdentContinue '#' = false := by decide
    have apart : d ≠ '#' := by
      rintro rfl
      rw [continues _ List.mem_cons_self] at hash
      cases hash
    simp [startsWith, List.isPrefixOf, apart.symm]

/-- What the lexer reads as a word is a word by itself. -/
theorem isName_of_word? {text name rest : List Char} (found : word? text = some (name, rest)) :
    IsName (String.ofList name) := by
  obtain ⟨chars, word, -, ⟨-, rfl, -⟩ | ⟨-, rfl, allowed⟩⟩ := word?_eq_some_iff.mp found
  · rw [IsName, String.toList_ofList, word?_eq_some_iff]
    exact ⟨name, word, rfl, .inl ⟨(List.append_nil _).symm, rfl, word.not_startsWith⟩⟩
  · rw [IsName, String.toList_ofList, word?_eq_some_iff]
    exact ⟨chars, word, rfl, .inr ⟨by rw [List.append_nil], rfl, allowed⟩⟩

theorem IsName.chars {name : String} (named : IsName name) :
    WordChars name.toList ∨
      ∃ chars, WordChars chars ∧ name.toList = 'r' :: '#' :: chars ∧
        (unrawable.any fun word => chars == word.toList) = false := by
  obtain ⟨chars, word, -, ⟨-, same, -⟩ | ⟨-, same, allowed⟩⟩ := word?_eq_some_iff.mp named
  · exact .inl (same ▸ word)
  · exact .inr ⟨chars, word, same, allowed⟩

theorem IsName.not_mem {name : String} (named : IsName name) {c : Char}
    (noStart : Text.isIdentStart c = false) (noMore : Text.isIdentContinue c = false)
    (noMark : c ≠ '#') : c ∉ name.toList := by
  rcases named.chars with word | ⟨chars, word, same, -⟩
  · exact word.not_mem noStart noMore
  · rw [same, List.mem_cons, List.mem_cons, not_or, not_or]
    refine ⟨?_, noMark, word.not_mem noStart noMore⟩
    rintro rfl
    exact absurd noStart (by decide)

/-- A word without the mark of a raw identifier has none to lose. -/
theorem WordChars.unraw_eq {name : String} (word : WordChars name.toList) : unraw name = name := by
  have plain := word.not_startsWith
  unfold unraw
  split
  · rename_i rest marked
    rw [marked] at plain
    exact absurd plain (by simp [startsWith, List.isPrefixOf])
  · rfl

theorem IsName.wordChars_unraw {name : String} (named : IsName name) :
    WordChars (unraw name).toList := by
  rcases named.chars with word | ⟨chars, word, same, -⟩
  · rw [word.unraw_eq]
    exact word
  · have body : unraw name = String.ofList chars := by
      simp only [unraw, same]
    rw [body, String.toList_ofList]
    exact word

/-- A word without the mark of a raw identifier is a word. -/
theorem IsName.unraw {name : String} (named : IsName name) : IsName (unraw name) := by
  have word := named.wordChars_unraw
  rw [IsName, word?_eq_some_iff]
  exact ⟨_, word, rfl, .inl ⟨(List.append_nil _).symm, rfl, word.not_startsWith⟩⟩

theorem EndsWord.continuesWord {rest : List Char} (ends : EndsWord rest) :
    Literal.continuesWord rest = false := by
  cases rest with
  | nil => rfl
  | cons c rest => exact (ends c rfl).2.1

theorem WordChars.not_startsWith_append {chars rest : List Char} (word : WordChars chars)
    (ends : EndsWord rest) : startsWith (chars ++ rest) "r#" = false := by
  have plain := word.not_startsWith
  obtain ⟨begins, continues⟩ := word
  rename_i c more
  cases more with
  | cons d more => simpa [startsWith, List.isPrefixOf] using plain
  | nil =>
    cases rest with
    | nil => simp [startsWith, List.isPrefixOf]
    | cons d rest =>
      have apart : d ≠ '#' := (ends d rfl).2.2.2.1
      simp [startsWith, List.isPrefixOf, apart.symm]

/-- A word is read back from a text that does not go on with it. -/
theorem IsName.word?_append {name : String} {rest : List Char} (named : IsName name)
    (ends : EndsWord rest) : word? (name.toList ++ rest) = some (name.toList, rest) := by
  rw [word?_eq_some_iff]
  rcases named.chars with word | ⟨chars, word, same, allowed⟩
  · exact ⟨_, word, ends.continuesWord, .inl ⟨rfl, rfl, word.not_startsWith_append ends⟩⟩
  · rw [same]
    exact ⟨chars, word, ends.continuesWord, .inr ⟨rfl, rfl, allowed⟩⟩

end Forwarding.Lexer
