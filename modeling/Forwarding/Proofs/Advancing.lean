import Forwarding.Proofs.Lexemes
import Forwarding.Proofs.Literals
import Mathlib.Data.Prod.Lex
/-!
The places of words. A text is read forwards, over lines and columns, whatever stands between two
words: comments, texts of several lines or the mark before the first one. So the words of a text are
at different places, each behind the one before it.
-/

namespace Forwarding

/-- Whether a token is a word. -/
def Token.isWord : Token → Bool
  | ident _ => true
  | _ => false

namespace Position

variable (p : Position)

/-- Places are ordered by line, and on a line by column. -/
instance : Preorder Position :=
  Preorder.lift fun p : Position => toLex (p.line, p.column)

theorem lt_iff {p q : Position} : p < q ↔ p.line < q.line ∨ p.line = q.line ∧ p.column < q.column :=
  Prod.Lex.toLex_lt_toLex

theorem lt_step (c : Char) : p < p.step c := by
  rw [lt_iff, step]
  split
  · exact .inl (Nat.lt_succ_self _)
  · exact .inr ⟨rfl, Nat.lt_succ_self _⟩

theorem le_advance (text : List Char) : p ≤ p.advance text := by
  induction text generalizing p with
  | nil => exact le_rfl
  | cons c rest ih => exact (p.lt_step c).le.trans (ih (p.step c))

theorem lt_advance {text : List Char} (filled : text ≠ []) : p < p.advance text := by
  cases text with
  | nil => exact absurd rfl filled
  | cons c rest => exact (p.lt_step c).trans_le (le_advance (p.step c) rest)

end Position

namespace Lexer

variable {text rest : List Char}

theorem length_takeLine_le (text : List Char) : (takeLine text).2.length ≤ text.length := by
  fun_induction takeLine text with
  | case1 => exact Nat.le_refl 0
  | case2 rest => exact Nat.le_refl _
  | case3 rest => exact Nat.le_succ _
  | case4 c rest _ _ line after same ih =>
    rw [same] at ih
    exact Nat.le_succ_of_le ih

theorem skipBlock_shorter {depth : Nat} (skipped : skipBlock depth text = some rest) :
    rest.length < text.length := by
  fun_induction skipBlock depth text with
  | case1 depth more ih => exact (ih skipped).trans (Nat.lt_add_of_pos_right two_pos)
  | case2 depth more outermost =>
    cases skipped
    exact Nat.lt_add_of_pos_right two_pos
  | case3 depth more inner ih => exact (ih skipped).trans (Nat.lt_add_of_pos_right two_pos)
  | case4 depth c more _ _ ih => exact (ih skipped).trans (Nat.lt_succ_self _)
  | case5 => cases skipped

theorem ne_nil_of_startsWith {start : String} (begins : startsWith text start = true)
    (some : start.toList ≠ []) : text ≠ [] := by
  rintro rfl
  exact some (List.prefix_nil.mp (List.isPrefixOf_iff_prefix.mp begins))

theorem length_lt_append {front : List Char} (some : front ≠ []) :
    rest.length < (front ++ rest).length := by
  rw [List.length_append]
  exact Nat.lt_add_of_pos_left (List.length_pos_iff.mpr some)

theorem docComment?_shorter {inner : Bool} {said : List Char}
    (read : docComment? text = some (inner, said, rest)) : rest.length < text.length := by
  have line (start : String) (begins : startsWith text start = true) (some : start.toList ≠ []) :
      (takeLine (text.drop 3)).2.length < text.length := by
    have filled := List.length_pos_iff.mpr (ne_nil_of_startsWith begins some)
    have dropped := length_takeLine_le (text.drop 3)
    rw [List.length_drop] at dropped
    omega
  unfold docComment? at read
  dsimp only at read
  split at read
  · rename_i found
    split at read
    · cases read
    cases read
    split at found
    · rename_i begins
      cases found
      exact line _ begins (by decide)
    split at found
    · obtain ⟨after, skipped, same⟩ := Option.map_eq_some_iff.mp found
      cases same
      exact skipBlock_shorter skipped
    split at found
    · rename_i begins
      split at found
      · cases found
      cases found
      exact line _ begins (by decide)
    split at found
    · obtain ⟨after, skipped, same⟩ := Option.map_eq_some_iff.mp found
      cases same
      exact skipBlock_shorter skipped
    · cases found
  · cases read

theorem punct?_shorter {c : Char} (read : punct? text = some (c, rest)) :
    rest.length < text.length := by
  unfold punct? at read
  split at read
  · cases read
  split at read
  · split at read <;> cases read
    exact Nat.lt_succ_self _
  · cases read

theorem punctuation?_shorter {t : Token} (read : punctuation? text = some (t, rest)) :
    rest.length < text.length := by
  unfold punctuation? at read
  split at read
  · cases read
  rename_i found
  split at read
  · split at read
    · cases read
    dsimp only at read
    split at read <;> cases read
    exact punct?_shorter found
  · cases read
    exact punct?_shorter found

theorem word?_shorter {name : List Char} (read : word? text = some (name, rest)) :
    rest.length < text.length := by
  obtain ⟨chars, word, -, ⟨rfl, -⟩ | ⟨rfl, -⟩⟩ := word?_eq_some_iff.mp read
  · cases word with
    | cons begins => exact length_lt_append (List.cons_ne_nil _ _)
  · exact @length_lt_append rest ('r' :: '#' :: chars) (List.cons_ne_nil _ _)

theorem leaf?_shorter {t : Token} (read : leaf? text = some (t, rest)) :
    rest.length < text.length := by
  unfold leaf? at read
  split at read
  · rename_i skipped
    cases read
    obtain ⟨front, rfl, whole⟩ := Literal.skip?_front skipped
    exact length_lt_append (by simpa using whole.filled)
  split at read
  · rename_i found punctuated
    cases read
    exact punctuation?_shorter punctuated
  split at read
  · rename_i chars after word
    cases read
    split at word
    · cases word
    · exact word?_shorter word
  · split at read <;> cases read
    rename_i begins
    have filled := List.length_pos_iff.mpr (ne_nil_of_startsWith begins (by decide))
    rw [List.length_drop]
    exact Nat.sub_lt filled (by decide)

/-- Every step of the scan takes a character at least. -/
theorem next?_shorter {tokens : List Token} (read : next? text = some (tokens, rest)) :
    rest.length < text.length := by
  unfold next? at read
  split at read
  · rename_i commented
    cases read
    exact docComment?_shorter commented
  split at read
  · cases read
  split at read
  · cases read
    exact Nat.lt_succ_self _
  split at read
  · cases read
    exact Nat.lt_succ_self _
  · obtain ⟨⟨token, after⟩, leaf, same⟩ := Option.map_eq_some_iff.mp read
    cases same
    exact leaf?_shorter leaf

/-- A step of the scan gives one word at most; a documentation comment gives the one of its
attribute. -/
theorem next?_words {tokens : List Token} (read : next? text = some (tokens, rest)) :
    (tokens.filter Token.isWord).length ≤ 1 := by
  unfold next? at read
  split at read
  · rename_i inner said after _
    cases read
    cases inner <;> exact Nat.le_refl 1
  split at read
  · cases read
  split at read
  · cases read
    exact Nat.zero_le 1
  split at read
  · cases read
    exact Nat.zero_le 1
  · obtain ⟨⟨token, after⟩, leaf, same⟩ := Option.map_eq_some_iff.mp read
    cases same
    exact List.length_filter_le _ _

theorem placed_words_advance {tokens : List Token} (place : Position)
    (few : (tokens.filter Token.isWord).length ≤ 1) :
    ((tokens.map (·, place)).filter (·.1.isWord)).Pairwise (·.2 < ·.2) := by
  rw [List.filter_map]
  change ((tokens.filter Token.isWord).map (·, place)).Pairwise _
  generalize tokens.filter Token.isWord = words at few ⊢
  rcases words with _ | ⟨word, _ | _⟩
  · exact .nil
  · exact List.pairwise_singleton _ _
  · exact absurd few (by simp)

/-- The scan goes forwards: its tokens are placed from where it begins on, and each word behind the
words before it. -/
theorem scan_advances (fuel : Nat) (position : Position) (text : List Char) :
    (∀ found ∈ (scan fuel position text).tokens, position ≤ found.2) ∧
      ((scan fuel position text).tokens.filter (·.1.isWord)).Pairwise (·.2 < ·.2) := by
  induction fuel generalizing position text with
  | zero => exact ⟨by simp [scan], by simp [scan]⟩
  | succ fuel ih =>
    rw [scan]
    dsimp only
    generalize skipBlanks text.length text = trimmed
    generalize same : position.advance (text.take (text.length - trimmed.length)) = place
    have behind : position ≤ place := same ▸ position.le_advance _
    split
    · exact ⟨by simp, by simp⟩
    split
    · exact ⟨by simp, by simp⟩
    rename_i tokens rest read
    have consumed : trimmed.take (trimmed.length - rest.length) ≠ [] := by
      have shorter := next?_shorter read
      rw [← List.length_pos_iff, List.length_take]
      omega
    have further := place.lt_advance consumed
    obtain ⟨bound, ordered⟩ := ih (place.advance (trimmed.take (trimmed.length - rest.length))) rest
    constructor
    · intro found member
      rcases List.mem_append.mp member with here | later
      · obtain ⟨token, -, rfl⟩ := List.mem_map.mp here
        exact behind
      · exact (behind.trans further.le).trans (bound found later)
    · rw [List.filter_append, List.pairwise_append]
      refine ⟨?_, ordered, fun word here next later => ?_⟩
      · exact placed_words_advance place (next?_words read)
      · obtain ⟨token, -, rfl⟩ := List.mem_map.mp (List.mem_filter.mp here).1
        exact further.trans_le (bound next (List.mem_filter.mp later).1)

/-- The words of a text are placed one behind the other. -/
theorem words_advance {lexemes : List Lexeme} (lexed : lex text = .ok lexemes) :
    ((Lexeme.placedOf lexemes).filter (·.1.isWord)).Pairwise (·.2 < ·.2) := by
  unfold lex at lexed
  dsimp only at lexed
  rw [placedOf_balance lexed]
  exact (scan_advances _ _ _).2

end Lexer

end Forwarding
