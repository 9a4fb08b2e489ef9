import Forwarding.Proofs.Printing
/-!
The lexemes of a text. They hold the tokens of its scan in their order, and every word among them is
a name.
-/

namespace Forwarding

namespace Lexeme

theorem tokensOf_append (before after : List Lexeme) :
    tokensOf (before ++ after) = tokensOf before ++ tokensOf after := by
  induction before with
  | nil => simp [tokensOf]
  | cons lexeme rest ih => simp [tokensOf, ih]

mutual

/-- The tokens of a lexeme with their places, brackets included. -/
def placed : Lexeme → List (Token × Position)
  | leaf token start => [(token, start)]
  | group delimiter body start stop =>
    (.opening delimiter, start) :: (placedOf body ++ [(.closing delimiter, stop)])

/-- The tokens of a sequence of lexemes with their places. -/
def placedOf : List Lexeme → List (Token × Position)
  | [] => []
  | lexeme :: rest => lexeme.placed ++ placedOf rest

end

theorem placedOf_append (before after : List Lexeme) :
    placedOf (before ++ after) = placedOf before ++ placedOf after := by
  induction before with
  | nil => simp [placedOf]
  | cons lexeme rest ih => simp [placedOf, ih]

theorem placedOf_reverse_cons (lexeme : Lexeme) (before : List Lexeme) :
    placedOf (lexeme :: before).reverse = placedOf before.reverse ++ lexeme.placed := by
  simp [placedOf_append, placedOf]

mutual

theorem map_fst_placed (lexeme : Lexeme) : lexeme.placed.map Prod.fst = lexeme.tokens := by
  cases lexeme with
  | leaf token start => rfl
  | group delimiter body start stop => simp [placed, tokens, map_fst_placedOf body]

theorem map_fst_placedOf (lexemes : List Lexeme) :
    (placedOf lexemes).map Prod.fst = tokensOf lexemes := by
  cases lexemes with
  | nil => rfl
  | cons lexeme rest =>
    simp [placedOf, tokensOf, map_fst_placed lexeme, map_fst_placedOf rest]

end

end Lexeme

namespace Lexer

open Lexeme (tokensOf placedOf)

/-- The tokens before the innermost open group, those of its bracket included. -/
def openPlaced : List Frame → List (Token × Position)
  | [] => []
  | frame :: outer =>
    openPlaced outer ++ placedOf frame.before.reverse ++ [(.opening frame.delimiter, frame.start)]

/-- Matching the brackets leaves the tokens as they are, and where they are. -/
theorem placedOf_balance {failure : Option Position} {stack : List Frame} {current : List Lexeme}
    {tokens : List (Token × Position)} {lexemes : List Lexeme}
    (balanced : balance failure stack current tokens = .ok lexemes) :
    placedOf lexemes = openPlaced stack ++ placedOf current.reverse ++ tokens := by
  fun_induction balance failure stack current tokens with
  | case1 => cases balanced
  | case2 => cases balanced
  | case3 current =>
    cases balanced
    simp [openPlaced]
  | case4 stack current delimiter position rest ih =>
    rw [ih balanced]
    simp [openPlaced, placedOf]
  | case5 => cases balanced
  | case6 current position rest frame outer ih =>
    rw [ih balanced, Lexeme.placedOf_reverse_cons]
    simp [openPlaced, Lexeme.placed]
  | case7 => cases balanced
  | case8 stack current token position rest _ _ ih =>
    rw [ih balanced, Lexeme.placedOf_reverse_cons]
    simp [Lexeme.placed]

theorem tokensOf_balance {failure : Option Position} {tokens : List (Token × Position)}
    {lexemes : List Lexeme} (balanced : balance failure [] [] tokens = .ok lexemes) :
    tokensOf lexemes = tokens.map Prod.fst := by
  rw [← Lexeme.map_fst_placedOf, placedOf_balance balanced]
  rfl

theorem tokensOf_lex {text : List Char} {lexemes : List Lexeme} (lexed : lex text = .ok lexemes) :
    ∃ fuel body, tokensOf lexemes = (words fuel body).1 := by
  unfold lex at lexed
  dsimp only at lexed
  exact ⟨_, _, by rw [tokensOf_balance lexed, ← words_scan]; rfl⟩

theorem punctuation?_eq_some {text rest : List Char} {t : Token}
    (read : punctuation? text = some (t, rest)) : ∃ c joint, t = .punct c joint := by
  unfold punctuation? at read
  split at read
  · cases read
  split at read
  · split at read
    · cases read
    · dsimp only at read
      split at read <;> cases read
      exact ⟨_, _, rfl⟩
  · cases read
    exact ⟨_, _, rfl⟩

theorem isName_of_leaf? {text rest : List Char} {name : String}
    (read : leaf? text = some (.ident name, rest)) : IsName name := by
  unfold leaf? at read
  split at read
  · cases read
  split at read
  · rename_i found punctuated
    cases read
    obtain ⟨c, joint, same⟩ := punctuation?_eq_some punctuated
    cases same
  split at read
  · rename_i chars after word
    cases read
    split at word
    · cases word
    · exact isName_of_word? word
  · split at read <;> cases read

theorem isName_of_next? {text rest : List Char} {tokens : List Token} {name : String}
    (read : next? text = some (tokens, rest)) (member : .ident name ∈ tokens) : IsName name := by
  unfold next? at read
  split at read
  · rename_i inner said after _
    cases read
    have same : name = "doc" := by
      cases inner <;> simpa [docTokens] using member
    rw [same]
    decide +kernel
  split at read
  · cases read
  split at read
  · cases read
    simp at member
  split at read
  · cases read
    simp at member
  · obtain ⟨⟨token, after⟩, leaf, same⟩ := Option.map_eq_some_iff.mp read
    cases same
    rw [List.mem_singleton] at member
    subst member
    exact isName_of_leaf? leaf

theorem isName_of_words {fuel : Nat} {text : List Char} {name : String}
    (member : .ident name ∈ (words fuel text).1) : IsName name := by
  induction fuel generalizing text with
  | zero => simp [words, scan, Scan.words] at member
  | succ fuel ih =>
    rw [words_succ] at member
    dsimp only at member
    split at member
    · simp at member
    split at member
    · simp at member
    · rename_i tokens rest read
      rcases List.mem_append.mp member with inside | later
      · exact isName_of_next? read inside
      · exact ih later

/-- Every word among the lexemes of a text is a name. -/
theorem isName_of_lex {text : List Char} {lexemes : List Lexeme} {name : String}
    (lexed : lex text = .ok lexemes) (member : .ident name ∈ tokensOf lexemes) : IsName name := by
  obtain ⟨fuel, body, same⟩ := tokensOf_lex lexed
  rw [same] at member
  exact isName_of_words member

end Lexer

end Forwarding
