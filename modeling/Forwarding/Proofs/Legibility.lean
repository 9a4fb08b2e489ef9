import Forwarding.Proofs.Printing
/-!
Tokens told apart by their text. Unlike tokens that are read back, legible ones may be put one behind
the other in any way: a character that is joint to nothing is printed as one that is not joint. Two
sequences with the same text differ in nothing else.
-/

namespace Forwarding

namespace Token

open Lexer

/-- Tokens that can be told from their text. An apostrophe belongs to what it joins; what other
characters are joint to does not matter. -/
inductive Legible : List Token → Prop
  | nil : Legible []
  | word {name : String} {rest : List Token} (named : IsName name) (more : Legible rest) :
      Legible (ident name :: rest)
  | literal {text : String} {rest : List Token} (whole : IsLiteral text) (more : Legible rest) :
      Legible (literal text :: rest)
  | mark {rest : List Token} (more : Legible rest) : Legible (.literal errorMark :: rest)
  | opening {rest : List Token} (delimiter : Delimiter) (more : Legible rest) :
      Legible (opening delimiter :: rest)
  | closing {rest : List Token} (delimiter : Delimiter) (more : Legible rest) :
      Legible (closing delimiter :: rest)
  | symbol {symbol : Char} {rest : List Token} (joint : Bool)
      (operator : symbol ∈ '/' :: operatorSymbols) (more : Legible rest) :
      Legible (punct symbol joint :: rest)
  | apostrophe {next : Token} {rest : List Token} (joins : Joins apostrophe next)
      (more : Legible (next :: rest)) : Legible (punct apostrophe true :: next :: rest)

theorem Legible.append {before after : List Token} (first : Legible before)
    (last : Legible after) : Legible (before ++ after) := by
  induction first with
  | nil => exact last
  | word named _ ih => exact .word named ih
  | literal whole _ ih => exact .literal whole ih
  | mark _ ih => exact .mark ih
  | opening delimiter _ ih => exact .opening delimiter ih
  | closing delimiter _ ih => exact .closing delimiter ih
  | symbol joint operator _ ih => exact .symbol joint operator ih
  | apostrophe joins _ ih => exact .apostrophe joins ih

theorem Printable.legible {tokens : List Token} (printable : Printable tokens) : Legible tokens := by
  induction printable with
  | nil => exact .nil
  | word named _ ih => exact .word named ih
  | literal whole _ ih => exact .literal whole ih
  | mark _ ih => exact .mark ih
  | opening delimiter _ ih => exact .opening delimiter ih
  | closing delimiter _ ih => exact .closing delimiter ih
  | operator operator _ ih => exact .symbol false operator ih
  | joint joins _ ih =>
    cases joins with
    | symbol operator => exact .symbol true operator ih
    | lifetime named => exact .apostrophe (.lifetime named) ih
    | lettered stands => exact .apostrophe (.lettered stands) ih

theorem apostrophe_not_symbol : apostrophe ∉ '/' :: operatorSymbols := by
  decide

theorem Legible.tail {t : Token} {rest : List Token} (legible : Legible (t :: rest)) :
    Legible rest := by
  cases legible <;> assumption

theorem Legible.of_append {before after : List Token} (legible : Legible (before ++ after)) :
    Legible after := by
  induction before with
  | nil => exact legible
  | cons t before ih => exact ih legible.tail

/-- Whether what is joint to the next token is printed so: brackets close without a blank anyway. -/
def goesOn : List Token → Bool
  | [] => false
  | closing _ :: _ => false
  | _ => true

/-- Tokens as their text tells them: a character at the end, or before a closing bracket, is not
joint. -/
def settle : List Token → List Token
  | [] => []
  | punct symbol joint :: rest => punct symbol (joint && goesOn rest) :: settle rest
  | t :: rest => t :: settle rest

/-- Whether a token is a character of an operator. -/
def isSymbol : Token → Bool
  | punct symbol _ => ('/' :: operatorSymbols).contains symbol
  | _ => false

/-- A token by itself, joint to nothing unless it is an apostrophe. -/
def alone : Token → Token
  | punct symbol joint => punct symbol (joint && symbol == apostrophe)
  | t => t

section Reading

variable {t : Token} {rest : List Token}

theorem stops_nil : Stops [] :=
  fun _ first => nomatch first

theorem stops_gap (apart : t.isApart = true) : Stops (gap t rest ++ renderChars rest) := by
  have stops : Stops (gap t rest ++ (renderChars rest ++ [])) := stops_after apart stops_nil
  rwa [List.append_nil] at stops

/-- A token stands before what is printed after it, symbols and opening brackets aside. -/
theorem Legible.stands (legible : Legible (t :: rest)) (noSymbol : t.isSymbol = false)
    (noOpening : ∀ delimiter, t ≠ .opening delimiter) :
    t.Stands (gap t rest ++ renderChars rest) := by
  cases legible with
  | word named => exact .word named (stops_gap rfl).endsWord
  | literal whole => exact .literal whole.filled (whole.skipped _ (stops_gap rfl))
  | mark => exact .mark _
  | opening delimiter => exact absurd rfl (noOpening delimiter)
  | closing delimiter => exact .closing _ delimiter
  | symbol joint operator =>
    rw [isSymbol, List.contains_iff_mem.mpr operator] at noSymbol
    cases noSymbol
  | @apostrophe next rest joins more =>
    rw [joins.gap, List.nil_append]
    cases joins with
    | symbol operator => exact absurd operator apostrophe_not_symbol
    | lifetime named =>
      rw [renderChars_cons]
      exact .lifetime named (stops_gap rfl).endsWord
    | lettered stands =>
      rw [renderChars_cons]
      exact stands _

/-- A token that stands is told by the text. -/
theorem Stands.unique {t u : Token} {text after after' : List Char} (first : t.Stands after)
    (other : u.Stands after') (same : t.chars ++ after = text) (same' : u.chars ++ after' = text) :
    t = u ∧ after = after' := by
  have read := first.read
  rw [same, ← same', other.read] at read
  simpa [eq_comm] using read

end Reading

variable {t : Token} {rest : List Token}


theorem Legible.punct_of_head {c : Char} {text : List Char} (legible : Legible (t :: rest))
    (same : renderChars (t :: rest) = c :: text) (symbol : c ∈ '/' :: operatorSymbols) :
    ∃ joint, t = punct c joint ∧ gap t rest ++ renderChars rest = text := by
  rw [renderChars_cons] at same
  cases known : t.isSymbol with
  | true =>
    cases t with
    | punct d joint =>
      obtain ⟨rfl, rfl⟩ := List.cons.inj same
      exact ⟨joint, rfl, rfl⟩
    | _ => cases known
  | false =>
    exfalso
    have noOpening : ∀ delimiter, t ≠ .opening delimiter := by
      rintro delimiter rfl
      have first := (List.cons.inj same).1
      subst first
      revert symbol
      cases delimiter <;> decide
    have stands := legible.stands known noOpening
    have other : (punct c (punct? text).isSome).Stands text := by
      rcases List.mem_cons.mp symbol with rfl | operator
      · exact .slash (same ▸ stands.noComment)
      · exact .operator text operator
    obtain ⟨rfl, -⟩ := stands.unique other same rfl
    rw [isSymbol, List.contains_iff_mem.mpr symbol] at known
    cases known

theorem gap_cases (t : Token) (rest : List Token) : gap t rest = [] ∨ gap t rest = [' '] := by
  cases rest with
  | nil => exact .inl rfl
  | cons u rest =>
    rw [gap]
    split
    · exact .inr rfl
    · exact .inl rfl

theorem gap_of_joint {symbol : Char} {joint : Bool} {c : Char} {text : List Char}
    (same : gap (punct symbol joint) rest ++ renderChars rest = c :: text) (solid : c ≠ ' ') :
    renderChars rest = c :: text := by
  rcases gap_cases (punct symbol joint) rest with close | apart
  · rwa [close] at same
  · rw [apart] at same
    exact absurd (List.cons.inj same).1.symm solid

/-- No tokens are printed like the mark of an error behind its bracket. -/
theorem Legible.not_startsWith_mark {tokens : List Token} (legible : Legible tokens) :
    startsWith (renderChars tokens) "/*ERROR*/)" = false := by
  rw [Bool.eq_false_iff, Ne, startsWith, List.isPrefixOf_iff_prefix]
  rintro ⟨after, same⟩
  have step {tokens : List Token} {c d : Char} {text : List Char} (legible : Legible tokens)
      (same : renderChars tokens = c :: d :: text) (symbol : c ∈ '/' :: operatorSymbols)
      (solid : d ≠ ' ') : ∃ rest, Legible rest ∧ renderChars rest = d :: text := by
    cases tokens with
    | nil => cases same
    | cons t rest =>
      obtain ⟨joint, rfl, printed⟩ := legible.punct_of_head same symbol
      exact ⟨rest, legible.tail, gap_of_joint printed solid⟩
  have text : "/*ERROR*/)".toList ++ after = '/' :: '*' :: 'E' :: ("RROR*/)".toList ++ after) := rfl
  obtain ⟨tokens, legible, printed⟩ :=
    step legible (same.symm.trans text) (by decide) (by decide)
  obtain ⟨tokens, legible, printed⟩ := step legible printed (by decide) (by decide)
  cases tokens with
  | nil => cases printed
  | cons t rest =>
    rw [renderChars_cons] at printed
    have word : (ident "ERROR").Stands ("*/)".toList ++ after) :=
      .word (by decide) (by
        rintro c ⟨⟩
        decide)
    have noSymbol : t.isSymbol = false := by
      cases t with
      | punct symbol joint =>
        obtain ⟨rfl, -⟩ := List.cons.inj printed
        rfl
      | _ => rfl
    have noOpening : ∀ delimiter, t ≠ .opening delimiter := by
      rintro delimiter rfl
      cases delimiter <;> exact absurd (List.cons.inj printed).1 (by decide)
    obtain ⟨rfl, left⟩ := (legible.stands noSymbol noOpening).unique word printed rfl
    have stops : Stops (gap (ident "ERROR") rest ++ renderChars rest) := stops_gap rfl
    rw [left] at stops
    exact absurd (stops '*' rfl) (by decide)

/-- What is printed of a token is read as the token, symbols aside. -/
theorem Legible.read (legible : Legible (t :: rest)) (noSymbol : t.isSymbol = false) :
    next? (renderChars (t :: rest)) = some ([t], gap t rest ++ renderChars rest) := by
  rw [renderChars_cons]
  by_cases noOpening : ∀ delimiter, t ≠ .opening delimiter
  · exact (legible.stands noSymbol noOpening).read
  · obtain ⟨delimiter, rfl⟩ := not_forall_not.mp noOpening
    have noMark : startsWith (delimiter.opening :: (gap (Token.opening delimiter) rest ++ renderChars rest))
        errorMark = false := by
      cases delimiter with
      | parenthesis =>
        rcases gap_cases (Token.opening .parenthesis) rest with close | apart
        · rw [close, List.nil_append,
            show errorMark = String.ofList ('(' :: "/*ERROR*/)".toList) from rfl, startsWith_cons,
            String.ofList_toList, legible.tail.not_startsWith_mark, Bool.and_false]
        · rw [apart]
          rfl
      | _ => rfl
    have noSlash : delimiter.opening ≠ '/' := by cases delimiter <;> decide
    unfold Lexer.next?
    rw [chars, List.singleton_append, docComment?_cons noSlash]
    simp [noMark, ofOpening?_opening]

theorem Legible.head_eq {u : Token} {more : List Token} (legible : Legible (t :: rest))
    (legible' : Legible (u :: more)) (same : renderChars (t :: rest) = renderChars (u :: more)) :
    t.alone = u.alone ∧ gap t rest ++ renderChars rest = gap u more ++ renderChars more := by
  have symbol_eq {t u : Token} {rest more : List Token} (legible' : Legible (u :: more))
      (same : renderChars (t :: rest) = renderChars (u :: more)) (symbol : t.isSymbol = true) :
      t.alone = u.alone ∧ gap t rest ++ renderChars rest = gap u more ++ renderChars more := by
    cases t with
    | punct c joint =>
      have operator : c ∈ '/' :: operatorSymbols := List.contains_iff_mem.mp symbol
      rw [renderChars_cons] at same
      obtain ⟨joint', rfl, printed⟩ := legible'.punct_of_head same.symm operator
      have apart : (c == Token.apostrophe) = false := by
        rw [beq_eq_false_iff_ne]
        rintro rfl
        exact apostrophe_not_symbol operator
      exact ⟨by rw [alone, alone, apart, Bool.and_false, Bool.and_false], printed.symm⟩
    | _ => cases symbol
  cases first : t.isSymbol with
  | true => exact symbol_eq legible' same first
  | false =>
    cases second : u.isSymbol with
    | true =>
      obtain ⟨heads, tails⟩ := symbol_eq legible same.symm second
      exact ⟨heads.symm, tails.symm⟩
    | false =>
      have found := legible.read first
      rw [same, legible'.read second] at found
      simp only [Option.some.injEq, Prod.mk.injEq, List.cons.injEq, and_true] at found
      exact ⟨by rw [found.1], found.2.symm⟩

/-- Only a closing bracket is printed with its own character, and nothing is printed with a blank in
front. -/
theorem Legible.not_stops (legible : Legible (t :: rest))
    (noClosing : ∀ delimiter, t ≠ .closing delimiter) : ¬ Stops (renderChars (t :: rest)) := by
  intro stops
  cases known : t.isSymbol with
  | true =>
    cases t with
    | punct c joint =>
      rw [renderChars_cons] at stops
      have listed := stops c rfl
      have apart : ∀ d ∈ [' ', '\n', ')', ']'], d ∉ '/' :: operatorSymbols := by decide
      exact apart c listed (List.contains_iff_mem.mp known)
    | _ => cases known
  | false =>
    have read := legible.read known
    rcases printed : renderChars (t :: rest) with _ | ⟨c, text⟩
    · rw [printed] at read
      cases read
    · rw [printed] at read stops
      have closes (delimiter : Delimiter) (own : c = delimiter.closing) : False := by
        subst own
        have other := (Stands.closing text delimiter).read
        rw [chars, List.singleton_append, read] at other
        simp only [Option.some.injEq, Prod.mk.injEq, List.cons.injEq, and_true] at other
        exact noClosing delimiter other.1
      have blank (separates : isSeparator c = true) : False := by
        by_cases noOpening : ∀ delimiter, t ≠ .opening delimiter
        · obtain ⟨d, first, apart, -⟩ := (legible.stands known noOpening).begins
          obtain ⟨more, same⟩ := List.head?_eq_some_iff.mp first
          rw [renderChars_cons, same] at printed
          rw [(List.cons.inj printed).1, separates] at apart
          cases apart
        · obtain ⟨delimiter, rfl⟩ := not_forall_not.mp noOpening
          rw [renderChars_cons] at printed
          have first : delimiter.opening = c := (List.cons.inj printed).1
          subst first
          revert separates
          cases delimiter <;> decide
      have listed := stops c rfl
      simp only [List.mem_cons, List.not_mem_nil, or_false] at listed
      rcases listed with rfl | rfl | rfl | rfl
      · exact blank (by decide)
      · exact blank (by decide)
      · exact closes .parenthesis rfl
      · exact closes .bracket rfl

theorem Legible.solid (legible : Legible (t :: rest)) :
    ∃ c text, renderChars (t :: rest) = c :: text ∧ c ≠ ' ' := by
  by_cases noClosing : ∀ delimiter, t ≠ .closing delimiter
  · have goesOn := legible.not_stops noClosing
    rcases printed : renderChars (t :: rest) with _ | ⟨c, text⟩
    · rw [printed] at goesOn
      exact absurd stops_nil goesOn
    · refine ⟨c, text, rfl, ?_⟩
      rintro rfl
      rw [printed] at goesOn
      refine goesOn fun c first => ?_
      cases first
      decide
  · obtain ⟨delimiter, rfl⟩ := not_forall_not.mp noClosing
    exact ⟨_, _, renderChars_cons _ _, by cases delimiter <;> decide⟩

theorem Legible.goesOn_iff {c : Char} {joint : Bool} (legible : Legible rest) :
    (joint && goesOn rest) = false ↔
      Stops (gap (punct c joint) rest ++ renderChars rest) := by
  cases joint with
  | false => exact iff_of_true rfl (stops_gap rfl)
  | true =>
    rw [Bool.true_and]
    cases rest with
    | nil => exact iff_of_true rfl stops_nil
    | cons t rest =>
      by_cases noClosing : ∀ delimiter, t ≠ .closing delimiter
      · have open? : gap (punct c true) (t :: rest) = [] := by
          cases t with
          | closing delimiter => exact absurd rfl (noClosing delimiter)
          | _ => rfl
        have joins : goesOn (t :: rest) = true := by
          cases t with
          | closing delimiter => exact absurd rfl (noClosing delimiter)
          | _ => rfl
        rw [open?, List.nil_append, joins]
        exact iff_of_false nofun (legible.not_stops noClosing)
      · obtain ⟨delimiter, rfl⟩ := not_forall_not.mp noClosing
        refine iff_of_true rfl ?_
        rw [renderChars_cons]
        rintro c first
        cases delimiter <;> cases first <;> decide

theorem Legible.renderChars_eq {t u : Token} {rest more : List Token} (legible : Legible rest)
    (legible' : Legible more)
    (same : gap t rest ++ renderChars rest = gap u more ++ renderChars more) :
    renderChars rest = renderChars more := by
  have trim {t : Token} {rest : List Token} (legible : Legible rest) :
      (gap t rest ++ renderChars rest).dropWhile (· == ' ') = renderChars rest := by
    cases rest with
    | nil => rfl
    | cons u rest =>
      obtain ⟨c, text, printed, solid⟩ := legible.solid
      have kept : (c :: text).dropWhile (· == ' ') = c :: text :=
        List.dropWhile_cons_of_neg (by simpa using solid)
      rw [printed, gap]
      split
      · rw [List.singleton_append, List.dropWhile_cons_of_pos rfl, kept]
      · exact kept
  rw [← trim legible (t := t), same, trim legible']

/-- Legible tokens with the same text are the same, up to joints that are not printed. -/
theorem Legible.settle_eq {tokens others : List Token} (legible : Legible tokens)
    (legible' : Legible others) (same : renderChars tokens = renderChars others) :
    settle tokens = settle others := by
  induction tokens generalizing others with
  | nil =>
    cases others with
    | nil => rfl
    | cons u more =>
      obtain ⟨c, text, printed, -⟩ := legible'.solid
      rw [printed] at same
      cases same
  | cons t rest ih =>
    cases others with
    | nil =>
      obtain ⟨c, text, printed, -⟩ := legible.solid
      rw [printed] at same
      cases same
    | cons u more =>
      obtain ⟨heads, tails⟩ := legible.head_eq legible' same
      have later := ih legible.tail legible'.tail
        (renderChars_eq legible.tail legible'.tail tails)
      cases t with
      | punct c joint =>
        cases u with
        | punct d joint' =>
          obtain ⟨rfl, -⟩ := Token.punct.inj heads
          rw [settle, settle, later]
          have joints : (joint && goesOn rest) = (joint' && goesOn more) := by
            rw [Bool.eq_iff_iff, ← not_iff_not, Bool.not_eq_true, Bool.not_eq_true,
              legible.tail.goesOn_iff (c := c), legible'.tail.goesOn_iff (c := c), tails]
          rw [joints]
        | _ => cases heads
      | _ =>
        cases u with
        | punct d joint' => cases heads
        | _ => cases heads <;> rw [settle, settle, later] <;> exact nofun

end Token

end Forwarding
