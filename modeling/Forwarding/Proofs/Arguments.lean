import Forwarding.Annotation
import Forwarding.Proofs.Magnitudes
import Forwarding.Proofs.Readers
/-!
Written arguments. A name is written with a string literal and a priority with an integer literal
behind at most two minus signs; a list of arguments has commas between its pieces and at most one
behind the last. Such lists are read to their end, and nothing else is.
-/

namespace Forwarding

namespace Grammar

theorem dropOperator_single_iff {c : Char} (plain : c ≠ Token.apostrophe)
    {ahead rest : List Lexeme} : dropOperator [c] ahead = some rest ↔
      ∃ joint place, ahead = .leaf (.punct c joint) place :: rest := by
  rcases ahead with _ | ⟨⟨token, place⟩ | _, after⟩
  · simp [dropOperator]
  · cases token with
    | punct symbol joint =>
      by_cases same : symbol = c
      · simp [dropOperator, same, plain]
      · simp [dropOperator, same]
    | _ => simp [dropOperator]
  · simp [dropOperator]

namespace Parser

variable {i j : Input}

/-- An operator of one character is read when that character stands first. -/
theorem reads_symbol {symbols : String} {c : Char} (single : symbols.toList = [c])
    (plain : c ≠ Token.apostrophe) {tree : Tree} :
    Reads (operator symbols) i tree j ↔
      ∃ joint place rest, i.rest = .leaf (.punct c joint) place :: rest ∧ j = { i with rest } ∧
        tree = .operator symbols := by
  rw [reads_operator, single]
  simp only [dropOperator_single_iff plain]
  constructor
  · rintro ⟨rest, ⟨joint, place, ahead⟩, read⟩
    exact ⟨joint, place, rest, ahead, read⟩
  · rintro ⟨joint, place, rest, ahead, read⟩
    exact ⟨rest, ⟨joint, place, ahead⟩, read⟩

theorem reads_stringLiteral {spelling said : String} :
    Reads stringLiteral i (spelling, said) j ↔
      ∃ place rest, i.rest = .leaf (.literal spelling) place :: rest ∧ j = { i with rest } ∧
        Literal.text? spelling = some said := by
  simp only [stringLiteral, reads_bind, reads_get, existsAndEq]
  rcases i with ⟨rest, stop, leftover⟩
  rcases rest with _ | ⟨⟨token, place⟩ | _, rest⟩
  · simp
  · cases token with
    | literal text =>
      cases value : Literal.text? text with
      | none =>
        simp [value]
        grind
      | some found =>
        simp [value]
        grind
    | _ => simp
  · simp

/-- A minus sign that stands before an integer belongs to the literal. -/
theorem reads_integerLiteral {negative : Bool} {spelling : String} :
    Reads integerLiteral i (negative, spelling) j ↔
      (Literal.integer? spelling).isSome = true ∧ ∃ place rest, j = { i with rest } ∧
        (negative = false ∧ i.rest = .leaf (.literal spelling) place :: rest ∨
          negative = true ∧ ∃ joint before, i.rest =
            .leaf (.punct '-' joint) before :: .leaf (.literal spelling) place :: rest) := by
  simp only [integerLiteral, reads_bind, reads_get, existsAndEq]
  rcases i with ⟨rest, stop, leftover⟩
  rcases rest with _ | ⟨⟨token, place⟩ | _, rest⟩
  · simp [dropLiteral]
  · cases token with
    | literal text =>
      by_cases integer : (Literal.integer? text).isSome = true
      · simp [dropLiteral, integer]
        grind
      · simp [dropLiteral, integer]
        grind
    | ident text =>
      by_cases truth : (text == "true" || text == "false") = true
      · simp [dropLiteral, truth]
      · simp [dropLiteral, truth]
    | punct symbol joint =>
      rcases rest with _ | ⟨⟨next, after⟩ | _, rest⟩
      · simp [dropLiteral]
      · cases next with
        | literal text =>
          by_cases minus : symbol = '-'
          · by_cases integer : (Literal.integer? text).isSome = true
            · simp [dropLiteral, integer, minus]
              grind
            · by_cases fraction : Literal.isFraction text = true
              · simp [dropLiteral, integer, minus, fraction]
                grind
              · simp [dropLiteral, integer, minus, fraction]
                grind
          · simp [dropLiteral, minus]
        | _ => simp [dropLiteral]
      · simp [dropLiteral]
    | _ => simp [dropLiteral]
  · simp [dropLiteral]

theorem reads_punctuatedUpTo_succ {α : Type} {element : Parser α} {separator : String}
    {found : List α × Bool} {count : Nat} :
    Reads (punctuatedUpTo separator atEnd element (count + 1)) i found j ↔
      i.rest.isEmpty = true ∧ j = i ∧ found = ([], true) ∨
        i.rest.isEmpty = false ∧ ∃ a k, Reads element i a k ∧
          (k.rest.isEmpty = true ∧ j = k ∧ found = ([a], false) ∨
            k.rest.isEmpty = false ∧ ∃ tree l more, Reads (operator separator) k tree l ∧
              Reads (punctuatedUpTo separator atEnd element count) l more j ∧
                found = (a :: more.1, more.2)) := by
  simp only [punctuatedUpTo, reads_bind, reads_atEnd, reads_ite, reads_pure, existsAndEq]
  grind

end Parser

end Grammar

namespace Annotation

open Grammar Grammar.Parser

/-- What a piece between commas says. -/
inductive Said where
  | name (text : String)
  | priority (signs magnitude : Nat)

def isMinus : Lexeme → Bool
  | .leaf (.punct symbol _) _ => symbol == '-'
  | _ => false

/-- The written form of an argument: a name with a string literal, or a priority with an integer
literal behind at most so many minus signs. -/
inductive Written (limit : Nat) : List Lexeme → Said → Prop
  | name (start equals place : Position) (joint : Bool) {spelling text : String}
      (value : Literal.text? spelling = some text) :
      Written limit [.leaf (.ident "name") start, .leaf (.punct '=' joint) equals,
        .leaf (.literal spelling) place] (.name text)
  | priority (start equals place : Position) (joint : Bool) {signs : List Lexeme}
      {spelling : String} (minus : ∀ sign ∈ signs, isMinus sign = true)
      (few : signs.length ≤ limit) (integer : (Literal.integer? spelling).isSome = true) :
      Written limit (.leaf (.ident "priority") start :: .leaf (.punct '=' joint) equals ::
        (signs ++ [.leaf (.literal spelling) place]))
        (.priority signs.length (Literal.magnitude spelling))

/-- The priority of a magnitude behind some signs. The first sign is applied to what the literal with
the second one gives. -/
def Signed (signs magnitude : Nat) (priority : Priority) : Prop :=
  ∃ value, priorityOf (1 < signs) magnitude = .ok value ∧
    priority = if signs = 0 then value else -value

theorem Signed.unique {signs magnitude : Nat} {a b : Priority} (left : Signed signs magnitude a)
    (right : Signed signs magnitude b) : a = b := by
  obtain ⟨value, given, rfl⟩ := left
  obtain ⟨value', given', rfl⟩ := right
  rw [given, Except.ok.injEq] at given'
  rw [given']

/-- The argument that is read of a piece. -/
inductive Said.Records : Said → Argument → Prop
  | name (text : String) (start : Position) : Records (.name text) (.name text start)
  | priority {signs magnitude : Nat} {value : Priority} (signed : Signed signs magnitude value) :
      Records (.priority signs magnitude) (.priority value)

section Reading

variable {i j : Input} {a : Argument}

theorem reads_equals {tree : Tree} : Reads (operator "=") i tree j ↔
    ∃ joint place rest, i.rest = .leaf (.punct '=' joint) place :: rest ∧ j = { i with rest } ∧
      tree = .operator "=" :=
  reads_symbol (by decide) (by decide)

theorem reads_minus {tree : Tree} : Reads (operator "-") i tree j ↔
    ∃ joint place rest, i.rest = .leaf (.punct '-' joint) place :: rest ∧ j = { i with rest } ∧
      tree = .operator "-" :=
  reads_symbol (by decide) (by decide)

theorem exists_minus {sign : Lexeme} (minus : isMinus sign = true) :
    ∃ joint place, sign = .leaf (.punct '-' joint) place := by
  rcases sign with ⟨token, place⟩ | _
  · cases token with
    | punct symbol joint =>
      rw [isMinus, beq_iff_eq] at minus
      exact ⟨joint, place, minus ▸ rfl⟩
    | _ => cases minus
  · cases minus

/-- Of two signs before an integer the second one belongs to the literal. -/
theorem reads_signed {signed negative : Bool} {spelling : String} :
    (∃ sign k, Reads (operator? "-") i sign k ∧ Reads integerLiteral k (negative, spelling) j ∧
        sign.isSome = signed) ↔
      (Literal.integer? spelling).isSome = true ∧
        ∃ (signs : List Lexeme) (place : Position) (rest : List Lexeme),
          (∀ sign ∈ signs, isMinus sign = true) ∧ signs.length ≤ 2 ∧
          i.rest = signs ++ .leaf (.literal spelling) place :: rest ∧ j = { i with rest } ∧
            negative = decide (1 < signs.length) ∧ signed = !decide (signs.length = 0) := by
  constructor
  · rintro ⟨sign, k, optional, literal, rfl⟩
    obtain ⟨integer, place, rest, rfl, ending⟩ := reads_integerLiteral.mp literal
    refine ⟨integer, ?_⟩
    rcases reads_operator?.mp optional with ⟨tree, one, rfl⟩ | ⟨none, rfl, rfl⟩
    · obtain ⟨joint, before, more, ahead, rfl, -⟩ := reads_minus.mp one
      dsimp only at ending
      rcases ending with ⟨rfl, ending⟩ | ⟨rfl, joint', between, ending⟩
      · exact ⟨[.leaf (.punct '-' joint) before], place, rest, by simp [isMinus], by simp,
          by rw [ahead, ending]; rfl, rfl, rfl, rfl⟩
      · exact ⟨[.leaf (.punct '-' joint) before, .leaf (.punct '-' joint') between], place, rest,
          by simp [isMinus], by simp, by rw [ahead, ending]; rfl, rfl, rfl, rfl⟩
    · rcases ending with ⟨rfl, ending⟩ | ⟨rfl, joint', between, ending⟩
      · exact ⟨[], place, rest, by simp, by simp, ending, rfl, rfl, rfl⟩
      · rw [ending] at none
        cases none
  · rintro ⟨integer, signs, place, rest, minus, few, ahead, rfl, rfl, rfl⟩
    rcases signs with _ | ⟨sign, _ | ⟨second, _ | ⟨third, more⟩⟩⟩
    · exact ⟨none, i, reads_operator?.mpr (.inr ⟨by rw [ahead]; rfl, rfl, rfl⟩),
        reads_integerLiteral.mpr ⟨integer, place, rest, rfl, .inl ⟨rfl, ahead⟩⟩, rfl⟩
    · obtain ⟨joint, before, rfl⟩ := exists_minus (minus sign (by simp))
      exact ⟨_, _, reads_operator?.mpr (.inl ⟨_, reads_minus.mpr ⟨joint, before, _, ahead, rfl, rfl⟩,
        rfl⟩), reads_integerLiteral.mpr ⟨integer, place, rest, rfl, .inl ⟨rfl, rfl⟩⟩, rfl⟩
    · obtain ⟨joint, before, rfl⟩ := exists_minus (minus sign (by simp))
      obtain ⟨joint', between, rfl⟩ := exists_minus (minus second (by simp))
      exact ⟨_, _, reads_operator?.mpr (.inl ⟨_, reads_minus.mpr ⟨joint, before, _, ahead, rfl, rfl⟩,
        rfl⟩), reads_integerLiteral.mpr ⟨integer, place, rest, rfl,
          .inr ⟨rfl, joint', between, rfl⟩⟩, rfl⟩
    · simp at few

theorem getD_magnitude {spelling : String} (integer : (Literal.integer? spelling).isSome = true) :
    ((Literal.integer? spelling).map (·.1)).getD 0 = Literal.magnitude spelling := by
  obtain ⟨⟨value, suffix⟩, read⟩ := Option.isSome_iff_exists.mp integer
  rw [read]
  exact Literal.integer?_eq_some read

/-- A priority is read as the model of its literal, after the sign that stands first. -/
theorem reads_priority {negated : Bool} {start : Position} :
    Reads (do
        let (negative, spelling) ← integerLiteral
        let magnitude := ((Literal.integer? spelling).map (·.1)).getD 0
        match priorityOf negative magnitude with
        | .ok value => return .priority (if negated then -value else value)
        | .error complaint => failAt start complaint) i a j ↔
      ∃ negative spelling value, Reads integerLiteral i (negative, spelling) j ∧
        priorityOf negative (Literal.magnitude spelling) = .ok value ∧
        a = .priority (if negated then -value else value) := by
  rw [reads_bind]
  constructor
  · rintro ⟨⟨negative, spelling⟩, k, literal, ran⟩
    have integer := (reads_integerLiteral.mp literal).1
    dsimp only at ran
    rw [getD_magnitude integer] at ran
    cases given : priorityOf negative (Literal.magnitude spelling) with
    | error complaint => simp [given] at ran
    | ok value =>
      rw [given, reads_pure] at ran
      obtain ⟨rfl, rfl⟩ := ran
      exact ⟨negative, spelling, value, literal, given, rfl⟩
  · rintro ⟨negative, spelling, value, literal, given, rfl⟩
    refine ⟨(negative, spelling), j, literal, ?_⟩
    dsimp only
    rw [getD_magnitude (reads_integerLiteral.mp literal).1, given, reads_pure]
    exact ⟨rfl, rfl⟩

theorem written_of_reads_argument (ran : Reads argument i a j) :
    ∃ piece said, Written 2 piece said ∧ i.rest = piece ++ j.rest ∧ j = { i with rest := j.rest } ∧
      said.Records a := by
  simp only [argument, reads_bind, reads_place, reads_identifier, reads_ite] at ran
  obtain ⟨begins, _, ⟨rfl, -⟩, word, _, ⟨start, rest, ahead, rfl, -⟩, ran⟩ := ran
  rcases ran with ⟨isName, ran⟩ | ⟨-, ⟨isPriority, ran⟩ | ⟨-, failed⟩⟩
  · obtain ⟨_, _, equals, begins', _, ⟨rfl, -⟩, ⟨spelling, text⟩, _, literal, ran⟩ := ran
    obtain ⟨joint, sign, after, ahead', rfl, -⟩ := reads_equals.mp equals
    obtain ⟨place, last, ahead'', rfl, value⟩ := reads_stringLiteral.mp literal
    rw [reads_pure] at ran
    obtain ⟨rfl, rfl⟩ := ran
    dsimp only at ahead' ahead''
    rw [ahead, beq_iff_eq.mp isName, ahead', ahead'']
    exact ⟨_, _, .name start sign place joint value, rfl, rfl, .name _ _⟩
  · obtain ⟨_, _, equals, _, _, optional, begins', _, ⟨rfl, -⟩, ran⟩ := ran
    obtain ⟨joint, sign, after, ahead', rfl, -⟩ := reads_equals.mp equals
    obtain ⟨negative, spelling, value, literal, given, rfl⟩ :=
      reads_priority.mp (reads_bind.mpr ran)
    obtain ⟨integer, signs, place, last, minus, few, ahead'', rfl, rfl, signed⟩ :=
      reads_signed.mp ⟨_, _, optional, literal, rfl⟩
    dsimp only at ahead' ahead''
    rw [ahead, beq_iff_eq.mp isPriority, ahead', ahead'', signed]
    refine ⟨_, _, .priority start sign place joint minus few integer, by simp, rfl,
      .priority ⟨value, given, ?_⟩⟩
    cases signs <;> rfl
  · exact absurd failed reads_failAt

/-- A written argument is read, whatever follows it. -/
theorem exists_reads_argument {piece rest : List Lexeme} {said : Said} {given : Argument}
    (written : Written 2 piece said) (records : said.Records given)
    (ahead : i.rest = piece ++ rest) : ∃ a, Reads argument i a { i with rest } ∧ said.Records a := by
  cases written with
  | @name start equals place joint spelling text value =>
    refine ⟨.name text place, ?_, .name text place⟩
    simp only [argument, reads_bind, reads_place, reads_identifier, reads_ite]
    exact ⟨_, _, ⟨rfl, rfl⟩, "name", _, ⟨start, _, ahead, rfl, by decide⟩,
      .inl ⟨rfl, _, _, reads_equals.mpr ⟨joint, equals, _, rfl, rfl, rfl⟩, _, _, ⟨rfl, rfl⟩,
        (spelling, text), _, reads_stringLiteral.mpr ⟨place, _, rfl, rfl, value⟩,
        reads_pure.mpr ⟨rfl, rfl⟩⟩⟩
  | @priority start equals place joint signs spelling minus few integer =>
    cases records with
    | priority signed =>
      obtain ⟨value, given, rfl⟩ := id signed
      refine ⟨_, ?_, .priority signed⟩
      obtain ⟨sign, k, optional, literal, first⟩ := (reads_signed
        (i := { i with rest := signs ++ .leaf (.literal spelling) place :: rest })).mpr
          ⟨integer, signs, place, rest, minus, few, rfl, rfl, rfl, rfl⟩
      simp only [argument, reads_bind, reads_place, reads_identifier, reads_ite]
      refine ⟨_, _, ⟨rfl, rfl⟩, "priority", _, ⟨start, _, ahead, rfl, by decide⟩,
        .inr ⟨by decide, .inl ⟨rfl, _, _, reads_equals.mpr ⟨joint, equals, _, rfl, rfl, rfl⟩,
          sign, k, by simpa using optional, _, _, ⟨rfl, rfl⟩, ?_⟩⟩⟩
      refine reads_bind.mp (reads_priority.mpr ⟨_, spelling, value, literal, given, ?_⟩)
      rw [first]
      cases signs <;> rfl

theorem Written.ne_nil {limit : Nat} {piece : List Lexeme} {said : Said}
    (written : Written limit piece said) : piece ≠ [] := by
  cases written <;> simp

theorem reads_comma {tree : Tree} : Reads (operator ",") i tree j ↔
    ∃ joint place rest, i.rest = .leaf (.punct ',' joint) place :: rest ∧ j = { i with rest } ∧
      tree = .operator "," :=
  reads_symbol (by decide) (by decide)

end Reading

/-- Pieces with commas between them and at most one comma behind the last. -/
inductive Listed : List (List Lexeme) → List Lexeme → Prop
  | nil : Listed [] []
  | last (piece : List Lexeme) : Listed [piece] piece
  | cons (piece : List Lexeme) (joint : Bool) (place : Position) {pieces : List (List Lexeme)}
      {rest : List Lexeme} (more : Listed pieces rest) :
      Listed (piece :: pieces) (piece ++ .leaf (.punct ',' joint) place :: rest)

section Lists

variable {i j : Input} {args : List Argument} {saids : List Said} {pieces : List (List Lexeme)}

theorem listed_of_reads {count : Nat} {trailing : Bool}
    (ran : Reads (punctuatedUpTo "," atEnd argument count) i (args, trailing) j)
    (complete : j.rest = []) :
    ∃ pieces saids, Listed pieces i.rest ∧ List.Forall₂ (Written 2) pieces saids ∧
      List.Forall₂ Said.Records saids args ∧ j = { i with rest := [] } := by
  have settled (k : Input) (none : k.rest = []) : k = { k with rest := [] } := none ▸ rfl
  induction count generalizing i args trailing with
  | zero =>
    rw [punctuatedUpTo, reads_pure] at ran
    obtain ⟨rfl, same⟩ := ran
    cases same
    exact ⟨[], [], complete ▸ .nil, .nil, .nil, settled _ complete⟩
  | succ count ih =>
    rcases reads_punctuatedUpTo_succ.mp ran with
      ⟨-, rfl, same⟩ | ⟨-, a, k, element, ⟨-, rfl, same⟩ | ⟨-, _, l, more, comma, rest, same⟩⟩
    · cases same
      exact ⟨[], [], complete ▸ .nil, .nil, .nil, settled _ complete⟩
    · cases same
      obtain ⟨piece, said, written, ahead, later, records⟩ := written_of_reads_argument element
      rw [complete, List.append_nil] at ahead
      rw [later, complete]
      exact ⟨[piece], [said], ahead ▸ .last piece, .cons written .nil, .cons records .nil, rfl⟩
    · cases same
      obtain ⟨piece, said, written, ahead, later, records⟩ := written_of_reads_argument element
      obtain ⟨joint, place, after, ahead', rfl, -⟩ := reads_comma.mp comma
      obtain ⟨pieces, saids, listed, all, given, final⟩ := ih rest
      rw [ahead, ahead']
      refine ⟨piece :: pieces, said :: saids, .cons piece joint place listed, .cons written all,
        .cons records given, ?_⟩
      rw [final, later]

/-- A list of written arguments is read to its end. -/
theorem exists_reads_punctuated {lexemes : List Lexeme} (listed : Listed pieces lexemes)
    (written : List.Forall₂ (Written 2) pieces saids) {givens : List Argument}
    (records : List.Forall₂ Said.Records saids givens) {count : Nat}
    (enough : lexemes.length < count) (ahead : i.rest = lexemes) :
    ∃ args trailing, Reads (punctuatedUpTo "," atEnd argument count) i (args, trailing)
        { i with rest := [] } ∧ List.Forall₂ Said.Records saids args := by
  induction listed generalizing i count saids givens with
  | nil =>
    obtain ⟨count, rfl⟩ := Nat.exists_eq_add_one_of_ne_zero (Nat.ne_of_gt enough)
    cases written
    cases records
    exact ⟨[], true, reads_punctuatedUpTo_succ.mpr
      (.inl ⟨by simp [ahead], ahead ▸ rfl, rfl⟩), .nil⟩
  | last piece =>
    obtain ⟨count, rfl⟩ := Nat.exists_eq_add_one_of_ne_zero (Nat.ne_zero_of_lt enough)
    cases written with
    | cons own others =>
      cases others
      cases records with
      | cons given others =>
        cases others
        obtain ⟨a, element, records⟩ := exists_reads_argument own given
          (ahead.trans (List.append_nil piece).symm)
        exact ⟨[a], false, reads_punctuatedUpTo_succ.mpr (.inr ⟨by simp [ahead, own.ne_nil], a, _,
          element, .inl ⟨rfl, rfl, rfl⟩⟩), .cons records .nil⟩
  | @cons piece joint place pieces rest more ih =>
    obtain ⟨count, rfl⟩ := Nat.exists_eq_add_one_of_ne_zero (Nat.ne_zero_of_lt enough)
    cases written with
    | cons own others =>
      cases records with
      | cons given later =>
        have fewer := enough
        simp only [List.length_append, List.length_cons] at fewer
        obtain ⟨a, element, records⟩ := exists_reads_argument own given ahead
        obtain ⟨args, trailing, ran, all⟩ : ∃ args trailing,
            Reads (punctuatedUpTo "," atEnd argument count) { i with rest } (args, trailing)
              { i with rest := [] } ∧ List.Forall₂ Said.Records _ args :=
          ih others later (by omega) rfl
        exact ⟨a :: args, trailing, reads_punctuatedUpTo_succ.mpr (.inr ⟨by simp [ahead], a, _,
          element, .inr ⟨by simp, _, _, (args, trailing),
            reads_comma.mpr ⟨joint, place, _, rfl, rfl, rfl⟩, ran, rfl⟩⟩), .cons records all⟩

end Lists

end Annotation

end Forwarding
