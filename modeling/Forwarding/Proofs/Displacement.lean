import Forwarding.Annotation
import Mathlib.Data.List.Forall2
/-!
Displaced lexemes. The arguments of an attribute are read from the tokens of their lexemes, wherever
these stand: the same arguments at other places give the same annotation, or a failure with the same
text.
-/

namespace Forwarding

/-- Lexemes with the same tokens at places of their own. -/
inductive Lexeme.Alike : List Lexeme → List Lexeme → Prop
  | nil : Alike [] []
  | leaf (token : Token) (place other : Position) {rest rest' : List Lexeme}
      (later : Alike rest rest') : Alike (.leaf token place :: rest) (.leaf token other :: rest')
  | group (delimiter : Delimiter) (start stop start' stop' : Position)
      {body body' rest rest' : List Lexeme} (inside : Alike body body') (later : Alike rest rest') :
      Alike (.group delimiter body start stop :: rest) (.group delimiter body' start' stop' :: rest')

mutual

/-- Whether two lexemes differ in their places only. -/
def Lexeme.same : Lexeme → Lexeme → Bool
  | .leaf token _, .leaf other _ => token == other
  | .group delimiter body _ _, .group other body' _ _ => delimiter == other && sameAll body body'
  | _, _ => false

/-- Whether lexemes differ in their places only. -/
def Lexeme.sameAll : List Lexeme → List Lexeme → Bool
  | [], [] => true
  | lexeme :: rest, other :: others => lexeme.same other && sameAll rest others
  | _, _ => false

end

namespace Lexeme.Alike

open Grammar

theorem of_sameAll (a b : List Lexeme) (same : sameAll a b = true) : Alike a b := by
  cases a with
  | nil =>
    cases b with
    | nil => exact .nil
    | cons => cases same
  | cons first rest =>
    cases b with
    | nil => cases same
    | cons other others =>
      rw [sameAll, Bool.and_eq_true] at same
      have later := of_sameAll rest others same.2
      have own := same.1
      cases first with
      | leaf token place =>
        cases other with
        | leaf token' place' =>
          rw [Lexeme.same, beq_iff_eq] at own
          exact own ▸ .leaf token place place' later
        | group => cases own
      | group delimiter body start stop =>
        cases other with
        | leaf => cases own
        | group delimiter' body' start' stop' =>
          rw [Lexeme.same, Bool.and_eq_true, beq_iff_eq] at own
          exact own.1 ▸ .group delimiter start stop start' stop' (of_sameAll body body' own.2) later

variable {a b : List Lexeme}

theorem length_eq (alike : Alike a b) : a.length = b.length := by
  induction alike with
  | nil => rfl
  | leaf token place other later ih => rw [List.length_cons, List.length_cons, ih]
  | group delimiter start stop start' stop' inside later inner ih =>
    rw [List.length_cons, List.length_cons, ih]

theorem isEmpty_eq (alike : Alike a b) : a.isEmpty = b.isEmpty := by
  cases alike <;> rfl

theorem dropOperator (alike : Alike a b) (symbols : List Char) :
    Option.Rel Alike (dropOperator symbols a) (dropOperator symbols b) := by
  induction alike generalizing symbols with
  | nil => rcases symbols with _ | ⟨c, _ | _⟩ <;> exact .none
  | group delimiter start stop start' stop' inside later inner ih =>
    rcases symbols with _ | ⟨c, _ | _⟩ <;> exact .none
  | leaf token place other later ih =>
    cases token with
    | punct symbol joint =>
      rcases symbols with _ | ⟨c, _ | ⟨d, more⟩⟩
      · exact .none
      · simp only [Grammar.dropOperator]
        split
        · exact .some later
        · exact .none
      · simp only [Grammar.dropOperator]
        split
        · exact ih _
        · exact .none
    | _ => rcases symbols with _ | ⟨c, _ | _⟩ <;> exact .none

/-- The same tokens of a literal, and what stands after it. -/
theorem dropLiteral (alike : Alike a b) :
    Option.Rel (fun found other => found.1 = other.1 ∧ Alike found.2 other.2)
      (dropLiteral a) (dropLiteral b) := by
  cases alike with
  | nil => exact .none
  | group delimiter start stop start' stop' inside later => exact .none
  | leaf token place other later =>
    cases token with
    | ident text =>
      simp only [Grammar.dropLiteral]
      split
      · exact .some ⟨rfl, later⟩
      · exact .none
    | literal text => exact .some ⟨rfl, later⟩
    | punct symbol joint =>
      cases later with
      | nil => exact .none
      | group => exact .none
      | leaf next place' other' last =>
        cases next with
        | literal text =>
          simp only [Grammar.dropLiteral]
          split
          · exact .some ⟨rfl, last⟩
          · exact .none
        | _ => exact .none
    | opening => exact .none
    | closing => exact .none

theorem sees_operator (alike : Alike a b) (symbols : String) :
    sees a (.operator symbols) = sees b (.operator symbols) := by
  have same := alike.dropOperator symbols.toList
  simp only [sees]
  generalize Grammar.dropOperator symbols.toList a = found at same ⊢
  generalize Grammar.dropOperator symbols.toList b = other at same ⊢
  cases same <;> rfl

theorem drop (alike : Alike a b) (count : Nat) : Alike (a.drop count) (b.drop count) := by
  induction alike generalizing count with
  | nil =>
    rw [List.drop_nil]
    exact .nil
  | leaf token place other later ih =>
    cases count with
    | zero => exact .leaf token place other later
    | succ count => exact ih count
  | group delimiter start stop start' stop' inside later inner ih =>
    cases count with
    | zero => exact .group delimiter start stop start' stop' inside later
    | succ count => exact ih count

end Lexeme.Alike

namespace Grammar

/-- Errors that say the same. -/
def ParseError.Same (a b : ParseError) : Prop :=
  a.atEnd = b.atEnd ∧ a.complaint = b.complaint

theorem ParseError.Same.message {a b : ParseError} (same : a.Same b) : a.message = b.message := by
  rw [ParseError.message, ParseError.message, same.1, same.2]

/-- Inputs with the same tokens ahead, where no group was left unread. -/
structure Input.Alike (i j : Input) : Prop where
  rest : Lexeme.Alike i.rest j.rest
  leftover : i.leftover = none ∧ j.leftover = none

/-- Runs that end alike: with related values and inputs, or with errors that say the same. -/
inductive EndsAlike {α : Type} (related : α → α → Prop) :
    Except ParseError (α × Input) → Except ParseError (α × Input) → Prop
  | ok {a b : α} {i j : Input} (values : related a b) (inputs : i.Alike j) :
      EndsAlike related (.ok (a, i)) (.ok (b, j))
  | error {a b : ParseError} (same : a.Same b) : EndsAlike related (.error a) (.error b)

namespace Parser

variable {α β : Type} {related : α → α → Prop} {others : β → β → Prop}

/-- Readers that end alike on inputs that are alike. -/
def Displaced (p q : Parser α) (related : α → α → Prop) : Prop :=
  ∀ i j : Input, i.Alike j → EndsAlike related (p.run i) (q.run j)

theorem Displaced.bind {p q : Parser α} {f g : α → Parser β} (first : Displaced p q related)
    (next : ∀ a b, related a b → Displaced (f a) (g b) others) :
    Displaced (p >>= f) (q >>= g) others := by
  intro i j alike
  have ran := first i j alike
  rw [StateT.run_bind, StateT.run_bind]
  generalize p.run i = found at ran ⊢
  generalize q.run j = other at ran ⊢
  cases ran with
  | ok values inputs => exact next _ _ values _ _ inputs
  | error same => exact .error same

theorem displaced_pure {a b : α} (same : related a b) : Displaced (pure a) (pure b) related :=
  fun _ _ alike => .ok same alike

theorem displaced_get : Displaced get get Input.Alike :=
  fun _ _ alike => .ok alike alike

theorem displaced_set {i j : Input} (alike : i.Alike j) {rest rest' : List Lexeme}
    (later : Lexeme.Alike rest rest') :
    Displaced (set { i with rest }) (set { j with rest := rest' }) fun _ _ => True :=
  fun _ _ _ => .ok trivial ⟨later, alike.leftover⟩

theorem displaced_place : Displaced place place fun _ _ => True :=
  displaced_get.bind fun _ _ _ => displaced_pure trivial

theorem displaced_atEnd : Displaced atEnd atEnd Eq :=
  displaced_get.bind fun _ _ alike => displaced_pure alike.rest.isEmpty_eq

theorem displaced_failAt (place other : Position) (complaint : Complaint) :
    Displaced (failAt place complaint) (failAt other complaint) related :=
  fun _ _ _ => .error ⟨rfl, rfl⟩

theorem displaced_fail (complaint : Complaint) :
    Displaced (fail complaint) (fail complaint) related :=
  displaced_place.bind fun _ _ _ => displaced_atEnd.bind fun _ _ same _ _ _ => .error ⟨same, rfl⟩

theorem displaced_seesOperator (symbols : String) :
    Displaced (seesOperator symbols) (seesOperator symbols) Eq :=
  displaced_get.bind fun _ _ alike => displaced_pure (alike.rest.sees_operator symbols)

theorem displaced_skip (count : Nat) : Displaced (skip count) (skip count) fun _ _ => True :=
  fun _ _ alike => .ok trivial ⟨alike.rest.drop count, alike.leftover⟩

theorem displaced_operator (symbols : String) :
    Displaced (operator symbols) (operator symbols) Eq := by
  refine displaced_get.bind fun i j alike => ?_
  have same := alike.rest.dropOperator symbols.toList
  generalize dropOperator symbols.toList i.rest = found at same ⊢
  generalize dropOperator symbols.toList j.rest = other at same ⊢
  cases same with
  | none => exact displaced_place.bind fun _ _ _ => displaced_failAt _ _ _
  | some later =>
    exact (displaced_set alike later).bind fun _ _ _ => displaced_pure rfl

theorem displaced_operator? (symbols : String) :
    Displaced (operator? symbols) (operator? symbols) Eq := by
  refine (displaced_seesOperator symbols).bind fun seen _ same => same ▸ ?_
  cases seen with
  | false => exact displaced_pure rfl
  | true =>
    exact (displaced_operator symbols).bind fun _ _ same => displaced_pure (congrArg some same)

theorem displaced_identifier : Displaced identifier identifier Eq := by
  refine displaced_get.bind fun i j alike => ?_
  have ahead := alike.rest
  generalize i.rest = rest at ahead ⊢
  generalize j.rest = rest' at ahead ⊢
  cases ahead with
  | nil => exact displaced_fail _
  | group => exact displaced_fail _
  | leaf token =>
    cases token with
    | ident text =>
      dsimp only
      split
      · exact (displaced_skip 1).bind fun _ _ _ => displaced_pure rfl
      · exact displaced_fail _
    | _ => exact displaced_fail _

theorem displaced_stringLiteral : Displaced stringLiteral stringLiteral Eq := by
  refine displaced_get.bind fun i j alike => ?_
  have ahead := alike.rest
  generalize i.rest = rest at ahead ⊢
  generalize j.rest = rest' at ahead ⊢
  cases ahead with
  | nil => exact displaced_fail _
  | group => exact displaced_fail _
  | leaf token =>
    cases token with
    | literal spelling =>
      dsimp only
      split
      · exact (displaced_skip 1).bind fun _ _ _ => displaced_pure rfl
      · exact displaced_fail _
    | _ => exact displaced_fail _

theorem displaced_integerLiteral : Displaced integerLiteral integerLiteral Eq := by
  refine displaced_get.bind fun i j alike => ?_
  have same := alike.rest.dropLiteral
  generalize dropLiteral i.rest = found at same ⊢
  generalize dropLiteral j.rest = other at same ⊢
  cases same with
  | none => exact displaced_fail _
  | @some found other same =>
    obtain ⟨tokens, rest⟩ := found
    obtain ⟨_, rest'⟩ := other
    obtain ⟨rfl, later⟩ := same
    have literal (negative : Bool) (spelling : String) :
        Displaced
          (if (Literal.integer? spelling).isSome then do
            set { i with rest }
            return (negative, spelling)
          else fail (.expected [.integerLiteral]))
          (if (Literal.integer? spelling).isSome then do
            set { j with rest := rest' }
            return (negative, spelling)
          else fail (.expected [.integerLiteral])) Eq := by
      split
      · exact (displaced_set alike later).bind fun _ _ _ => displaced_pure rfl
      · exact displaced_fail _
    rcases tokens with _ | ⟨first, _ | ⟨second, more⟩⟩
    · exact displaced_fail _
    · cases first with
      | literal spelling => exact literal false spelling
      | _ => exact displaced_fail _
    · cases more <;> cases first <;> cases second <;>
        first | exact displaced_fail _ | exact literal true _

/-- Elements that are read alike are read alike one after another. -/
theorem displaced_punctuatedUpTo {element : Parser α} (each : Displaced element element related)
    (separator : String) (count : Nat) :
    Displaced (punctuatedUpTo separator atEnd element count)
      (punctuatedUpTo separator atEnd element count)
      fun a b => List.Forall₂ related a.1 b.1 ∧ a.2 = b.2 := by
  induction count with
  | zero => exact displaced_pure ⟨.nil, rfl⟩
  | succ count ih =>
    rw [punctuatedUpTo]
    refine displaced_atEnd.bind fun ends _ same => same ▸ ?_
    cases ends with
    | true => exact displaced_pure ⟨.nil, rfl⟩
    | false =>
      refine each.bind fun a b value => displaced_atEnd.bind fun ends _ same => same ▸ ?_
      cases ends with
      | true => exact displaced_pure ⟨.cons value .nil, rfl⟩
      | false =>
        refine (displaced_operator separator).bind fun _ _ _ => ih.bind fun _ _ more => ?_
        exact displaced_pure ⟨.cons value more.1, more.2⟩

theorem displaced_punctuated {element : Parser α} (each : Displaced element element related)
    (separator : String) :
    Displaced (punctuated separator atEnd element) (punctuated separator atEnd element)
      fun a b => List.Forall₂ related a.1 b.1 ∧ a.2 = b.2 := by
  refine displaced_get.bind fun i j alike => ?_
  rw [alike.rest.length_eq]
  exact displaced_punctuatedUpTo each separator _

theorem runAll_displaced {p : Parser α} (displaced : Displaced p p Eq) {a b : List Lexeme}
    (alike : Lexeme.Alike a b) (stop stop' : Position) :
    (∃ value, p.runAll a stop = .ok value ∧ p.runAll b stop' = .ok value) ∨
      ∃ error error', p.runAll a stop = .error error ∧ p.runAll b stop' = .error error' ∧
        error.Same error' := by
  have ran := displaced ⟨a, stop, none⟩ ⟨b, stop', none⟩ ⟨alike, rfl, rfl⟩
  unfold Parser.runAll
  generalize p.run ⟨a, stop, none⟩ = found at ran ⊢
  generalize p.run ⟨b, stop', none⟩ = other at ran ⊢
  cases ran with
  | error same => exact .inr ⟨_, _, rfl, rfl, same⟩
  | @ok value _ i j same inputs =>
    subst same
    obtain ⟨rest, none, none'⟩ := inputs
    obtain ⟨rest, _, _⟩ := i
    obtain ⟨rest', _, _⟩ := j
    dsimp only at none none'
    subst none none'
    dsimp only [bind, Except.bind, throw, throwThe, MonadExceptOf.throw]
    cases rest with
    | nil => exact .inl ⟨value, rfl, rfl⟩
    | leaf => exact .inr ⟨_, _, rfl, rfl, rfl, rfl⟩
    | group => exact .inr ⟨_, _, rfl, rfl, rfl, rfl⟩

end Parser

end Grammar

namespace Annotation

open Grammar Grammar.Parser

/-- Arguments that are the same apart from the places of their literals. -/
inductive Argument.Alike : Argument → Argument → Prop
  | name (value : String) (start other : Position) : Alike (.name value start) (.name value other)
  | priority (value : Priority) : Alike (.priority value) (.priority value)

theorem displaced_argument : Displaced argument argument Argument.Alike := by
  refine displaced_place.bind fun start other _ => displaced_identifier.bind fun name _ same =>
    same ▸ ?_
  split
  · refine (displaced_operator "=").bind fun _ _ _ => displaced_place.bind fun start other _ =>
      displaced_stringLiteral.bind fun _ said same => same ▸ ?_
    exact displaced_pure (.name _ _ _)
  · split
    · refine (displaced_operator "=").bind fun _ _ _ => (displaced_operator? "-").bind
        fun minus _ same => same ▸ displaced_place.bind fun start other _ =>
          displaced_integerLiteral.bind fun read _ same => same ▸ ?_
      obtain ⟨negative, spelling⟩ := read
      dsimp only
      split
      · exact displaced_pure (.priority _)
      · exact displaced_failAt _ _ _
    · exact displaced_failAt _ _ _

/-- What is collected is the same apart from the place of the name. -/
theorem displaced_collect {found others : List Argument}
    (alike : List.Forall₂ Argument.Alike found others) {name other : Option (String × Position)}
    (same : name.map Prod.fst = other.map Prod.fst) (priority : Option Priority) :
    Displaced (collect name priority found) (collect other priority others)
      fun a b => a.1.map Prod.fst = b.1.map Prod.fst ∧ a.2 = b.2 := by
  induction alike generalizing name other priority with
  | nil => exact displaced_pure ⟨same, rfl⟩
  | cons first later ih =>
    cases first with
    | name value start other =>
      have given := congrArg Option.isSome same
      rw [Option.isSome_map, Option.isSome_map] at given
      rw [collect, collect, given]
      split
      · exact displaced_failAt _ _ _
      · have same : (some (value, start)).map Prod.fst = (some (value, other)).map Prod.fst := rfl
        exact ih same priority
    | priority value =>
      rw [collect, collect]
      split
      · exact displaced_fail _
      · exact ih same (some value)

theorem displaced_arguments : Displaced arguments arguments Eq := by
  refine (displaced_punctuated displaced_argument ",").bind fun a b alike =>
    (displaced_collect alike.1 rfl none).bind fun found other same => ?_
  obtain ⟨name, priority⟩ := found
  obtain ⟨name', priority'⟩ := other
  obtain ⟨same, rfl⟩ := same
  cases name with
  | none =>
    cases name' with
    | none => exact displaced_fail _
    | some => cases same
  | some given =>
    cases name' with
    | none => cases same
    | some given' =>
      obtain ⟨name, start⟩ := given
      obtain ⟨name', start'⟩ := given'
      cases same
      dsimp only
      split
      · exact displaced_pure rfl
      · exact displaced_failAt _ _ _

/-- The same arguments at other places give the same annotation, or fail with the same text. -/
theorem parseLexemes_displaced {a b : List Lexeme} (alike : Lexeme.Alike a b)
    (stop stop' : Position) :
    (∃ annotation, parseLexemes (fun _ => arguments) a stop = .ok annotation ∧
        parseLexemes (fun _ => arguments) b stop' = .ok annotation) ∨
      ∃ error error', parseLexemes (fun _ => arguments) a stop = .error error ∧
        parseLexemes (fun _ => arguments) b stop' = .error error' ∧ error.Same error' :=
  runAll_displaced displaced_arguments alike stop stop'

end Annotation

end Forwarding
