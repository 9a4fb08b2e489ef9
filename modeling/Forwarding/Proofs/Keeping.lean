import Mathlib
import Forwarding.Proofs.Readers
import Forwarding.Proofs.Lexemes
/-!
What readers keep. A fact about the lexemes ahead that also holds of those behind them and of the
content of their groups holds of whatever a reader leaves. The claims are triples: a precondition on
the input, a reader, and a condition on its value and on what it leaves when it succeeds.
-/

set_option mvcgen.warning false

open Std.Do

namespace Forwarding.Grammar

variable {α : Type}

/-- A triple speaks of the runs that succeed. -/
theorem triple_iff {p : Parser α} {pre : Input → Prop} {post : α → Input → Prop} :
    ⦃fun i => ⌜pre i⌝⦄ p ⦃⇓? a j => ⌜post a j⌝⦄ ↔
      ∀ i a j, pre i → p.Reads i a j → post a j := by
  have step (i : Input) : ((WP.wp p).apply (⇓? a j => ⌜post a j⌝) i).down ↔
      ∀ a j, p.Reads i a j → post a j := by
    unfold Parser.Reads
    show ((WP.wp (p.run i)).apply _).down ↔ _
    cases p.run i with
    | error failure => exact ⟨fun _ _ _ ran => (nomatch ran), fun _ => trivial⟩
    | ok found =>
      refine ⟨fun holds a j ran => ?_, fun each => each _ _ rfl⟩
      cases ran
      exact holds
  exact ⟨fun triple i a j given ran => (step i).mp (triple i given) a j ran,
    fun each i given => (step i).mpr fun a j => each i a j given⟩

/-- A fact about lexemes that holds of what a reader may leave of them: it reads words, operators,
lifetimes, literals and groups as a whole, or everything up to the end. -/
class Invariant where
  Holds : List Lexeme → Prop
  of_word {name : String} {place : Position} {rest : List Lexeme} :
    Holds (.leaf (.ident name) place :: rest) → Holds rest
  of_operator {symbols : List Char} {ahead rest : List Lexeme} :
    Holds ahead → dropOperator symbols ahead = some rest → Holds rest
  of_lifetime {name : String} {ahead rest : List Lexeme} :
    Holds ahead → dropLifetime ahead = some (name, rest) → Holds rest
  of_literal {tokens : List Token} {ahead rest : List Lexeme} :
    Holds ahead → dropLiteral ahead = some (tokens, rest) → Holds rest
  of_behind {delimiter : Delimiter} {body rest : List Lexeme} {start stop : Position} :
    Holds (.group delimiter body start stop :: rest) → Holds rest
  of_all {ahead : List Lexeme} : Holds ahead → Holds []

/-- A fact that holds of the content of groups as well. -/
class Invasive extends Invariant where
  of_group {delimiter : Delimiter} {body rest : List Lexeme} {start stop : Position} :
    Holds (.group delimiter body start stop :: rest) → Holds body

/-- A fact about lexemes that holds of whatever follows them and of the content of their groups. -/
@[reducible]
def Invasive.ofSuffix (Holds : List Lexeme → Prop)
    (of_suffix : ∀ {ahead rest : List Lexeme}, Holds ahead → rest <:+ ahead → Holds rest)
    (of_group : ∀ {delimiter : Delimiter} {body rest : List Lexeme} {start stop : Position},
      Holds (.group delimiter body start stop :: rest) → Holds body) : Invasive where
  Holds := Holds
  of_word known := of_suffix known (List.suffix_cons _ _)
  of_operator known dropped := of_suffix known (Parser.suffix_of_dropOperator dropped)
  of_lifetime known dropped := by
    obtain ⟨start, place, rfl⟩ := Parser.dropLifetime_eq_some_iff.mp dropped
    exact of_suffix (of_suffix known (List.suffix_cons _ _)) (List.suffix_cons _ _)
  of_literal known dropped := of_suffix known (Parser.suffix_of_dropLiteral dropped)
  of_behind known := of_suffix known (List.suffix_cons _ _)
  of_all known := of_suffix known List.nil_suffix
  of_group := of_group

open Invariant (Holds)

section Keeping

variable [Invariant]

/-- A reader that keeps what is known of the lexemes ahead. -/
abbrev Keeps (p : Parser α) : Prop :=
  ⦃fun i => ⌜Holds i.rest⌝⦄ p ⦃⇓? _ j => ⌜Holds j.rest⌝⦄

/-- A reader that keeps what is known of the lexemes ahead and gives values of a kind. -/
abbrev Yields (p : Parser α) (kind : α → Prop) : Prop :=
  ⦃fun i => ⌜Holds i.rest⌝⦄ p ⦃⇓? a j => ⌜Holds j.rest ∧ kind a⌝⦄

theorem keeps_of_yields {p : Parser α} {kind : α → Prop} (yields : Yields p kind) : Keeps p :=
  triple_iff.mpr fun i a j known ran => (triple_iff.mp yields i a j known ran).1

theorem Keeps.yields {p : Parser α} (keeps : Keeps p) : Yields p fun _ => True :=
  triple_iff.mpr fun i a j known ran => ⟨triple_iff.mp keeps i a j known ran, trivial⟩

theorem Yields.mono {p : Parser α} {kind other : α → Prop} (yields : Yields p kind)
    (implied : ∀ a, kind a → other a) : Yields p other :=
  triple_iff.mpr fun i a j known ran =>
    (triple_iff.mp yields i a j known ran).imp_right (implied a)

section Steps

variable {β : Type} {kind : α → Prop} {other : β → Prop} {next : β → Parser α}

theorem Yields.bind {p : Parser β} (first : Yields p other)
    (later : ∀ b, other b → Yields (next b) kind) : Yields (p >>= next) kind := by
  refine triple_iff.mpr fun i a j known ran => ?_
  obtain ⟨b, m, read, ran⟩ := Parser.reads_bind.mp ran
  obtain ⟨known, holds⟩ := triple_iff.mp first i b m known read
  exact triple_iff.mp (later b holds) m a j known ran

theorem Keeps.bind {p : Parser β} (first : Keeps p) (later : ∀ b, Yields (next b) kind) :
    Yields (p >>= next) kind :=
  first.yields.bind fun b _ => later b

theorem yields_pure {a : α} (holds : kind a) : Yields (pure a) kind := by
  mvcgen

theorem Yields.map {p : Parser β} {f : β → α} (yields : Yields p other)
    (mapped : ∀ b, other b → kind (f b)) : Yields (f <$> p) kind := by
  rw [map_eq_pure_bind]
  exact yields.bind fun b holds => yields_pure (mapped b holds)

variable {c : Prop} [Decidable c]

theorem Yields.ite {p q : Parser α} (yes : c → Yields p kind) (no : ¬ c → Yields q kind) :
    Yields (if c then p else q) kind := by
  split
  · exact yes ‹_›
  · exact no ‹_›

/-- A choice by a test of what stands ahead. -/
theorem Keeps.choose {test : Parser Bool} {f : Bool → Bool} {p q : Parser α} (first : Keeps test)
    (yes : Yields p kind) (no : Yields q kind) :
    Yields (test >>= fun seen => if f seen then p else q) kind :=
  first.bind fun _ => .ite (fun _ => yes) fun _ => no

/-- Both ways of a choice are followed by the same reader. -/
theorem Yields.either {p q : Parser β} (yes : Yields p other) (no : Yields q other)
    (later : ∀ b, other b → Yields (next b) kind) :
    Yields (if c then p >>= next else q >>= next) kind :=
  .ite (fun _ => yes.bind later) fun _ => no.bind later

/-- What follows several ways is read once for all of them. -/
theorem Yields.join {p : Parser α} (rest : β → Parser α) (other : β → Prop)
    (ways : (∀ b, other b → Yields (rest b) kind) → Yields p kind)
    (later : ∀ b, other b → Yields (rest b) kind) : Yields p kind :=
  ways later

end Steps

namespace Invariant

variable {ahead rest : List Lexeme} {start : Position}

theorem drop_word {name : String} (known : Holds ahead)
    (same : ahead = .leaf (.ident name) start :: rest) : Holds (ahead.drop 1) := by
  subst same
  exact of_word known

theorem drop_literal {text : String} (known : Holds ahead)
    (same : ahead = .leaf (.literal text) start :: rest) : Holds (ahead.drop 1) := by
  subst same
  exact of_literal known (show Grammar.dropLiteral _ = some ([.literal text], rest) from rfl)

theorem drop_group {delimiter : Delimiter} {body : List Lexeme} {stop : Position} (known : Holds ahead)
    (same : ahead = .group delimiter body start stop :: rest) : Holds (ahead.drop 1) := by
  subst same
  exact of_behind known

end Invariant

namespace Parser

omit [Invariant] in
@[spec]
theorem never_fail {complaint : Complaint} {post : α → Input → Prop} :
    ⦃fun _ => ⌜True⌝⦄ (fail complaint : Parser α) ⦃⇓? a j => ⌜post a j⌝⦄ :=
  triple_iff.mpr fun _ _ _ _ ran => absurd ran reads_fail

omit [Invariant] in
@[spec]
theorem never_failAt {place : Position} {complaint : Complaint} {post : α → Input → Prop} :
    ⦃fun _ => ⌜True⌝⦄ (failAt place complaint : Parser α) ⦃⇓? a j => ⌜post a j⌝⦄ :=
  triple_iff.mpr fun _ _ _ _ ran => absurd ran reads_failAt

omit [Invariant] in
@[spec]
theorem never_failExpecting {alternatives : List Expectation} {post : α → Input → Prop} :
    ⦃fun _ => ⌜True⌝⦄ (failExpecting alternatives : Parser α) ⦃⇓? a j => ⌜post a j⌝⦄ :=
  triple_iff.mpr fun _ _ _ _ ran => absurd ran reads_failExpecting

theorem yields_fail {complaint : Complaint} {kind : α → Prop} : Yields (fail complaint) kind :=
  triple_iff.mpr fun _ _ _ _ ran => absurd ran reads_fail

theorem yields_failAt {place : Position} {complaint : Complaint} {kind : α → Prop} :
    Yields (failAt place complaint) kind :=
  triple_iff.mpr fun _ _ _ _ ran => absurd ran reads_failAt

theorem yields_failExpecting {alternatives : List Expectation} {kind : α → Prop} :
    Yields (failExpecting alternatives) kind :=
  triple_iff.mpr fun _ _ _ _ ran => absurd ran reads_failExpecting

@[spec]
theorem keeps_skip {count : Nat} :
    ⦃fun i => ⌜Holds (i.rest.drop count)⌝⦄ skip count ⦃⇓? _ j => ⌜Holds j.rest⌝⦄ := by
  refine triple_iff.mpr fun i a j known ran => ?_
  rw [reads_skip.mp ran]
  exact known

-- What only looks ahead is opened wherever it is met.
attribute [spec] place atEnd peek peek2 peek3 peekAny seesOperator seesWord

/-- What is known of the lexemes ahead can be gone back to. -/
theorem yields_get : Yields (get : Parser Input) fun i => Holds i.rest := by
  mvcgen

theorem keeps_get : Keeps (get : Parser Input) :=
  keeps_of_yields yields_get

theorem keeps_set {i : Input} (known : Holds i.rest) : Keeps (set i : Parser PUnit) := by
  mvcgen

theorem keeps_place : Keeps place := by mvcgen

theorem keeps_peek {expectation : Expectation} : Keeps (peek expectation) := by mvcgen

theorem keeps_peek2 {expectation : Expectation} : Keeps (peek2 expectation) := by mvcgen

theorem keeps_peek3 {expectation : Expectation} : Keeps (peek3 expectation) := by mvcgen

theorem keeps_peekAny {expectations : List Expectation} : Keeps (peekAny expectations) := by mvcgen

theorem keeps_seesOperator {symbols : String} : Keeps (seesOperator symbols) := by mvcgen

theorem keeps_seesWord {text : String} : Keeps (seesWord text) := by mvcgen

/-- A word that is known to stand next. -/
theorem yields_seenWord {text : String} :
    ⦃fun i => ⌜Holds i.rest ∧ sees i.rest (.word text) = true⌝⦄ anyWord
      ⦃⇓? name j => ⌜Holds j.rest ∧ name = text⌝⦄ := by
  mvcgen [anyWord]
  · rename_i given _ _ _ ahead
    exact Invariant.drop_word given.1 ahead
  · rename_i given _ _ _ ahead _ _ known
    rw [ahead] at given
    exact ⟨known, beq_iff_eq.mp given.2⟩

@[spec low]
theorem keeps_anyWord : Keeps anyWord := by
  mvcgen [anyWord]
  rename_i known _ _ _ ahead
  exact Invariant.drop_word known ahead

@[spec low]
theorem keeps_identifier : Keeps identifier := by
  mvcgen [identifier]
  rename_i known _ _ _ ahead _
  exact Invariant.drop_word known ahead

@[spec low]
theorem keeps_lifetime : Keeps lifetime := by
  mvcgen [lifetime]
  rename_i known _ _ found
  exact Invariant.of_lifetime known found

@[spec]
theorem keeps_word {text : String} : Keeps (word text) := by
  mvcgen [word]
  rename_i known seen
  obtain ⟨place, rest, ahead⟩ := sees_word_iff.mp seen
  exact Invariant.drop_word known ahead

@[spec]
theorem keeps_operator {symbols : String} : Keeps (operator symbols) := by
  mvcgen [operator]
  rename_i known _ found
  exact Invariant.of_operator known found

@[spec]
theorem keeps_word? {text : String} : Keeps (word? text) := by
  mvcgen [word?]

@[spec]
theorem keeps_operator? {symbols : String} : Keeps (operator? symbols) := by
  mvcgen [operator?]

@[spec]
theorem keeps_lifetime? : Keeps lifetime? := by
  mvcgen [lifetime?]

@[spec]
theorem keeps_literal : Keeps literal := by
  mvcgen [literal]
  rename_i known _ _ found
  exact Invariant.of_literal known found

@[spec]
theorem keeps_stringLiteral : Keeps stringLiteral := by
  mvcgen [stringLiteral]
  rename_i known _ _ _ ahead _ _
  exact Invariant.drop_literal known ahead

@[spec]
theorem keeps_integerLiteral : Keeps integerLiteral := by
  mvcgen [integerLiteral]
  · rename_i known _ _ found _
    exact Invariant.of_literal known found
  · rename_i known _ _ _ found _
    exact Invariant.of_literal known found

@[spec]
theorem keeps_remaining : Keeps remaining := by
  mvcgen [remaining]
  rename_i known
  exact Invariant.of_all known

@[spec]
theorem keeps_anyGroup : Keeps anyGroup := by
  mvcgen [anyGroup]
  rename_i known _ _ _ _ _ ahead
  exact Invariant.drop_group known ahead

section Combinators

variable {p : Parser α} {kind : α → Prop} {stop : Parser Bool} {separator : String}

theorem yields_attempt (yields : Yields p kind) :
    Yields (attempt p) fun found => ∀ a ∈ found, kind a := by
  mvcgen [attempt]
  · rename_i known value _ ran
    have found := triple_iff.mp yields _ _ _ known ran
    exact ⟨found.1, fun a same => Option.some.inj same ▸ found.2⟩
  · rename_i known _ _
    exact ⟨known, by simp⟩

@[spec]
theorem keeps_lookingAhead : Keeps (lookingAhead p) := by
  mvcgen [lookingAhead]

@[spec low]
theorem keeps_verbatim (keeps : Keeps p) : Keeps (verbatim p) := by
  mvcgen [verbatim, keeps]

theorem yields_repeatUpTo {step : Parser (Option α)} (count : Nat)
    (yields : Yields step fun found => ∀ a ∈ found, kind a) :
    Yields (repeatUpTo step count) fun found => ∀ a ∈ found, kind a := by
  induction count with
  | zero =>
    mvcgen [repeatUpTo]
    simp_all
  | succ count ih =>
    mvcgen [repeatUpTo, yields, ih]
    all_goals simp_all

theorem yields_repeated {step : Parser (Option α)}
    (yields : Yields step fun found => ∀ a ∈ found, kind a) :
    Yields (repeated step) fun found => ∀ a ∈ found, kind a := by
  have each (count : Nat) := yields_repeatUpTo count yields
  mvcgen [repeated, each]

theorem yields_untilEnd (yields : Yields p kind) :
    Yields (untilEnd p) fun found => ∀ a ∈ found, kind a := by
  refine yields_repeated ?_
  mvcgen [yields]
  all_goals simp_all

theorem yields_punctuatedUpTo (separator : String) (count : Nat) (stops : Keeps stop)
    (yields : Yields p kind) :
    Yields (punctuatedUpTo separator stop p count) fun found => ∀ a ∈ found.1, kind a := by
  induction count with
  | zero =>
    mvcgen [punctuatedUpTo]
    simp_all
  | succ count ih =>
    mvcgen [punctuatedUpTo, stops, yields, ih]
    all_goals simp_all

theorem yields_punctuated (stops : Keeps stop) (yields : Yields p kind) :
    Yields (punctuated separator stop p) fun found => ∀ a ∈ found.1, kind a := by
  have each (count : Nat) := yields_punctuatedUpTo separator count stops yields
  mvcgen [punctuated, each]

theorem yields_sumUpTo (count : Nat) (stops : Keeps stop) (yields : Yields p kind) :
    Yields (sumUpTo stop p count) fun found => ∀ a ∈ found.1, kind a := by
  induction count with
  | zero =>
    mvcgen [sumUpTo]
    simp_all
  | succ count ih =>
    mvcgen [sumUpTo, stops, yields, ih]
    all_goals simp_all

theorem yields_sum (stops : Keeps stop) (yields : Yields p kind) :
    Yields (sum stop p) fun found => ∀ a ∈ found.1, kind a := by
  have each (count : Nat) := yields_sumUpTo count stops yields
  mvcgen [sum, each]

@[spec]
theorem keeps_sum (stops : Keeps stop) (keeps : Keeps p) : Keeps (sum stop p) :=
  keeps_of_yields (yields_sum stops keeps.yields)

@[spec low]
theorem keeps_grouped {delimiter : Delimiter} : Keeps (grouped delimiter p) := by
  refine triple_iff.mpr fun i a j known ran => ?_
  obtain ⟨body, _, _, rest, m, ahead, -, rfl⟩ := reads_grouped.mp ran
  rw [ahead] at known
  exact Invariant.of_behind known

@[spec]
theorem keeps_groupedTree {delimiter : Delimiter} {p : Parser (List Tree)} :
    Keeps (groupedTree delimiter p) := by
  mvcgen [groupedTree]

@[spec]
theorem keeps_attempt (keeps : Keeps p) : Keeps (attempt p) :=
  keeps_of_yields (yields_attempt keeps.yields)

@[spec]
theorem keeps_repeated {step : Parser (Option α)} (keeps : Keeps step) : Keeps (repeated step) :=
  keeps_of_yields (yields_repeated (keeps.yields.mono fun _ _ _ _ => trivial))

@[spec low]
theorem keeps_mapM {β : Type} {f : β → Parser α} {values : List β}
    (keeps : ∀ value, Keeps (f value)) : Keeps (values.mapM f) := by
  induction values with
  | nil => mvcgen [List.mapM_nil]
  | cons value rest ih =>
    rw [List.mapM_cons]
    mvcgen [keeps, ih]

@[spec low]
theorem keeps_punctuated (stops : Keeps stop) (keeps : Keeps p) :
    Keeps (punctuated separator stop p) :=
  keeps_of_yields (yields_punctuated stops keeps.yields)

end Combinators

end Parser

end Keeping

theorem Parser.yields_grouped [Invasive] {p : Parser α} {kind : α → Prop} {delimiter : Delimiter}
    (yields : Yields p kind) : Yields (grouped delimiter p) kind := by
  refine triple_iff.mpr fun i a j known ran => ?_
  obtain ⟨body, _, _, rest, m, ahead, read, rfl⟩ := reads_grouped.mp ran
  rw [ahead] at known
  exact ⟨Invariant.of_behind known,
    (triple_iff.mp yields _ _ _ (Invasive.of_group known) read).2⟩

end Forwarding.Grammar
