import Forwarding.Proofs.RereadingParameters
/-!
Readers that pass over tokens. Of the value that such a reader gives only a part need be known, so
that a run can be followed over tokens of which it is only known that some reader accepts them.
-/

namespace Forwarding.Grammar.Parser

open Lexeme

variable {α β : Type} {tokens after : List Token} {known : α → Prop} {said : β → Prop}

/-- A reader passes over some of the tokens ahead, and something is known of the value it gives. -/
def Passes (p : Parser α) (tokens after : List Token) (known : α → Prop := fun _ => True) : Prop :=
  ∀ i : Input, i.leftover = none → Shows i.rest tokens →
    ∃ a j, Reads p i a j ∧ known a ∧ j.leftover = none ∧ Shows j.rest after

theorem Takes.passes {p : Parser α} {a : α} (taken : Takes p tokens a after) (own : known a) :
    Passes p tokens after known := by
  intro i none shown
  obtain ⟨rest, later, ran⟩ := taken i shown
  exact ⟨a, _, ran, own, none, later⟩

theorem passes_pure (a : α) : Passes (pure a) tokens tokens :=
  (takes_pure a).passes trivial

theorem Passes.mono {p : Parser α} {weaker : α → Prop} (given : Passes p tokens after known)
    (implied : ∀ a, known a → weaker a) : Passes p tokens after weaker := by
  intro i none shown
  obtain ⟨a, j, ran, own, left, later⟩ := given i none shown
  exact ⟨a, j, ran, implied a own, left, later⟩

/-- What is known of the first value leads on. -/
theorem Passes.bindOf {p : Parser α} {f : α → Parser β} {middle : List Token}
    (first : Passes p tokens middle known) (next : ∀ a, known a → Passes (f a) middle after said) :
    Passes (p >>= f) tokens after said := by
  intro i none shown
  obtain ⟨a, k, ran, own, left, shown'⟩ := first i none shown
  obtain ⟨b, j, ran', own', left', later⟩ := next a own k left shown'
  exact ⟨b, j, reads_bind.mpr ⟨a, k, ran, ran'⟩, own', left', later⟩

theorem Passes.bind {p : Parser α} {f : α → Parser β} {middle : List Token}
    (first : Passes p tokens middle known) (next : ∀ a, Passes (f a) middle after said) :
    Passes (p >>= f) tokens after said :=
  first.bindOf fun a _ => next a

theorem Takes.passes_bind {p : Parser α} {f : α → Parser β} {a : α} {middle : List Token}
    (first : Takes p tokens a middle) (next : Passes (f a) middle after said) :
    Passes (p >>= f) tokens after said := by
  have own : Passes p tokens middle fun b => b = a := first.passes rfl
  exact own.bindOf fun b same => same ▸ next

theorem Passes.map {p : Parser α} {f : α → β} (first : Passes p tokens after known)
    (implied : ∀ a, known a → said (f a)) : Passes (f <$> p) tokens after said := by
  intro i none shown
  obtain ⟨a, j, ran, own, left, later⟩ := first i none shown
  exact ⟨f a, j, reads_map.mpr ⟨a, ran, rfl⟩, implied a own, left, later⟩

theorem Tests.passes_bind {test : Parser α} {answer : List Token → α} (tested : Tests test answer)
    {f : α → Parser β} :
    Passes (test >>= f) tokens after said ↔ Passes (f (answer tokens)) tokens after said := by
  refine forall_congr' fun i => forall₂_congr fun _ shown => ?_
  simp only [reads_bind, tested i tokens shown]
  simp

theorem passes_peek_bind {e : Expectation} {f : Bool → Parser β} :
    Passes (peek e >>= f) tokens after said ↔ Passes (f (ahead tokens e)) tokens after said :=
  (tests_peek e).passes_bind

theorem passes_seesWord_bind {text : String} {f : Bool → Parser β} :
    Passes (seesWord text >>= f) tokens after said ↔
      Passes (f (ahead tokens (.word text))) tokens after said :=
  (tests_seesWord text).passes_bind

theorem passes_seesOperator_bind {symbols : String} {f : Bool → Parser β} :
    Passes (seesOperator symbols >>= f) tokens after said ↔
      Passes (f (ahead tokens (.operator symbols))) tokens after said :=
  (tests_seesOperator symbols).passes_bind

theorem passes_peekAny_bind {alternatives : List Expectation} {f : Bool → Parser β} :
    Passes (peekAny alternatives >>= f) tokens after said ↔
      Passes (f (alternatives.any (ahead tokens))) tokens after said :=
  (tests_peekAny alternatives).passes_bind

theorem passes_atEnd_bind {f : Bool → Parser β} :
    Passes (atEnd >>= f) tokens after said ↔ Passes (f tokens.isEmpty) tokens after said :=
  tests_atEnd.passes_bind

/-- The input as it is. -/
theorem passes_get_bind {f : Input → Parser β}
    (each : ∀ i : Input, i.leftover = none → Shows i.rest tokens →
      Passes (f i) tokens after said) :
    Passes (get >>= f) tokens after said := by
  intro i none shown
  obtain ⟨b, j, ran, rest⟩ := each i none shown i none shown
  exact ⟨b, j, reads_bind.mpr ⟨i, i, reads_get.mpr ⟨rfl, rfl⟩, ran⟩, rest⟩

/-- A step back to an input that shows some tokens. -/
theorem passes_set_bind {s : Input} {f : PUnit → Parser β} {middle : List Token}
    (none : s.leftover = none) (shown : Shows s.rest middle)
    (next : ∀ u, Passes (f u) middle after said) : Passes (set s >>= f) tokens after said := by
  intro i _ _
  obtain ⟨b, j, ran, rest⟩ := next .unit s none shown
  exact ⟨b, j, reads_bind.mpr ⟨_, s, reads_set.mpr rfl, ran⟩, rest⟩

theorem passes_place_bind {f : Position → Parser β}
    (each : ∀ position, Passes (f position) tokens after said) :
    Passes (place >>= f) tokens after said := by
  intro i none shown
  obtain ⟨b, j, ran, rest⟩ := each _ i none shown
  exact ⟨b, j, reads_bind.mpr ⟨_, i, reads_place.mpr ⟨rfl, rfl⟩, ran⟩, rest⟩

theorem passes_peek2_bind {e : Expectation} {f : Bool → Parser β}
    (each : ∀ flag, Passes (f flag) tokens after said) :
    Passes (peek2 e >>= f) tokens after said := by
  intro i none shown
  obtain ⟨b, j, ran, rest⟩ := each _ i none shown
  exact ⟨b, j, reads_bind.mpr ⟨_, i, reads_peek2.mpr ⟨rfl, rfl⟩, ran⟩, rest⟩

theorem passes_peek3_bind {e : Expectation} {f : Bool → Parser β}
    (each : ∀ flag, Passes (f flag) tokens after said) :
    Passes (peek3 e >>= f) tokens after said := by
  intro i none shown
  obtain ⟨b, j, ran, rest⟩ := each _ i none shown
  exact ⟨b, j, reads_bind.mpr ⟨_, i, reads_peek3.mpr ⟨rfl, rfl⟩, ran⟩, rest⟩

/-- A group is passed over when a reader passes over all that stands in it. -/
theorem passes_grouped {delimiter : Delimiter} {p : Parser α} {inner : List Token}
    (given : Passes p inner [] known) (matched : IsMatched inner) :
    Passes (grouped delimiter p) (.opening delimiter :: (inner ++ .closing delimiter :: after))
      after known := by
  intro i none shown
  obtain ⟨body, start, stop, rest, same, inside, later⟩ := shown.exists_group matched
  obtain ⟨a, j, ran, own, left, nothing⟩ := given ⟨body, stop, i.leftover⟩ none inside
  cases empty : j.rest with
  | cons lexeme more =>
    rw [empty] at nothing
    cases nothing
  | nil =>
    refine ⟨a, { i with rest, leftover := .none }, ?_, own, rfl, later⟩
    simp only [grouped, reads_bind, reads_get, existsAndEq, same, if_true, reads_skip, within,
      reads_set, true_and, exists_const]
    refine ⟨a, j, ran, reads_pure.mpr ⟨?_, rfl⟩⟩
    rw [left, empty]
    rfl

theorem length_le_flatten {parts : List (List Token)}
    (each : ∀ part ∈ parts, IsMatched part ∧ part ≠ []) {lexemes : List Lexeme}
    (shown : Shows lexemes (parts.flatten ++ after)) : parts.length ≤ lexemes.length := by
  induction parts generalizing lexemes with
  | nil => exact Nat.zero_le _
  | cons part parts ih =>
    obtain ⟨matched, filled⟩ := each part List.mem_cons_self
    rw [List.flatten_cons, List.append_assoc] at shown
    obtain ⟨first, last, rfl, own, later⟩ := shown.exists_append matched
    have some : 0 < first.length := by
      rw [List.length_pos_iff]
      rintro rfl
      cases own
      exact filled rfl
    have more := ih (fun p member => each p (List.mem_cons_of_mem _ member)) later
    rw [List.length_append, List.length_cons]
    omega

/-- A step that passes over each of some parts and gives nothing after them is repeated over all of
them, and gives a value for each. What may stand after a part is what another part begins with or
what follows them all. -/
theorem passes_repeated_each {own : List Token → α → Prop} {step : Parser (Option α)}
    {parts : List (List Token)}
    (may : List Token → Prop) (goesOn : ∀ part ∈ parts, ∀ rest, may (part ++ rest))
    (last : may after)
    (each : ∀ part ∈ parts, (IsMatched part ∧ part ≠ []) ∧
      ∀ rest, may rest →
        Passes step (part ++ rest) rest fun found => ∃ a, found = some a ∧ own part a)
    (ended : Passes step after after (· = none)) :
    Passes (repeated step) (parts.flatten ++ after) after (List.Forall₂ own parts) := by
  refine passes_get_bind fun i _ shown => ?_
  have enough := length_le_flatten (fun part member => (each part member).1) shown
  clear shown
  generalize i.rest.length = count at enough
  induction parts generalizing count with
  | nil =>
    refine ended.bindOf fun a same => ?_
    subst same
    exact (takes_pure _).passes .nil
  | cons part parts ih =>
    rw [List.length_cons] at enough
    obtain ⟨count, rfl⟩ : ∃ n, count = n + 1 := ⟨count - 1, by omega⟩
    have next : may (parts.flatten ++ after) := by
      cases parts with
      | nil => exact last
      | cons second others =>
        rw [List.flatten_cons, List.append_assoc]
        exact goesOn second (List.mem_cons_of_mem _ List.mem_cons_self) _
    rw [List.flatten_cons, List.append_assoc]
    refine ((each part List.mem_cons_self).2 _ next).bindOf fun found read => ?_
    obtain ⟨a, rfl, first⟩ := read
    exact (ih (fun p member => goesOn p (List.mem_cons_of_mem _ member))
      (fun p member => each p (List.mem_cons_of_mem _ member)) count (by omega)).bindOf
        fun _ later => (takes_pure _).passes (.cons first later)

theorem passes_repeated {step : Parser (Option α)} {parts : List (List Token)}
    (may : List Token → Prop) (goesOn : ∀ part ∈ parts, ∀ rest, may (part ++ rest))
    (last : may after)
    (each : ∀ part ∈ parts, (IsMatched part ∧ part ≠ []) ∧
      ∀ rest, may rest → Passes step (part ++ rest) rest (·.isSome))
    (ended : Passes step after after (· = none)) :
    Passes (repeated step) (parts.flatten ++ after) after := by
  have given : ∀ part ∈ parts, (IsMatched part ∧ part ≠ []) ∧ ∀ rest, may rest →
      Passes step (part ++ rest) rest fun found => ∃ a, found = some a ∧ True := by
    refine fun part member => ⟨(each part member).1, fun rest next => ?_⟩
    refine ((each part member).2 rest next).mono fun found some => ?_
    obtain ⟨a, rfl⟩ := Option.isSome_iff_exists.mp some
    exact ⟨a, rfl, trivial⟩
  exact (passes_repeated_each may goesOn last given ended).mono fun _ _ => trivial

/-- Parts are passed over up to the end of what holds them, with a value for each. -/
theorem passes_untilEnd_each {own : List Token → α → Prop} {p : Parser α}
    {parts : List (List Token)}
    (each : ∀ part ∈ parts, (IsMatched part ∧ part ≠ []) ∧
      ∀ rest, Passes p (part ++ rest) rest (own part)) :
    Passes (untilEnd p) parts.flatten [] (List.Forall₂ own parts) := by
  rw [← List.append_nil parts.flatten]
  refine passes_repeated_each (fun _ => True) (fun _ _ _ => trivial) trivial
    (fun part member => ?_) ?_
  · obtain ⟨⟨matched, filled⟩, read⟩ := each part member
    refine ⟨⟨matched, filled⟩, fun rest _ => passes_atEnd_bind.mpr ?_⟩
    have some : (part ++ rest).isEmpty = false := by simp [filled]
    rw [some, if_neg Bool.false_ne_true]
    exact (read rest).map fun a known => ⟨a, rfl, known⟩
  · exact passes_atEnd_bind.mpr ((takes_pure _).passes rfl)

theorem passes_untilEnd {p : Parser α} {parts : List (List Token)}
    (each : ∀ part ∈ parts, (IsMatched part ∧ part ≠ []) ∧
      ∀ rest, Passes p (part ++ rest) rest) : Passes (untilEnd p) parts.flatten [] :=
  (passes_untilEnd_each each).mono fun _ _ => trivial

theorem passes_punctuatedUpTo {separator : String} (some : separator.toList ≠ [])
    (noMark : Token.apostrophe ∉ separator.toList) {stop : Parser Bool} {ends : List Token → Bool}
    (tested : Tests stop ends) {element : Parser α} {parts : List (List Token)}
    (each : ∀ part ∈ parts, ∀ rest,
      rest = after ∨ (∃ more, rest = Token.operator separator ++ more) →
        ends (part ++ rest) = false ∧ Passes element (part ++ rest) rest)
    (ended : ends after = true) (goesOn : ∀ more, ends (Token.operator separator ++ more) = false)
    {count : Nat} (enough : parts.length ≤ count) :
    Passes (punctuatedUpTo separator stop element (count + 1))
      (Token.separated separator false parts ++ after) after := by
  induction parts generalizing count with
  | nil =>
    rw [punctuatedUpTo, tested.passes_bind, Token.separated, List.nil_append, ended]
    exact passes_pure _
  | cons part parts ih =>
    rw [List.length_cons] at enough
    obtain ⟨count, rfl⟩ : ∃ n, count = n + 1 := ⟨count - 1, by omega⟩
    have first := each part List.mem_cons_self
    rw [punctuatedUpTo, tested.passes_bind, Token.separated, List.append_assoc]
    cases parts with
    | nil =>
      obtain ⟨begins, passed⟩ := first after (.inl rfl)
      rw [List.isEmpty_nil, Bool.not_false, Bool.and_self, if_pos rfl, List.nil_append, begins]
      refine passed.bind fun value => ?_
      rw [tested.passes_bind, ended]
      exact passes_pure _
    | cons second others =>
      rw [List.isEmpty_cons, Bool.false_and, if_neg Bool.false_ne_true, List.append_assoc]
      obtain ⟨begins, passed⟩ := first _ (.inr ⟨_, rfl⟩)
      rw [begins]
      refine passed.bind fun value => ?_
      rw [tested.passes_bind, goesOn]
      exact (takes_operator some noMark).passes_bind
        ((ih (fun p member => each p (List.mem_cons_of_mem _ member)) (by omega)).bind
          fun _ => passes_pure _)

/-- Parts with a separator between them are passed over up to what ends them. -/
theorem passes_punctuated {separator : String} (some : separator.toList ≠ [])
    (noMark : Token.apostrophe ∉ separator.toList) (matched : IsMatched (Token.operator separator))
    {stop : Parser Bool} {ends : List Token → Bool}
    (tested : Tests stop ends) {element : Parser α} {parts : List (List Token)}
    (parted : ∀ part ∈ parts, IsMatched part ∧ part ≠ [])
    (each : ∀ part ∈ parts, ∀ rest,
      rest = after ∨ (∃ more, rest = Token.operator separator ++ more) →
        ends (part ++ rest) = false ∧ Passes element (part ++ rest) rest)
    (ended : ends after = true)
    (goesOn : ∀ more, ends (Token.operator separator ++ more) = false) :
    Passes (punctuated separator stop element)
      (Token.separated separator false parts ++ after) after :=
  passes_get_bind fun _ _ shown => passes_punctuatedUpTo some noMark tested each ended goesOn
    (Shows.length_le matched parted shown)

end Forwarding.Grammar.Parser
