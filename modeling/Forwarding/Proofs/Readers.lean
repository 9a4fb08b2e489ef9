import Forwarding.Grammar.Text
import Mathlib.Tactic.Simproc.ExistsAndEq
/-!
Runs of readers. A run that succeeds is taken apart along the reader: what each step has given, and
what it has left to the next one.
-/

namespace Forwarding.Grammar.Parser

variable {α β : Type} {i j : Input}

/-- A reader gives a value and leaves an input behind. -/
def Reads (p : Parser α) (i : Input) (a : α) (j : Input) : Prop :=
  p.run i = .ok (a, j)

@[simp]
theorem reads_pure {a b : α} : Reads (pure a) i b j ↔ j = i ∧ b = a := by
  change Except.ok (a, i) = .ok (b, j) ↔ _
  rw [Except.ok.injEq, Prod.mk.injEq, and_comm, eq_comm (a := i)]
  simp only [eq_comm]

@[simp]
theorem reads_bind {p : Parser α} {f : α → Parser β} {b : β} :
    Reads (p >>= f) i b j ↔ ∃ a k, Reads p i a k ∧ Reads (f a) k b j := by
  change (Except.bind (p.run i) fun s => (f s.1).run s.2) = _ ↔ ∃ a k, p.run i = _ ∧ _
  cases p.run i with
  | error failure => simp [Except.bind]
  | ok found =>
    constructor
    · intro ran
      exact ⟨found.1, found.2, rfl, ran⟩
    · rintro ⟨a, k, same, ran⟩
      cases same
      exact ran

@[simp]
theorem reads_map {p : Parser α} {f : α → β} {b : β} :
    Reads (f <$> p) i b j ↔ ∃ a, Reads p i a j ∧ b = f a := by
  rw [map_eq_pure_bind, reads_bind]
  simp only [reads_pure]
  constructor
  · rintro ⟨a, k, ran, rfl, rfl⟩
    exact ⟨a, ran, rfl⟩
  · rintro ⟨a, ran, rfl⟩
    exact ⟨a, j, ran, rfl, rfl⟩

@[simp]
theorem reads_get {a : Input} : Reads get i a j ↔ j = i ∧ a = i := by
  change Except.ok (i, i) = .ok (a, j) ↔ _
  rw [Except.ok.injEq, Prod.mk.injEq, and_comm, eq_comm (a := i)]
  simp only [eq_comm]

@[simp]
theorem reads_set {s : Input} {u : PUnit} : Reads (set s) i u j ↔ j = s := by
  change Except.ok (PUnit.unit, s) = .ok (u, j) ↔ _
  simp [eq_comm]

@[simp]
theorem reads_throw {failure : ParseError} {a : α} : ¬ Reads (throw failure) i a j := by
  change ¬ Except.error failure = .ok (a, j)
  simp

@[simp]
theorem reads_fail {complaint : Complaint} {a : α} : ¬ Reads (fail complaint) i a j := by
  simp [fail]

@[simp]
theorem reads_failAt {place : Position} {complaint : Complaint} {a : α} :
    ¬ Reads (failAt place complaint) i a j := by
  simp [failAt]

@[simp]
theorem reads_failExpecting {alternatives : List Expectation} {a : α} :
    ¬ Reads (failExpecting alternatives) i a j := by
  simp [failExpecting]

@[simp]
theorem reads_place {position : Position} :
    Reads place i position j ↔
      j = i ∧ position = (i.rest.head?.map Lexeme.start).getD i.stop := by
  simp [place]

@[simp]
theorem reads_atEnd {flag : Bool} : Reads atEnd i flag j ↔ j = i ∧ flag = i.rest.isEmpty := by
  simp [atEnd]

@[simp]
theorem reads_peek {e : Expectation} {flag : Bool} :
    Reads (peek e) i flag j ↔ j = i ∧ flag = sees i.rest e := by
  simp [peek]

@[simp]
theorem reads_peek2 {e : Expectation} {flag : Bool} :
    Reads (peek2 e) i flag j ↔ j = i ∧ flag = sees (skipOne i.rest) e := by
  simp [peek2]

@[simp]
theorem reads_peek3 {e : Expectation} {flag : Bool} :
    Reads (peek3 e) i flag j ↔ j = i ∧ flag = sees (skipOne (skipOne i.rest)) e := by
  simp [peek3]

@[simp]
theorem reads_peekAny {alternatives : List Expectation} {flag : Bool} :
    Reads (peekAny alternatives) i flag j ↔ j = i ∧ flag = alternatives.any (sees i.rest) := by
  simp [peekAny]

@[simp]
theorem reads_seesOperator {symbols : String} {flag : Bool} :
    Reads (seesOperator symbols) i flag j ↔ j = i ∧ flag = sees i.rest (.operator symbols) := by
  simp [seesOperator]

@[simp]
theorem reads_seesWord {text : String} {flag : Bool} :
    Reads (seesWord text) i flag j ↔ j = i ∧ flag = sees i.rest (.word text) := by
  simp [seesWord]

@[simp]
theorem reads_skip {count : Nat} {u : Unit} :
    Reads (skip count) i u j ↔ j = { i with rest := i.rest.drop count } := by
  change Except.ok (PUnit.unit, _) = .ok (u, j) ↔ _
  simp [eq_comm]

/-- An identifier is read when it stands first and is no keyword. -/
theorem reads_identifier {name : String} :
    Reads identifier i name j ↔
      ∃ place rest, i.rest = .leaf (.ident name) place :: rest ∧ j = { i with rest } ∧
        isIdentifier name = true := by
  simp only [identifier, reads_bind, reads_get, existsAndEq]
  rcases i with ⟨rest, stop, leftover⟩
  rcases rest with _ | ⟨⟨token, place⟩ | _, rest⟩
  · simp
  · cases token with
    | ident text =>
      by_cases allowed : isIdentifier text = true
      · simp [allowed]
        grind
      · simp [allowed]
        grind
    | _ => simp
  · simp

/-- A word of any kind is read when it stands first. -/
theorem reads_anyWord {name : String} :
    Reads anyWord i name j ↔
      ∃ place rest, i.rest = .leaf (.ident name) place :: rest ∧ j = { i with rest } := by
  simp only [anyWord, reads_bind, reads_get, existsAndEq]
  rcases i with ⟨rest, stop, leftover⟩
  rcases rest with _ | ⟨⟨token, place⟩ | _, rest⟩
  · simp
  · cases token with
    | ident text =>
      simp
      grind
    | _ => simp
  · simp

theorem reads_ite {p q : Parser α} {condition : Prop} [Decidable condition] {a : α} :
    Reads (if condition then p else q) i a j ↔
      condition ∧ Reads p i a j ∨ ¬ condition ∧ Reads q i a j := by
  split <;> simp_all

theorem sees_word_iff {ahead : List Lexeme} {text : String} :
    sees ahead (.word text) = true ↔ ∃ place rest, ahead = .leaf (.ident text) place :: rest := by
  rcases ahead with _ | ⟨⟨token, place⟩ | _, rest⟩
  · simp [sees]
  · cases token <;> simp [sees]
  · simp [sees]

theorem reads_word {text : String} {tree : Tree} :
    Reads (word text) i tree j ↔
      ∃ place rest, i.rest = .leaf (.ident text) place :: rest ∧ j = { i with rest } ∧
        tree = .word text := by
  simp only [word, reads_bind, reads_seesWord]
  constructor
  · rintro ⟨flag, k, ⟨rfl, rfl⟩, ran⟩
    cases seen : sees k.rest (.word text) with
    | false => simp [seen] at ran
    | true =>
      obtain ⟨place, rest, ahead⟩ := sees_word_iff.mp seen
      rw [seen, if_pos rfl, reads_bind] at ran
      obtain ⟨_, _, skipped, ran⟩ := ran
      rw [reads_skip] at skipped
      rw [reads_pure, skipped, ahead] at ran
      exact ⟨place, rest, ahead, ran⟩
  · rintro ⟨place, rest, ahead, rfl, rfl⟩
    refine ⟨true, i, ⟨rfl, (sees_word_iff.mpr ⟨place, rest, ahead⟩).symm⟩, ?_⟩
    rw [if_pos rfl, reads_bind]
    exact ⟨(), _, reads_skip.mpr rfl, reads_pure.mpr ⟨by rw [ahead]; rfl, rfl⟩⟩

theorem reads_word? {text : String} {found : Option Tree} :
    Reads (word? text) i found j ↔
      (∃ tree, Reads (word text) i tree j ∧ found = some tree) ∨
        sees i.rest (.word text) = false ∧ j = i ∧ found = none := by
  simp only [word?, reads_bind, reads_seesWord]
  constructor
  · rintro ⟨flag, k, ⟨rfl, rfl⟩, ran⟩
    cases seen : sees k.rest (.word text) with
    | false =>
      rw [seen, if_neg (by decide), reads_pure] at ran
      exact .inr ⟨rfl, ran⟩
    | true =>
      rw [seen, if_pos rfl, reads_map] at ran
      exact .inl ran
  · rintro (⟨tree, ran, rfl⟩ | ⟨unseen, rfl, rfl⟩)
    · obtain ⟨place, rest, ahead, -⟩ := reads_word.mp ran
      refine ⟨true, i, ⟨rfl, (sees_word_iff.mpr ⟨place, rest, ahead⟩).symm⟩, ?_⟩
      rw [if_pos rfl, reads_map]
      exact ⟨tree, ran, rfl⟩
    · refine ⟨false, j, ⟨rfl, unseen.symm⟩, ?_⟩
      rw [if_neg (by decide), reads_pure]
      exact ⟨rfl, rfl⟩

section Binds

variable {b : β} {k : Input} {text : String} {place : Position} {ahead : List Lexeme}

theorem reads_get_bind {f : Input → Parser β} : Reads (get >>= f) i b k ↔ Reads (f i) i b k := by
  simp only [reads_bind, reads_get, existsAndEq, true_and]

theorem reads_peek_bind {e : Expectation} {f : Bool → Parser β} :
    Reads (peek e >>= f) i b k ↔ Reads (f (sees i.rest e)) i b k := by
  simp only [reads_bind, reads_peek, existsAndEq, true_and]

theorem reads_peekAny_bind {alternatives : List Expectation} {f : Bool → Parser β} :
    Reads (peekAny alternatives >>= f) i b k ↔
      Reads (f (alternatives.any (sees i.rest))) i b k := by
  simp only [reads_bind, reads_peekAny, existsAndEq, true_and]

theorem reads_seesWord_bind {f : Bool → Parser β} :
    Reads (seesWord text >>= f) i b k ↔ Reads (f (sees i.rest (.word text))) i b k :=
  reads_peek_bind

theorem reads_seesOperator_bind {symbols : String} {f : Bool → Parser β} :
    Reads (seesOperator symbols >>= f) i b k ↔
      Reads (f (sees i.rest (.operator symbols))) i b k :=
  reads_peek_bind

theorem reads_anyWord_bind {f : String → Parser β}
    (first : i.rest = .leaf (.ident text) place :: ahead) :
    Reads (anyWord >>= f) i b k ↔ Reads (f text) { i with rest := ahead } b k := by
  rw [reads_bind]
  constructor
  · rintro ⟨_, _, read, ran⟩
    obtain ⟨_, _, same, rfl⟩ := reads_anyWord.mp read
    rw [first] at same
    cases same
    exact ran
  · intro ran
    exact ⟨text, _, reads_anyWord.mpr ⟨place, ahead, first, rfl⟩, ran⟩

theorem reads_word?_bind {f : Option Tree → Parser β}
    (first : i.rest = .leaf (.ident text) place :: ahead) :
    Reads (word? text >>= f) i b k ↔
      Reads (f (some (.word text))) { i with rest := ahead } b k := by
  rw [reads_bind]
  constructor
  · rintro ⟨_, _, marked, ran⟩
    rcases reads_word?.mp marked with ⟨_, read, rfl⟩ | ⟨unseen, -⟩
    · obtain ⟨_, _, same, rfl, rfl⟩ := reads_word.mp read
      rw [first] at same
      cases same
      exact ran
    · rw [sees_word_iff.mpr ⟨place, ahead, first⟩] at unseen
      cases unseen
  · intro ran
    have read : Reads (word text) i (.word text) { i with rest := ahead } :=
      reads_word.mpr ⟨place, ahead, first, rfl, rfl⟩
    exact ⟨_, _, reads_word?.mpr (.inl ⟨_, read, rfl⟩), ran⟩

theorem reads_word?_bind_unseen {f : Option Tree → Parser β}
    (unseen : sees i.rest (.word text) = false) :
    Reads (word? text >>= f) i b k ↔ Reads (f none) i b k := by
  rw [word?, bind_assoc, reads_seesWord_bind, unseen, if_neg Bool.false_ne_true, pure_bind]

end Binds

theorem suffix_of_dropOperator {symbols : List Char} {ahead rest : List Lexeme}
    (found : dropOperator symbols ahead = some rest) : rest <:+ ahead := by
  fun_induction dropOperator symbols ahead with
  | case1 =>
    cases found
    exact List.suffix_cons _ _
  | case2 => cases found
  | case3 c more symbol joint place after _ holds ih =>
    exact (ih found).trans (List.suffix_cons _ _)
  | case4 => cases found
  | case5 => cases found

theorem length_of_dropOperator {symbols : List Char} {ahead rest : List Lexeme}
    (dropped : dropOperator symbols ahead = some rest) : rest.length < ahead.length := by
  fun_induction dropOperator symbols ahead with
  | case1 =>
    cases dropped
    exact Nat.lt_succ_self _
  | case2 => cases dropped
  | case3 d more symbol joint place after _ holds ih => exact Nat.lt_succ_of_lt (ih dropped)
  | case4 => cases dropped
  | case5 => cases dropped

theorem suffix_of_dropLiteral {ahead rest : List Lexeme} {tokens : List Token}
    (found : dropLiteral ahead = some (tokens, rest)) : rest <:+ ahead := by
  unfold dropLiteral at found
  split at found
  · cases found
    exact List.suffix_cons _ _
  · split at found <;> cases found
    exact List.suffix_cons _ _
  · split at found <;> cases found
    exact (List.suffix_cons _ _).trans (List.suffix_cons _ _)
  · cases found

theorem dropLifetime_eq_some_iff {ahead rest : List Lexeme} {name : String} :
    dropLifetime ahead = some (name, rest) ↔ ∃ start place,
      ahead = .leaf (.punct Token.apostrophe true) start :: .leaf (.ident name) place :: rest := by
  constructor
  · intro found
    unfold dropLifetime at found
    split at found
    · split at found
      · rename_i mark
        cases found
        exact ⟨_, _, by rw [beq_iff_eq.mp mark]⟩
      · cases found
    · cases found
  · rintro ⟨start, place, rfl⟩
    simp [dropLifetime]

theorem reads_operator {symbols : String} {tree : Tree} :
    Reads (operator symbols) i tree j ↔
      ∃ rest, dropOperator symbols.toList i.rest = some rest ∧ j = { i with rest } ∧
        tree = .operator symbols := by
  simp only [operator, reads_bind, reads_get, existsAndEq]
  cases dropOperator symbols.toList i.rest with
  | none => simp
  | some rest => simp

theorem sees_operator_iff {ahead : List Lexeme} {symbols : String} :
    sees ahead (.operator symbols) = true ↔ ∃ rest, dropOperator symbols.toList ahead = some rest := by
  simp [sees, Option.isSome_iff_exists]

theorem reads_operator? {symbols : String} {found : Option Tree} :
    Reads (operator? symbols) i found j ↔
      (∃ tree, Reads (operator symbols) i tree j ∧ found = some tree) ∨
        sees i.rest (.operator symbols) = false ∧ j = i ∧ found = none := by
  simp only [operator?, reads_bind, reads_seesOperator]
  constructor
  · rintro ⟨flag, k, ⟨rfl, rfl⟩, ran⟩
    cases seen : sees k.rest (.operator symbols) with
    | false =>
      rw [seen, if_neg (by decide), reads_pure] at ran
      exact .inr ⟨rfl, ran⟩
    | true =>
      rw [seen, if_pos rfl, reads_map] at ran
      exact .inl ran
  · rintro (⟨tree, ran, rfl⟩ | ⟨unseen, rfl, rfl⟩)
    · obtain ⟨rest, dropped, -⟩ := reads_operator.mp ran
      refine ⟨true, i, ⟨rfl, (sees_operator_iff.mpr ⟨rest, dropped⟩).symm⟩, ?_⟩
      rw [if_pos rfl, reads_map]
      exact ⟨tree, ran, rfl⟩
    · refine ⟨false, j, ⟨rfl, unseen.symm⟩, ?_⟩
      rw [if_neg (by decide), reads_pure]
      exact ⟨rfl, rfl⟩

theorem reads_grouped {delimiter : Delimiter} {p : Parser α} {i k : Input} {a : α} :
    Reads (grouped delimiter p) i a k ↔ ∃ body start stop rest m,
      i.rest = .group delimiter body start stop :: rest ∧ Reads p ⟨body, stop, i.leftover⟩ a m ∧
        k = { i with rest, leftover := m.leftover <|>
          m.rest.head?.map fun lexeme => (lexeme.start, delimiter) } := by
  simp only [grouped, reads_bind, reads_get, existsAndEq]
  rcases i with ⟨rest, stop, leftover⟩
  rcases rest with _ | ⟨_ | ⟨found, body, start, stop'⟩, rest⟩
  · simp
  · simp
  · by_cases same : found = delimiter
    · subst same
      simp only [if_true, reads_bind, reads_skip, within, reads_get, reads_set, reads_pure,
        existsAndEq, List.drop_succ_cons, List.drop_zero]
      grind
    · simp [same]

theorem reads_attempt {p : Parser α} {found : Option α} :
    Reads (attempt p) i found j ↔
      (∃ a, Reads p i a j ∧ found = some a) ∨ (∀ a k, ¬ Reads p i a k) ∧ found = none ∧ j = i := by
  simp only [attempt, reads_bind, reads_get, existsAndEq]
  cases ran : p.run i with
  | error failure =>
    have never (a : α) (k : Input) : ¬ Reads p i a k := by
      rw [Reads, ran]
      exact fun same => nomatch same
    simp [never, and_comm]
  | ok read =>
    obtain ⟨value, after⟩ := read
    have only (a : α) (k : Input) : Reads p i a k ↔ a = value ∧ k = after := by
      rw [Reads, ran, Except.ok.injEq, Prod.mk.injEq, eq_comm, eq_comm (a := after)]
    simp [only, and_comm]

theorem runAll_eq_ok_iff {p : Parser α} {lexemes : List Lexeme} {stop : Position} {a : α} :
    p.runAll lexemes stop = .ok a ↔
      ∃ j, Reads p ⟨lexemes, stop, none⟩ a j ∧ j.leftover = none ∧ j.rest = [] := by
  unfold Parser.runAll Reads
  cases p.run ⟨lexemes, stop, none⟩ with
  | error failure => simp [bind, Except.bind]
  | ok found =>
    obtain ⟨value, rest, _, leftover⟩ := found
    cases leftover <;> cases rest <;> simp [bind, Except.bind, pure, Except.pure, throw]

end Forwarding.Grammar.Parser
