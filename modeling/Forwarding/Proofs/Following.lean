import Forwarding.Proofs.Continuing
import Mathlib.Data.List.Forall2
/-!
Readers that follow other readers. Wherever the first reader succeeds, the second one does on the same
tokens before further lexemes, with a related value, and leaves what the first one leaves and then these
lexemes.
-/

namespace Forwarding.Grammar

open Lexeme (Closed)

/-- Where two readers are compared. -/
structure Context where
  /-- The lexemes after those of the first reader. -/
  after : List Lexeme
  ends : EndsType after
  /-- Whether the first reader leaves a lexeme. -/
  inside : Bool
  /-- More lexemes than are ahead of the first reader. -/
  count : Option Nat

namespace Context

/-- The readers are on the same tokens, and nothing is known of what they leave. -/
def bare : Context :=
  ⟨[], fun _ first => (nomatch first), false, none⟩

variable (c : Context)

/-- The same place, where the first reader leaves a lexeme. -/
def inner : Context :=
  { c with inside := true }

/-- The same place, where so many lexemes are more than those ahead. -/
def upTo (n : Nat) : Context :=
  { c with count := some n }

theorem inner_ne_bare : c.inner ≠ bare := by
  intro same
  cases congrArg inside same

theorem upTo_ne_bare (n : Nat) : c.upTo n ≠ bare := by
  intro same
  cases congrArg count same

/-- Whether what stands after a type cannot be taken for something. -/
def Quiet (e : Expectation) : Prop :=
  e.endsType = false ∨ c.inside = true ∨ c.after = []

end Context

namespace Parser

variable {α β γ δ : Type} {c : Context} {related : α → β → Prop} {others : γ → δ → Prop}

/-- A reader that follows another one. -/
structure Follows (c : Context) (related : α → β → Prop) (p : Parser α) (q : Parser β) : Prop where
  shrinks : c ≠ .bare → ∀ {i a k}, Reads p i a k → k.rest <:+ i.rest
  follows : ∀ {i j}, i.Prolongs c.after j → (∀ n ∈ c.count, i.rest.length < n) →
    ∀ {a k}, Reads p i a k → (c.inside = true → k.rest ≠ []) →
      ∃ b l, Reads q j b l ∧ related a b ∧ k.Prolongs c.after l

/-- A reader that leaves at least as much as one after it. -/
theorem ne_nil_of_suffix {l m : List Lexeme} (suffix : m <:+ l) (filled : m ≠ []) : l ≠ [] := by
  rintro rfl
  exact filled (List.suffix_nil.mp suffix)

theorem follows_never {p : Parser α} {q : Parser β} (never : ∀ i a k, ¬ Reads p i a k) :
    Follows c related p q :=
  ⟨fun _ _ _ _ ran => absurd ran (never _ _ _), fun _ _ _ _ ran => absurd ran (never _ _ _)⟩

theorem follows_fail {complaint : Complaint} {q : Parser β} :
    Follows c related (fail complaint) q :=
  follows_never fun _ _ _ => reads_fail

theorem follows_failAt {place : Position} {complaint : Complaint} {q : Parser β} :
    Follows c related (failAt place complaint) q :=
  follows_never fun _ _ _ => reads_failAt

theorem follows_fail_bind {complaint : Complaint} {f : α → Parser γ} {q : Parser δ} :
    Follows c others (fail complaint >>= f) q := by
  refine follows_never fun _ _ _ ran => ?_
  obtain ⟨_, _, failed, -⟩ := reads_bind.mp ran
  exact reads_fail failed

theorem follows_failAt_bind {place : Position} {complaint : Complaint} {f : α → Parser γ}
    {q : Parser δ} : Follows c others (failAt place complaint >>= f) q := by
  refine follows_never fun _ _ _ ran => ?_
  obtain ⟨_, _, failed, -⟩ := reads_bind.mp ran
  exact reads_failAt failed

theorem follows_failExpecting {alternatives : List Expectation} {q : Parser β} :
    Follows c related (failExpecting alternatives) q :=
  follows_never fun _ _ _ => reads_failExpecting

theorem follows_failExpecting_bind {alternatives : List Expectation} {f : α → Parser γ}
    {q : Parser δ} : Follows c others (failExpecting alternatives >>= f) q := by
  refine follows_never fun _ _ _ ran => ?_
  obtain ⟨_, _, failed, -⟩ := reads_bind.mp ran
  exact reads_failExpecting failed

theorem follows_pure {a : α} {b : β} (same : related a b) : Follows c related (pure a) (pure b) where
  shrinks _ _ _ _ ran := by
    obtain ⟨rfl, -⟩ := reads_pure.mp ran
    exact List.suffix_rfl
  follows prolongs _ _ _ ran _ := by
    obtain ⟨rfl, rfl⟩ := reads_pure.mp ran
    exact ⟨b, _, reads_pure.mpr ⟨rfl, rfl⟩, same, prolongs⟩

/-- One reader after another. Values without a counterpart are ruled out unless nothing is to be known
of what is left. -/
theorem Follows.bindOf {p : Parser α} {q : Parser β} {f : α → Parser γ} {h : β → Parser δ}
    (first : Follows c related p q) (total : c = .bare ∨ ∀ a, ∃ b, related a b)
    (next : ∀ a b, related a b → Follows c others (f a) (h b)) :
    Follows c others (p >>= f) (q >>= h) := by
  have later : c ≠ .bare → ∀ {a i b k}, Reads (f a) i b k → k.rest <:+ i.rest := by
    intro some a i b k ran
    obtain ⟨b', same⟩ := (total.resolve_left some) a
    exact (next a b' same).shrinks some ran
  refine ⟨fun some i a k ran => ?_, fun {i j} prolongs few a m ran left => ?_⟩
  · obtain ⟨_, _, ran, ran'⟩ := reads_bind.mp ran
    exact (later some ran').trans (first.shrinks some ran)
  · obtain ⟨value, k, ran, ran'⟩ := reads_bind.mp ran
    have some_left (inside : c.inside = true) : k.rest ≠ [] := by
      refine ne_nil_of_suffix (later ?_ ran') (left inside)
      rintro rfl
      cases inside
    have fewer (n : Nat) (given : n ∈ c.count) : k.rest.length < n := by
      refine Nat.lt_of_le_of_lt (first.shrinks ?_ ran).length_le (few n given)
      rintro rfl
      cases given
    obtain ⟨b, l, read, same, prolongs⟩ := first.follows prolongs few ran some_left
    obtain ⟨d, l', read', same', prolongs'⟩ := (next value b same).follows prolongs fewer ran' left
    exact ⟨d, l', reads_bind.mpr ⟨b, l, read, read'⟩, same', prolongs'⟩

theorem Follows.bind {p q : Parser α} {f : α → Parser γ} {h : α → Parser δ}
    (first : Follows c Eq p q) (next : ∀ a, Follows c others (f a) (h a)) :
    Follows c others (p >>= f) (q >>= h) :=
  first.bindOf (.inr fun a => ⟨a, rfl⟩) fun a _ same => same ▸ next a

/-- One reader after another, where the first one begins by keeping the input. -/
theorem Follows.bindHere {p q : Input → Parser α} {f : α → Parser γ} {h : α → Parser δ}
    (first : Follows c Eq (get >>= p) (get >>= q)) (next : ∀ a, Follows c others (f a) (h a)) :
    Follows c others (get >>= fun i => p i >>= f) (get >>= fun i => q i >>= h) := by
  rw [← bind_assoc, ← bind_assoc]
  exact first.bind next

theorem Follows.map {p q : Parser α} {f : α → γ} (first : Follows c Eq p q) :
    Follows c Eq (f <$> p) (f <$> q) := by
  rw [map_eq_pure_bind, map_eq_pure_bind]
  exact first.bind fun _ => follows_pure rfl

theorem Follows.ite {condition : Prop} [Decidable condition] {p p' : Parser α} {q q' : Parser β}
    (first : Follows c related p q) (second : Follows c related p' q') :
    Follows c related (if condition then p else p') (if condition then q else q') := by
  split
  · exact first
  · exact second

/-- A choice between two readers before a third one. -/
theorem follows_choose {condition : Prop} [Decidable condition] {p p' q q' : Parser α}
    {f : α → Parser γ} {h : α → Parser δ} (first : Follows c Eq p q) (second : Follows c Eq p' q')
    (next : ∀ a, Follows c others (f a) (h a)) :
    Follows c others (if condition then p >>= f else p' >>= f)
      (if condition then q >>= h else q' >>= h) :=
  .ite (first.bind next) (second.bind next)

theorem follows_pure_bind {a : α} {f : α → Parser γ} {h : α → Parser δ}
    (next : Follows c others (f a) (h a)) : Follows c others (pure a >>= f) (pure a >>= h) := by
  rwa [pure_bind, pure_bind]

/-- A reader that leaves a lexeme because the one after it needs one. -/
theorem Follows.bindInner {p q : Parser α} {f : α → Parser γ} {h : α → Parser δ}
    (first : Follows c.inner Eq p q) (needs : ∀ {a i b k}, Reads (f a) i b k → i.rest ≠ [])
    (next : ∀ a, Follows c others (f a) (h a)) : Follows c others (p >>= f) (q >>= h) := by
  refine ⟨fun some i a k ran => ?_, fun {i j} prolongs few a m ran left => ?_⟩
  · obtain ⟨_, _, ran, ran'⟩ := reads_bind.mp ran
    exact ((next _).shrinks some ran').trans (first.shrinks c.inner_ne_bare ran)
  · obtain ⟨value, k, ran, ran'⟩ := reads_bind.mp ran
    have fewer (n : Nat) (given : n ∈ c.count) : k.rest.length < n :=
      Nat.lt_of_le_of_lt (first.shrinks c.inner_ne_bare ran).length_le (few n given)
    obtain ⟨_, l, read, rfl, prolongs⟩ := first.follows prolongs few ran fun _ => needs ran'
    obtain ⟨d, l', read', same', prolongs'⟩ := (next value).follows prolongs fewer ran' left
    exact ⟨d, l', reads_bind.mpr ⟨value, l, read, read'⟩, same', prolongs'⟩

/-- A reader that keeps the input, and leaves a lexeme because the one after it needs one. -/
theorem Follows.bindInnerHere {p q : Input → Parser α} {f : α → Parser γ} {h : α → Parser δ}
    (first : Follows c.inner Eq (get >>= p) (get >>= q))
    (needs : ∀ {a i b k}, Reads (f a) i b k → i.rest ≠ [])
    (next : ∀ a, Follows c others (f a) (h a)) :
    Follows c others (get >>= fun i => p i >>= f) (get >>= fun i => q i >>= h) := by
  rw [← bind_assoc, ← bind_assoc]
  exact first.bindInner needs next

theorem follows_get : Follows c (Input.Prolongs c.after) get get where
  shrinks _ _ _ _ ran := by
    obtain ⟨rfl, -⟩ := reads_get.mp ran
    exact List.suffix_rfl
  follows prolongs _ _ _ ran _ := by
    obtain ⟨rfl, rfl⟩ := reads_get.mp ran
    exact ⟨_, _, reads_get.mpr ⟨rfl, rfl⟩, prolongs, prolongs⟩

/-- Places are not compared. -/
theorem follows_place_bind {f : Position → Parser γ} {h : Position → Parser δ}
    (next : ∀ a b, Follows c others (f a) (h b)) : Follows c others (place >>= f) (place >>= h) := by
  have read : Follows c (fun _ _ : Position => True) place place := by
    refine ⟨fun _ _ _ _ ran => ?_, fun prolongs _ _ _ ran _ => ?_⟩
    · obtain ⟨rfl, -⟩ := reads_place.mp ran
      exact List.suffix_rfl
    · rw [(reads_place.mp ran).1]
      exact ⟨_, _, reads_place.mpr ⟨rfl, rfl⟩, trivial, prolongs⟩
  exact read.bindOf (.inr fun a => ⟨a, trivial⟩) fun a b _ => next a b

section Tests

/-- A test of what stands next. -/
theorem follows_test {test : Parser Bool} (answer : List Lexeme → Bool)
    (tests : ∀ {i flag k}, Reads test i flag k ↔ k = i ∧ flag = answer i.rest)
    (same : ∀ {i j : Input}, i.Prolongs c.after j → (c.inside = true → i.rest ≠ []) →
      answer j.rest = answer i.rest) : Follows c Eq test test where
  shrinks _ _ _ _ ran := by
    obtain ⟨rfl, -⟩ := tests.mp ran
    exact List.suffix_rfl
  follows prolongs _ _ _ ran left := by
    obtain ⟨rfl, rfl⟩ := tests.mp ran
    exact ⟨_, _, tests.mpr ⟨rfl, rfl⟩, (same prolongs left).symm, prolongs⟩

theorem sees_eq_of_quiet {e : Expectation} (quiet : c.Quiet e) {i j : Input}
    (prolongs : i.Prolongs c.after j) (left : c.inside = true → i.rest ≠ []) :
    sees j.rest e = sees i.rest e := by
  refine prolongs.sees_eq c.ends ?_
  rcases quiet with other | inside | none
  · exact .inl other
  · exact .inr (.inl (left inside))
  · exact .inr (.inr none)

theorem follows_peek {e : Expectation} (quiet : c.Quiet e) : Follows c Eq (peek e) (peek e) :=
  follows_test (sees · e) reads_peek (sees_eq_of_quiet quiet)

theorem follows_seesOperator {symbols : String} (quiet : c.Quiet (.operator symbols)) :
    Follows c Eq (seesOperator symbols) (seesOperator symbols) :=
  follows_peek quiet

theorem follows_seesWord {text : String} : Follows c Eq (seesWord text) (seesWord text) :=
  follows_peek (.inl rfl)

theorem follows_peekAny {alternatives : List Expectation}
    (quiet : ∀ e ∈ alternatives, c.Quiet e) :
    Follows c Eq (peekAny alternatives) (peekAny alternatives) := by
  refine follows_test (fun rest => alternatives.any (sees rest)) reads_peekAny
    fun prolongs left => ?_
  rw [Bool.eq_iff_iff, List.any_eq_true, List.any_eq_true]
  refine exists_congr fun e => and_congr_right fun member => ?_
  rw [sees_eq_of_quiet (quiet e member) prolongs left]

/-- A test without which the reader fails. -/
theorem follows_required_bind {e : Expectation} {f : Bool → Parser γ} {h : Bool → Parser δ}
    (never : ∀ i a k, ¬ Reads (f false) i a k) (next : Follows c others (f true) (h true)) :
    Follows c others (peek e >>= f) (peek e >>= h) := by
  have seen {i k : Input} {a : γ} (ran : Reads (peek e >>= f) i a k) :
      sees i.rest e = true ∧ Reads (f true) i a k := by
    simp only [reads_bind, reads_peek, existsAndEq, true_and] at ran
    cases answer : sees i.rest e with
    | true => exact ⟨rfl, answer ▸ ran⟩
    | false => exact absurd (answer ▸ ran) (never _ _ _)
  refine ⟨fun some _ _ _ ran => next.shrinks some (seen ran).2, fun prolongs few a k ran left => ?_⟩
  obtain ⟨met, ran⟩ := seen ran
  obtain ⟨b, l, read, same, later⟩ := next.follows prolongs few ran left
  refine ⟨b, l, ?_, same, later⟩
  simp only [reads_bind, reads_peek, existsAndEq, true_and]
  rwa [prolongs.sees_eq c.ends (.inr (.inl (filled_of_sees met))), met]

/-- Two tests, of which the second one matters when the first one is met. -/
theorem follows_both_bind {test test' : Parser Bool} (answer answer' : List Lexeme → Bool)
    (tests : ∀ {i flag k}, Reads test i flag k ↔ k = i ∧ flag = answer i.rest)
    (tests' : ∀ {i flag k}, Reads test' i flag k ↔ k = i ∧ flag = answer' i.rest)
    (same : ∀ {i j : Input}, i.Prolongs c.after j → (c.inside = true → i.rest ≠ []) →
      answer j.rest = answer i.rest ∧ (answer i.rest = true → answer' j.rest = answer' i.rest))
    {f : Bool → Bool → Parser γ} {h : Bool → Bool → Parser δ}
    (unused : ∀ flag, h false flag = h false false)
    (next : ∀ flag flag', Follows c others (f flag flag') (h flag flag')) :
    Follows c others (test >>= fun flag => test' >>= f flag)
      (test >>= fun flag => test' >>= h flag) := by
  have ran_iff {ε : Type} {f : Bool → Bool → Parser ε} {i k : Input} {a : ε} :
      Reads (test >>= fun flag => test' >>= f flag) i a k ↔
        Reads (f (answer i.rest) (answer' i.rest)) i a k := by
    simp only [reads_bind, tests, tests', existsAndEq, true_and]
  refine ⟨fun some _ _ _ ran => (next _ _).shrinks some (ran_iff.mp ran),
    fun {i j} prolongs few a k ran left => ?_⟩
  have ran := ran_iff.mp ran
  have filled (inside : c.inside = true) : i.rest ≠ [] := by
    refine ne_nil_of_suffix ((next _ _).shrinks ?_ ran) (left inside)
    rintro rfl
    cases inside
  obtain ⟨first, second⟩ := same prolongs filled
  obtain ⟨b, l, read, value, later⟩ := (next _ _).follows prolongs few ran left
  refine ⟨b, l, ran_iff.mpr ?_, value, later⟩
  rw [first]
  cases met : answer i.rest with
  | true => rwa [second met, ← met]
  | false => rwa [unused, ← unused (answer' i.rest), ← met]

/-- A test of what stands after the first lexeme matters when a test of this lexeme is met. -/
theorem follows_peek_peek2_bind {e e' : Expectation} (quiet : c.Quiet e)
    (still : e'.endsType = false) {f : Bool → Bool → Parser γ} {h : Bool → Bool → Parser δ}
    (unused : ∀ flag, h false flag = h false false)
    (next : ∀ flag flag', Follows c others (f flag flag') (h flag flag')) :
    Follows c others (peek e >>= fun flag => peek2 e' >>= f flag)
      (peek e >>= fun flag => peek2 e' >>= h flag) := by
  refine follows_both_bind (sees · e) (fun rest => sees (skipOne rest) e') reads_peek reads_peek2
    (fun prolongs left => ?_) unused next
  exact ⟨sees_eq_of_quiet quiet prolongs left,
    fun met => (prolongs.skipOne (filled_of_sees met)).sees_eq c.ends (.inl still)⟩

/-- A test of what stands after two colons. -/
theorem follows_colons_peek3_bind {e : Expectation} (still : e.endsType = false)
    {f : Bool → Bool → Parser γ} {h : Bool → Bool → Parser δ}
    (unused : ∀ flag, h false flag = h false false)
    (next : ∀ flag flag', Follows c others (f flag flag') (h flag flag')) :
    Follows c others (seesOperator "::" >>= fun flag => peek3 e >>= f flag)
      (seesOperator "::" >>= fun flag => peek3 e >>= h flag) := by
  refine follows_both_bind (sees · (.operator "::"))
    (fun rest => sees (skipOne (skipOne rest)) e) reads_seesOperator reads_peek3 (fun prolongs left => ?_) unused next
  exact ⟨sees_eq_of_quiet (.inl rfl) prolongs left,
    fun met => ((prolongs.skipOne (filled_of_sees met)).skipOne
      (skipOne_filled_of_colons met)).sees_eq c.ends (.inl still)⟩

/-- A test for a word of any kind. -/
theorem follows_seesAnyWord_bind {f : Input → Parser γ} {h : Input → Parser δ}
    (next : ∀ i j, seesAnyWord i.rest = seesAnyWord j.rest → Follows c others (f i) (h j)) :
    Follows c others (get >>= f) (get >>= h) := by
  refine ⟨fun some i a k ran => ?_, fun {i j} prolongs few a m ran left => ?_⟩
  · exact (next i i rfl).shrinks some (reads_get_bind.mp ran)
  · obtain ⟨b, l, read, same, later⟩ := (next i j (prolongs.seesAnyWord_eq c.ends).symm).follows
      prolongs few (reads_get_bind.mp ran) left
    exact ⟨b, l, reads_get_bind.mpr read, same, later⟩

end Tests

section Steps

/-- A reader of the first lexemes, which alone decide what it reads. -/
theorem follows_step {p : Parser α} {q : Parser β}
    (suffix : ∀ {i a k}, Reads p i a k → k.rest <:+ i.rest)
    (step : ∀ {i j : Input}, i.Prolongs c.after j → ∀ {a k}, Reads p i a k →
      ∃ b l, Reads q j b l ∧ related a b ∧ k.Prolongs c.after l) : Follows c related p q :=
  ⟨fun _ _ _ _ ran => suffix ran, fun prolongs _ _ _ ran _ => step prolongs ran⟩

theorem follows_anyWord : Follows c Eq anyWord anyWord := by
  refine follows_step (fun ran => ?_) fun prolongs a k ran => ?_
  · obtain ⟨place, rest, first, rfl⟩ := reads_anyWord.mp ran
    exact first ▸ List.suffix_cons _ _
  · obtain ⟨place, rest, first, rfl⟩ := reads_anyWord.mp ran
    obtain ⟨place', rest', same, prolongs⟩ := prolongs.leaf first
    exact ⟨a, _, reads_anyWord.mpr ⟨place', rest', same, rfl⟩, rfl, prolongs⟩

theorem follows_identifier : Follows c Eq identifier identifier := by
  refine follows_step (fun ran => ?_) fun prolongs a k ran => ?_
  · obtain ⟨place, rest, first, rfl, -⟩ := reads_identifier.mp ran
    exact first ▸ List.suffix_cons _ _
  · obtain ⟨place, rest, first, rfl, allowed⟩ := reads_identifier.mp ran
    obtain ⟨place', rest', same, prolongs⟩ := prolongs.leaf first
    exact ⟨a, _, reads_identifier.mpr ⟨place', rest', same, rfl, allowed⟩, rfl, prolongs⟩

theorem follows_word {text : String} : Follows c Eq (word text) (word text) := by
  refine follows_step (fun ran => ?_) fun prolongs a k ran => ?_
  · obtain ⟨place, rest, first, rfl, -⟩ := reads_word.mp ran
    exact first ▸ List.suffix_cons _ _
  · obtain ⟨place, rest, first, rfl, rfl⟩ := reads_word.mp ran
    obtain ⟨place', rest', same, prolongs⟩ := prolongs.leaf first
    exact ⟨_, _, reads_word.mpr ⟨place', rest', same, rfl, rfl⟩, rfl, prolongs⟩

theorem reads_lifetime {i j : Input} {name : String} :
    Reads lifetime i name j ↔
      ∃ rest, dropLifetime i.rest = some (name, rest) ∧ j = { i with rest } := by
  simp only [lifetime, reads_bind, reads_get, existsAndEq]
  rcases dropLifetime i.rest with _ | ⟨found, rest⟩
  · simp
  · simp
    grind

theorem follows_lifetime : Follows c Eq lifetime lifetime := by
  refine follows_step (fun ran => ?_) fun prolongs a k ran => ?_
  · obtain ⟨rest, dropped, rfl⟩ := reads_lifetime.mp ran
    obtain ⟨start, place, first⟩ := dropLifetime_eq_some_iff.mp dropped
    exact first ▸ (List.suffix_cons _ _).trans (List.suffix_cons _ _)
  · obtain ⟨rest, dropped, rfl⟩ := reads_lifetime.mp ran
    obtain ⟨start, place, first⟩ := dropLifetime_eq_some_iff.mp dropped
    obtain ⟨start', middle, same, prolongs⟩ := prolongs.leaf first
    obtain ⟨place', rest', rfl, prolongs⟩ := prolongs.leaf rfl
    exact ⟨a, _, reads_lifetime.mpr ⟨rest', dropLifetime_eq_some_iff.mpr ⟨_, _, same⟩, rfl⟩, rfl,
      prolongs⟩

theorem follows_operator {symbols : String} :
    Follows c Eq (operator symbols) (operator symbols) := by
  refine follows_step (fun ran => ?_) fun prolongs a k ran => ?_
  · obtain ⟨rest, dropped, rfl, -⟩ := reads_operator.mp ran
    exact suffix_of_dropOperator dropped
  · obtain ⟨rest, dropped, rfl, rfl⟩ := reads_operator.mp ran
    obtain ⟨rest', dropped', prolongs⟩ := prolongs.operator dropped (suffix_of_dropOperator dropped)
    exact ⟨_, _, reads_operator.mpr ⟨rest', dropped', rfl, rfl⟩, rfl, prolongs⟩

theorem follows_word? {text : String} : Follows c Eq (word? text) (word? text) :=
  follows_seesWord.bind fun _ => .ite follows_word.map (follows_pure rfl)

theorem follows_operator? {symbols : String} (quiet : c.Quiet (.operator symbols)) :
    Follows c Eq (operator? symbols) (operator? symbols) :=
  (follows_seesOperator quiet).bind fun _ => .ite follows_operator.map (follows_pure rfl)

theorem follows_lifetime? : Follows c Eq lifetime? lifetime? :=
  (follows_peek (.inl rfl)).bind fun _ => .ite follows_lifetime.map (follows_pure rfl)

theorem reads_operator_shorter {symbols : String} {i k : Input} {tree : Tree}
    (ran : Reads (operator symbols) i tree k) : k.rest.length < i.rest.length := by
  obtain ⟨rest, dropped, rfl, -⟩ := reads_operator.mp ran
  exact length_of_dropOperator dropped

/-- What begins with an operator needs a lexeme. -/
theorem reads_operator_bind_filled {symbols : String} {f : Tree → Parser γ} {i k : Input} {a : γ}
    (ran : Reads (operator symbols >>= f) i a k) : i.rest ≠ [] := by
  obtain ⟨_, _, first, -⟩ := reads_bind.mp ran
  rintro none
  have := reads_operator_shorter first
  rw [none] at this
  exact absurd this (Nat.not_lt_zero _)

theorem isSome_leftover (delimiter : Delimiter) {found other : Option (Position × Delimiter)}
    {rest rest' : List Lexeme} (same : found.isSome = other.isSome)
    (ends : rest.isEmpty = rest'.isEmpty) :
    (found <|> rest.head?.map fun lexeme => (lexeme.start, delimiter)).isSome =
      (other <|> rest'.head?.map fun lexeme => (lexeme.start, delimiter)).isSome := by
  cases found <;> cases other <;> cases rest <;> cases rest' <;> simp_all

/-- A group is read alike when its content is. -/
theorem follows_grouped {delimiter : Delimiter} {p : Parser α} {q : Parser β}
    (inside : Follows .bare related p q) :
    Follows c related (grouped delimiter p) (grouped delimiter q) := by
  refine follows_step (fun ran => ?_) fun prolongs a k ran => ?_
  · obtain ⟨body, start, stop, rest, m, first, -, rfl⟩ := reads_grouped.mp ran
    exact first ▸ List.suffix_cons _ _
  · obtain ⟨body, start, stop, rest, m, first, read, rfl⟩ := reads_grouped.mp ran
    obtain ⟨body', start', stop', rest', same, alike, later⟩ := prolongs.group first
    have within : Input.Prolongs [] ⟨body, stop, _⟩ ⟨body', stop', _⟩ :=
      ⟨⟨body', alike, (List.append_nil _).symm⟩, .inl rfl, prolongs.leftover⟩
    obtain ⟨b, m', read', value, ended⟩ :=
      inside.follows within (fun n none => nomatch none) read nofun
    refine ⟨b, _, reads_grouped.mpr ⟨body', start', stop', rest', m', same, read', rfl⟩, value, ?_⟩
    obtain ⟨front, leftAlike, left⟩ := ended.rest
    have left : m'.rest = front := left.trans (List.append_nil _)
    exact ⟨later.rest, later.closed,
      isSome_leftover delimiter ended.leftover (left ▸ leftAlike.isEmpty_eq)⟩

theorem follows_groupedTree {delimiter : Delimiter} {p q : Parser (List Tree)}
    (inside : Follows .bare Eq p q) :
    Follows c Eq (groupedTree delimiter p) (groupedTree delimiter q) :=
  (follows_grouped inside).bind fun _ => follows_pure rfl

theorem follows_anyGroup : Follows c Eq anyGroup anyGroup := by
  have reads {i k : Input} {a : Delimiter × Tree} : Reads anyGroup i a k ↔
      ∃ delimiter body start stop rest, i.rest = .group delimiter body start stop :: rest ∧
        k = { i with rest } ∧
          a = (delimiter, .ofTokens (Lexeme.tokens (.group delimiter body start stop))) := by
    simp only [anyGroup, reads_bind, reads_get, existsAndEq]
    rcases i with ⟨rest, stop, leftover⟩
    rcases rest with _ | ⟨_ | _, rest⟩
    · simp
    · simp
    · simp
  refine follows_step (fun ran => ?_) fun prolongs a k ran => ?_
  · obtain ⟨delimiter, body, start, stop, rest, first, rfl, -⟩ := reads.mp ran
    exact first ▸ List.suffix_cons _ _
  · obtain ⟨delimiter, body, start, stop, rest, first, rfl, rfl⟩ := reads.mp ran
    obtain ⟨body', start', stop', rest', same, alike, later⟩ := prolongs.group first
    refine ⟨_, _, reads.mpr ⟨delimiter, body', start', stop', rest', same, rfl, rfl⟩, ?_, later⟩
    rw [Lexeme.tokens, Lexeme.tokens, alike.tokensOf_eq]

theorem follows_stringLiteral : Follows c Eq stringLiteral stringLiteral := by
  have reads {i k : Input} {a : String × String} : Reads stringLiteral i a k ↔
      ∃ place rest, i.rest = .leaf (.literal a.1) place :: rest ∧ k = { i with rest } ∧
        Literal.text? a.1 = some a.2 := by
    simp only [stringLiteral, reads_bind, reads_get, existsAndEq]
    rcases i with ⟨rest, stop, leftover⟩
    rcases rest with _ | ⟨⟨token, place⟩ | _, rest⟩
    · simp
    · cases token with
      | literal spelling =>
        cases said : Literal.text? spelling <;> simp [said] <;> grind
      | _ => simp
    · simp
  refine follows_step (fun ran => ?_) fun prolongs a k ran => ?_
  · obtain ⟨place, rest, first, rfl, -⟩ := reads.mp ran
    exact first ▸ List.suffix_cons _ _
  · obtain ⟨place, rest, first, rfl, said⟩ := reads.mp ran
    obtain ⟨place', rest', same, later⟩ := prolongs.leaf first
    exact ⟨a, _, reads.mpr ⟨place', rest', same, rfl, said⟩, rfl, later⟩

theorem follows_literal : Follows c Eq literal literal := by
  have reads {i k : Input} {a : Tree} : Reads literal i a k ↔
      ∃ tokens rest, dropLiteral i.rest = some (tokens, rest) ∧ k = { i with rest } ∧
        a = .ofTokens tokens := by
    simp only [literal, reads_bind, reads_get, existsAndEq]
    rcases dropLiteral i.rest with _ | ⟨tokens, rest⟩
    · simp
    · simp
  refine follows_step (fun ran => ?_) fun prolongs a k ran => ?_
  · obtain ⟨tokens, rest, dropped, rfl, -⟩ := reads.mp ran
    exact suffix_of_dropLiteral dropped
  · obtain ⟨tokens, rest, dropped, rfl, rfl⟩ := reads.mp ran
    obtain ⟨rest', dropped', later⟩ :=
      prolongs.literal c.ends dropped (suffix_of_dropLiteral dropped)
    exact ⟨_, _, reads.mpr ⟨tokens, rest', dropped', rfl, rfl⟩, rfl, later⟩

theorem follows_integerLiteral : Follows c Eq integerLiteral integerLiteral := by
  have reads {i k : Input} {a : Bool × String} : Reads integerLiteral i a k ↔
      ∃ tokens rest, dropLiteral i.rest = some (tokens, rest) ∧ k = { i with rest } ∧
        ((a.1 = false ∧ tokens = [.literal a.2]) ∨
          (a.1 = true ∧ ∃ sign, tokens = [sign, .literal a.2])) ∧
        (Literal.integer? a.2).isSome = true := by
    obtain ⟨negative, spelling⟩ := a
    simp only [integerLiteral, reads_bind, reads_get, existsAndEq]
    rcases dropLiteral i.rest with _ | ⟨tokens, rest⟩
    · simp
    · rcases tokens with _ | ⟨first, _ | ⟨second, _ | _⟩⟩
      · simp
      · cases first <;> simp [reads_ite]
        grind
      · cases second <;> simp [reads_ite]
        grind
      · simp
  refine follows_step (fun ran => ?_) fun prolongs a k ran => ?_
  · obtain ⟨tokens, rest, dropped, rfl, -⟩ := reads.mp ran
    exact suffix_of_dropLiteral dropped
  · obtain ⟨tokens, rest, dropped, rfl, spelled⟩ := reads.mp ran
    obtain ⟨rest', dropped', later⟩ :=
      prolongs.literal c.ends dropped (suffix_of_dropLiteral dropped)
    exact ⟨_, _, reads.mpr ⟨tokens, rest', dropped', rfl, spelled⟩, rfl, later⟩

end Steps

/-- The input ahead is kept for later. -/
theorem follows_get_bind {f : Input → Parser γ} {h : Input → Parser δ}
    (next : ∀ i j, Follows c (fun a b => i.Prolongs c.after j → others a b) (f i) (h j)) :
    Follows c others (get >>= f) (get >>= h) := by
  refine ⟨fun some i a k ran => ?_, fun {i j} prolongs few a m ran left => ?_⟩
  · exact (next i i).shrinks some (reads_get_bind.mp ran)
  · obtain ⟨b, l, read, same, later⟩ :=
      (next i j).follows prolongs few (reads_get_bind.mp ran) left
    exact ⟨b, l, reads_get_bind.mpr read, same prolongs, later⟩

section Fuel

/-- A reader with no lexemes ahead, not even one before the end. -/
theorem follows_upTo_zero {p : Parser α} {q : Parser β}
    (shrinks : ∀ {i a k}, Reads p i a k → k.rest <:+ i.rest) :
    Follows (c.upTo 0) related p q :=
  ⟨fun _ _ _ _ ran => shrinks ran,
    fun _ few => absurd (few 0 rfl) (Nat.not_lt_zero _)⟩

/-- One reader after another, with a bound of its own on the lexemes that the first one leaves. -/
theorem Follows.bindUpTo {n : Nat} {p : Parser α} {q : Parser β} {f : α → Parser γ}
    {h : β → Parser δ} (first : Follows (c.upTo n) related p q) (total : ∀ a, ∃ b, related a b)
    (next : ∀ a b, related a b → ∃ m, Follows (c.upTo m) others (f a) (h b) ∧
      ∀ {i k}, Reads p i a k → i.rest.length < n → k.rest.length < m) :
    Follows (c.upTo n) others (p >>= f) (q >>= h) := by
  have later {a i b k} (ran : Reads (f a) i b k) : k.rest <:+ i.rest := by
    obtain ⟨b', same⟩ := total a
    obtain ⟨m, follows, -⟩ := next a b' same
    exact follows.shrinks (c.upTo_ne_bare m) ran
  refine ⟨fun _ i a k ran => ?_, fun {i j} prolongs few a m ran left => ?_⟩
  · obtain ⟨_, _, ran, ran'⟩ := reads_bind.mp ran
    exact (later ran').trans (first.shrinks (c.upTo_ne_bare _) ran)
  · obtain ⟨value, k, ran, ran'⟩ := reads_bind.mp ran
    have some_left (inside : c.inside = true) : k.rest ≠ [] :=
      ne_nil_of_suffix (later ran') (left inside)
    obtain ⟨b, l, read, same, prolongs⟩ := first.follows prolongs few ran some_left
    obtain ⟨bound, follows, fewer⟩ := next value b same
    have few' (m : Nat) (given : m ∈ (c.upTo bound).count) : k.rest.length < m := by
      cases given
      exact fewer ran (few n rfl)
    obtain ⟨d, l', read', same', prolongs'⟩ := follows.follows prolongs few' ran' left
    exact ⟨d, l', reads_bind.mpr ⟨b, l, read, read'⟩, same', prolongs'⟩

/-- An operator leaves fewer lexemes ahead of the reader after it. -/
theorem follows_operator_bind {n : Nat} {symbols : String} {f : Tree → Parser γ}
    {h : Tree → Parser δ} (next : ∀ tree, Follows (c.upTo n) others (f tree) (h tree)) :
    Follows (c.upTo (n + 1)) others (operator symbols >>= f) (operator symbols >>= h) :=
  Follows.bindUpTo follows_operator (fun tree => ⟨tree, rfl⟩) fun tree _ same => ⟨n, same ▸ next tree,
    fun ran few => Nat.lt_of_lt_of_le (reads_operator_shorter ran) (Nat.lt_succ_iff.mp few)⟩

/-- The fuel is more than the lexemes ahead, on either side. -/
theorem follows_fuel {F : Nat → Parser α} {F' : Nat → Parser β}
    (each : ∀ n m, n ≤ m → Follows (c.upTo n) related (F n) (F' m)) :
    Follows c related (get >>= fun i => F (i.rest.length + 1))
      (get >>= fun j => F' (j.rest.length + 1)) := by
  refine ⟨fun _ i a k ran => ?_, fun {i j} prolongs few a k ran left => ?_⟩
  · exact (each _ _ le_rfl).shrinks (c.upTo_ne_bare _) (reads_get_bind.mp ran)
  · obtain ⟨front, alike, same⟩ := prolongs.rest
    have more : i.rest.length + 1 ≤ j.rest.length + 1 := by
      rw [same, List.length_append, alike.length_eq]
      omega
    obtain ⟨b, l, read, value, later⟩ := (each _ _ more).follows prolongs
      (fun n given => by cases given; exact Nat.lt_succ_self _) (reads_get_bind.mp ran) left
    exact ⟨b, l, reads_get_bind.mpr read, value, later⟩

/-- On the same tokens the fuel is the same. -/
theorem follows_bare_fuel {F : Nat → Parser α} {F' : Nat → Parser β}
    (each : ∀ n, Follows .bare related (F n) (F' n)) :
    Follows .bare related (get >>= fun i => F (i.rest.length + 1))
      (get >>= fun j => F' (j.rest.length + 1)) := by
  refine ⟨fun other => absurd rfl other, fun {i j} prolongs few a k ran left => ?_⟩
  obtain ⟨front, alike, same⟩ := prolongs.rest
  have length : i.rest.length = j.rest.length := by
    rw [same, List.length_append, alike.length_eq]
    rfl
  obtain ⟨b, l, read, value, later⟩ := (each _).follows prolongs few (reads_get_bind.mp ran) left
  exact ⟨b, l, reads_get_bind.mpr (length ▸ read), value, later⟩

end Fuel

theorem Follows.mono {p : Parser α} {q : Parser β} {weaker : α → β → Prop}
    (first : Follows c related p q) (implied : ∀ a b, related a b → weaker a b) :
    Follows c weaker p q := by
  refine ⟨first.shrinks, fun prolongs few a k ran left => ?_⟩
  obtain ⟨b, l, read, same, later⟩ := first.follows prolongs few ran left
  exact ⟨b, l, read, implied a b same, later⟩

section Lists

theorem eq_of_forall₂ {values others : List α} (same : List.Forall₂ Eq values others) :
    values = others := by
  rwa [List.forall₂_eq_eq_eq] at same

/-- Steps that are followed are followed one after another. Each but the last one reads a lexeme. -/
theorem follows_repeatedOf {step : Parser (Option α)} {step' : Parser (Option β)}
    (total : ∀ a, ∃ b, related a b)
    (each : ∀ n, Follows (c.upTo n) (Option.Rel related) step step')
    (shorter : ∀ {i a k}, Reads step i (some a) k → k.rest.length < i.rest.length) :
    Follows c (List.Forall₂ related) (repeated step) (repeated step') := by
  have totalOption (found : Option α) : ∃ other, Option.Rel related found other := by
    cases found with
    | none => exact ⟨none, .none⟩
    | some a => exact (total a).imp' some fun _ same => .some same
  refine follows_fuel fun n m enough => ?_
  induction n generalizing m with
  | zero =>
    refine follows_upTo_zero fun ran => ?_
    obtain ⟨rfl, -⟩ := reads_pure.mp ran
    exact List.suffix_rfl
  | succ n ih =>
    obtain ⟨m, rfl⟩ : ∃ k, m = k + 1 := ⟨m - 1, by omega⟩
    rw [repeatUpTo, repeatUpTo]
    refine (each (n + 1)).bindUpTo totalOption fun found other same => ?_
    cases same with
    | none => exact ⟨n + 1, follows_pure .nil, fun ran few =>
        Nat.lt_of_le_of_lt ((each (n + 1)).shrinks (c.upTo_ne_bare _) ran).length_le few⟩
    | some same =>
      refine ⟨n, (ih m (by omega)).bindOf (.inr fun values => ?_) fun _ _ more =>
        follows_pure (.cons same more), fun ran few => ?_⟩
      · exact ⟨values.map fun a => (total a).choose, List.forall₂_map_right_iff.mpr
          (List.forall₂_same.mpr fun a _ => (total a).choose_spec)⟩
      · have := shorter ran
        omega

theorem follows_repeated {step step' : Parser (Option α)}
    (each : ∀ n, Follows (c.upTo n) Eq step step')
    (shorter : ∀ {i a k}, Reads step i (some a) k → k.rest.length < i.rest.length) :
    Follows c Eq (repeated step) (repeated step') := by
  refine (follows_repeatedOf (fun a => ⟨a, rfl⟩) (fun n => (each n).mono fun found _ same => ?_)
    shorter).mono fun _ _ => eq_of_forall₂
  subst same
  cases found with
  | none => exact .none
  | some a => exact .some rfl

/-- Elements that are followed are followed with a separator between them. -/
theorem follows_punctuated {separator : String} {stop stop' : Parser Bool}
    {element element' : Parser α} (stops : ∀ n, Follows (c.upTo n) Eq stop stop')
    (each : ∀ n, Follows (c.upTo n) Eq element element') :
    Follows c Eq (punctuated separator stop element) (punctuated separator stop' element') := by
  refine follows_fuel fun n m enough => ?_
  induction n generalizing m with
  | zero =>
    refine follows_upTo_zero fun ran => ?_
    obtain ⟨rfl, -⟩ := reads_pure.mp ran
    exact List.suffix_rfl
  | succ n ih =>
    obtain ⟨m, rfl⟩ : ∃ k, m = k + 1 := ⟨m - 1, by omega⟩
    rw [punctuatedUpTo, punctuatedUpTo]
    refine (stops _).bind fun _ => .ite (follows_pure rfl) ((each _).bind fun value =>
      (stops _).bind fun _ => .ite (follows_pure rfl) (follows_operator_bind fun _ => ?_))
    exact (ih m (by omega)).bind fun _ => follows_pure rfl

/-- Elements that are followed are followed with plus signs between them. -/
theorem follows_sum {stop stop' : Parser Bool} {element element' : Parser α}
    (stops : ∀ n, Follows (c.upTo n) Eq stop stop')
    (each : ∀ n, Follows (c.upTo n) Eq element element') :
    Follows c Eq (sum stop element) (sum stop' element') := by
  refine follows_fuel fun n m enough => ?_
  induction n generalizing m with
  | zero =>
    refine follows_upTo_zero fun ran => ?_
    obtain ⟨rfl, -⟩ := reads_pure.mp ran
    exact List.suffix_rfl
  | succ n ih =>
    obtain ⟨m, rfl⟩ : ∃ k, m = k + 1 := ⟨m - 1, by omega⟩
    rw [sumUpTo, sumUpTo]
    refine (stops _).bind fun _ => .ite (follows_pure rfl) ((each _).bind fun value =>
      (follows_seesOperator (.inl rfl)).bind fun _ => .ite (follows_operator_bind fun _ => ?_)
        (follows_pure rfl))
    exact (ih m (by omega)).bind fun _ => follows_pure rfl

end Lists

end Parser

end Forwarding.Grammar
