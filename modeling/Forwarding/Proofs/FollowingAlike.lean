import Forwarding.Proofs.Following
/-!
Readers on the same tokens. Nothing stands after the lexemes of the first reader, so that every test
has the same answer for both readers, the end of the lexemes included.
-/

namespace Forwarding.Grammar

namespace Input.Prolongs

variable {i j : Input}

theorem alike (prolongs : i.Prolongs [] j) : Lexeme.Alike i.rest j.rest := by
  obtain ⟨front, alike, same⟩ := prolongs.rest
  rw [same, List.append_nil]
  exact alike

theorem of_alike (alike : Lexeme.Alike i.rest j.rest)
    (leftover : i.leftover.isSome = j.leftover.isSome) : i.Prolongs [] j :=
  ⟨⟨j.rest, alike, (List.append_nil _).symm⟩, .inl rfl, leftover⟩

theorem symm (prolongs : i.Prolongs [] j) : j.Prolongs [] i :=
  .of_alike prolongs.alike.symm prolongs.leftover.symm

end Input.Prolongs

namespace Parser

variable {α β γ δ : Type} {related : α → β → Prop} {others : γ → δ → Prop}

/-- A reader that does the same as another one on the same tokens. -/
theorem follows_alike {p : Parser α} {q : Parser β}
    (same : ∀ {i j : Input}, i.Prolongs [] j → ∀ {a k}, Reads p i a k →
      ∃ b l, Reads q j b l ∧ related a b ∧ k.Prolongs [] l) : Follows .bare related p q :=
  ⟨fun other => absurd rfl other, fun prolongs _ _ _ ran _ => same prolongs ran⟩

theorem Follows.run {p : Parser α} {q : Parser β} (first : Follows .bare related p q) {i j k : Input}
    (prolongs : i.Prolongs [] j) {a : α} (ran : Reads p i a k) :
    ∃ b l, Reads q j b l ∧ related a b ∧ k.Prolongs [] l :=
  first.follows prolongs (fun _ none => nomatch none) ran nofun

theorem same_peek {e : Expectation} : Follows .bare Eq (peek e) (peek e) :=
  follows_peek (.inr (.inr rfl))

theorem same_seesOperator {symbols : String} :
    Follows .bare Eq (seesOperator symbols) (seesOperator symbols) :=
  same_peek

theorem same_peekAny {alternatives : List Expectation} :
    Follows .bare Eq (peekAny alternatives) (peekAny alternatives) :=
  follows_peekAny fun _ _ => .inr (.inr rfl)

theorem same_operator? {symbols : String} :
    Follows .bare Eq (operator? symbols) (operator? symbols) :=
  follows_operator? (.inr (.inr rfl))

theorem same_atEnd : Follows .bare Eq atEnd atEnd :=
  follows_test List.isEmpty reads_atEnd fun prolongs _ =>
    (Input.Prolongs.alike prolongs).isEmpty_eq.symm

theorem same_peek2 {e : Expectation} : Follows .bare Eq (peek2 e) (peek2 e) :=
  follows_test (fun rest => sees (skipOne rest) e) reads_peek2 fun prolongs _ =>
    (sees_alike (skipOne_alike (Input.Prolongs.alike prolongs)) e).symm

theorem same_peek3 {e : Expectation} : Follows .bare Eq (peek3 e) (peek3 e) :=
  follows_test (fun rest => sees (skipOne (skipOne rest)) e) reads_peek3 fun prolongs _ =>
    (sees_alike (skipOne_alike (skipOne_alike (Input.Prolongs.alike prolongs))) e).symm

theorem same_get_bind {f : Input → Parser γ} {h : Input → Parser δ}
    (next : ∀ i j, i.Prolongs [] j → Follows .bare others (f i) (h j)) :
    Follows .bare others (get >>= f) (get >>= h) :=
  follows_get.bindOf (.inl rfl) next

theorem same_set {i j : Input} (prolongs : i.Prolongs [] j) :
    Follows .bare (fun _ _ => True) (set i : Parser PUnit) (set j : Parser PUnit) := by
  refine follows_alike fun _ a k ran => ?_
  rw [reads_set.mp ran]
  exact ⟨⟨⟩, j, reads_set.mpr rfl, trivial, prolongs⟩

theorem same_bind {p : Parser α} {q : Parser β} {f : α → Parser γ} {h : β → Parser δ}
    (first : Follows .bare related p q) (next : ∀ a b, related a b → Follows .bare others (f a) (h b)) :
    Follows .bare others (p >>= f) (q >>= h) :=
  first.bindOf (.inl rfl) next

/-- A choice between two readers before a third one. -/
theorem same_choose {condition : Prop} [Decidable condition] {p p' : Parser α} {q q' : Parser β}
    {f : α → Parser γ} {h : β → Parser δ} (first : Follows .bare related p q)
    (second : Follows .bare related p' q')
    (next : ∀ a b, related a b → Follows .bare others (f a) (h b)) :
    Follows .bare others (if condition then p >>= f else p' >>= f)
      (if condition then q >>= h else q' >>= h) :=
  .ite (same_bind first next) (same_bind second next)

/-- A reader that is followed by itself succeeds on the same tokens only together. -/
theorem Follows.succeeds {p : Parser α} (first : Follows .bare Eq p p) {i j : Input}
    (prolongs : i.Prolongs [] j) {a : α} : (∃ k, Reads p i a k) ↔ ∃ l, Reads p j a l := by
  constructor
  · rintro ⟨k, ran⟩
    obtain ⟨_, l, read, rfl, -⟩ := first.run prolongs ran
    exact ⟨l, read⟩
  · rintro ⟨l, ran⟩
    obtain ⟨_, k, read, rfl, -⟩ := first.run prolongs.symm ran
    exact ⟨k, read⟩

theorem reads_lookingAhead {p : Parser α} {found : Option α} {i k : Input} :
    Reads (lookingAhead p) i found k ↔ k = i ∧
      ((∃ a l, Reads p i a l ∧ found = some a) ∨ (∀ a l, ¬ Reads p i a l) ∧ found = none) := by
  simp only [lookingAhead, reads_bind, reads_get, existsAndEq]
  cases ran : p.run i with
  | error failure =>
    have never (a : α) (l : Input) : ¬ Reads p i a l := by simp [Reads, ran]
    simp [never]
  | ok read =>
    obtain ⟨value, after⟩ := read
    have only (a : α) (l : Input) : Reads p i a l ↔ a = value ∧ l = after := by
      rw [Reads, ran, Except.ok.injEq, Prod.mk.injEq, eq_comm, eq_comm (a := after)]
    simp [only]

theorem same_lookingAhead {p : Parser α} (first : Follows .bare Eq p p) :
    Follows .bare Eq (lookingAhead p) (lookingAhead p) := by
  refine follows_alike fun {i j} prolongs found k ran => ?_
  obtain ⟨rfl, ran⟩ := reads_lookingAhead.mp ran
  refine ⟨found, j, reads_lookingAhead.mpr ⟨rfl, ?_⟩, rfl, prolongs⟩
  rcases ran with ⟨a, l, read, rfl⟩ | ⟨never, rfl⟩
  · obtain ⟨l', read'⟩ := (first.succeeds prolongs).mp ⟨l, read⟩
    exact .inl ⟨a, l', read', rfl⟩
  · refine .inr ⟨fun a l read => ?_, rfl⟩
    obtain ⟨k, read'⟩ := (first.succeeds prolongs).mpr ⟨l, read⟩
    exact never a k read'

theorem same_verbatim {p : Parser α} {q : Parser β} (first : Follows .bare related p q) :
    Follows .bare Eq (verbatim p) (verbatim q) :=
  same_get_bind fun _ _ before => same_bind first fun _ _ _ => same_get_bind fun _ _ after =>
    follows_pure (congrArg Tree.ofTokens (before.tokensSince after))

theorem same_remaining : Follows .bare Eq remaining remaining := by
  refine same_get_bind fun i j prolongs => ?_
  have read : Input.Prolongs [] { i with rest := [] } { j with rest := [] } :=
    .of_alike .nil prolongs.leftover
  refine same_bind (same_set read) fun _ _ _ => follows_pure ?_
  rw [prolongs.alike.tokensOf_eq]

section Lists

theorem same_repeatedOf {step : Parser (Option α)} {step' : Parser (Option β)}
    (each : Follows .bare (Option.Rel related) step step') :
    Follows .bare (List.Forall₂ related) (repeated step) (repeated step') := by
  refine follows_bare_fuel fun n => ?_
  induction n with
  | zero => exact follows_pure .nil
  | succ n ih =>
    refine same_bind each fun found other same => ?_
    cases same with
    | none => exact follows_pure .nil
    | some same => exact same_bind ih fun _ _ more => follows_pure (.cons same more)

theorem same_repeated {step step' : Parser (Option α)} (each : Follows .bare Eq step step') :
    Follows .bare Eq (repeated step) (repeated step') := by
  refine (same_repeatedOf (each.mono fun found _ same => ?_)).mono fun _ _ =>
    eq_of_forall₂
  subst same
  cases found with
  | none => exact .none
  | some a => exact .some rfl

theorem same_untilEndOf {element : Parser α} {element' : Parser β}
    (each : Follows .bare related element element') :
    Follows .bare (List.Forall₂ related) (untilEnd element) (untilEnd element') := by
  refine same_repeatedOf (same_atEnd.bind fun _ => .ite (follows_pure .none) ?_)
  rw [map_eq_pure_bind, map_eq_pure_bind]
  exact same_bind each fun _ _ same => follows_pure (.some same)

theorem same_untilEnd {element element' : Parser α} (each : Follows .bare Eq element element') :
    Follows .bare Eq (untilEnd element) (untilEnd element') :=
  (same_untilEndOf each).mono fun _ _ => eq_of_forall₂

theorem same_punctuatedOf {separator : String} {stop stop' : Parser Bool} {element : Parser α}
    {element' : Parser β} (stops : Follows .bare Eq stop stop')
    (each : Follows .bare related element element') :
    Follows .bare (fun a b => List.Forall₂ related a.1 b.1 ∧ a.2 = b.2)
      (punctuated separator stop element) (punctuated separator stop' element') := by
  refine follows_bare_fuel fun n => ?_
  induction n with
  | zero => exact follows_pure ⟨.nil, rfl⟩
  | succ n ih =>
    refine stops.bind fun _ => .ite (follows_pure ⟨.nil, rfl⟩) (same_bind each fun _ _ same =>
      stops.bind fun _ => .ite (follows_pure ⟨.cons same .nil, rfl⟩) (follows_operator.bind fun _ =>
        same_bind ih fun _ _ more => follows_pure ⟨.cons same more.1, more.2⟩))

theorem same_punctuated {separator : String} {stop stop' : Parser Bool} {element element' : Parser α}
    (stops : Follows .bare Eq stop stop') (each : Follows .bare Eq element element') :
    Follows .bare Eq (punctuated separator stop element) (punctuated separator stop' element') := by
  exact (same_punctuatedOf stops each).mono fun a b same => Prod.ext (eq_of_forall₂ same.1) same.2

theorem same_commaList {element element' : Parser Tree} (each : Follows .bare Eq element element') :
    Follows .bare Eq (commaList element) (commaList element') :=
  (same_punctuated same_atEnd each).bind fun _ => follows_pure rfl

theorem same_mapM {values : List γ} {f f' : γ → Parser α}
    (each : ∀ value, Follows .bare Eq (f value) (f' value)) :
    Follows .bare Eq (values.mapM f) (values.mapM f') := by
  induction values with
  | nil => exact follows_pure rfl
  | cons value rest ih =>
    rw [List.mapM_cons, List.mapM_cons]
    exact (each value).bind fun _ => ih.bind fun _ => follows_pure rfl

end Lists

end Parser

end Forwarding.Grammar
