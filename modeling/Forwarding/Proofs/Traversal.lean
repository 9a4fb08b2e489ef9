import Mathlib.Data.List.Forall2
/-!
Steps over a list that may fail. The first failure in the order of the list is the failure of the
whole, and there are no values unless every step gives one.
-/

namespace Forwarding

variable {α β ε : Type}

theorem exists_of_isOk {outcome : Except ε α} (succeeds : outcome.isOk = true) :
    ∃ value, outcome = .ok value := by
  cases outcome with
  | error failure => cases succeeds
  | ok value => exact ⟨value, rfl⟩

theorem mapM_cons_eq (f : α → Except ε β) (a : α) (rest : List α) :
    (a :: rest).mapM f =
      match f a with
      | .error failure => .error failure
      | .ok value =>
        match rest.mapM f with
        | .error failure => .error failure
        | .ok values => .ok (value :: values) := by
  rw [List.mapM_cons]
  cases f a with
  | error failure => rfl
  | ok value => cases rest.mapM f <;> rfl

theorem mapM_eq_ok_iff (f : α → Except ε β) (l : List α) (values : List β) :
    l.mapM f = .ok values ↔ List.Forall₂ (fun a value => f a = .ok value) l values := by
  induction l generalizing values with
  | nil =>
    rw [List.forall₂_nil_left_iff]
    exact ⟨fun h => (Except.ok.inj h).symm, fun h => h ▸ rfl⟩
  | cons a rest ih =>
    rw [mapM_cons_eq, List.forall₂_cons_left_iff]
    cases first : f a with
    | error failure => simp
    | ok value =>
      cases others : rest.mapM f with
      | error failure =>
        have none : ∀ values, ¬ List.Forall₂ (fun a value => f a = .ok value) rest values := by
          intro values related
          rw [← ih, others] at related
          cases related
        simp [none]
      | ok found =>
        have unique : ∀ values, List.Forall₂ (fun a value => f a = .ok value) rest values ↔
            found = values := by
          intro values
          rw [← ih, others, Except.ok.injEq]
        simp only [Except.ok.injEq, unique]
        constructor
        · rintro rfl
          exact ⟨value, found, rfl, rfl, rfl⟩
        · rintro ⟨_, _, rfl, rfl, rfl⟩
          rfl

theorem exists_of_mem_right {r : α → β → Prop} {l : List α} {values : List β}
    (related : List.Forall₂ r l values) {value : β} (member : value ∈ values) :
    ∃ a ∈ l, r a value := by
  induction related with
  | nil => cases member
  | cons first _ ih =>
    rcases List.mem_cons.mp member with rfl | member
    · exact ⟨_, List.mem_cons_self, first⟩
    · obtain ⟨a, inside, holds⟩ := ih member
      exact ⟨a, List.mem_cons_of_mem _ inside, holds⟩

theorem exists_of_mem_left {r : α → β → Prop} {l : List α} {values : List β}
    (related : List.Forall₂ r l values) {a : α} (member : a ∈ l) : ∃ value ∈ values, r a value :=
  exists_of_mem_right related.flip member

theorem exists_forall₂ {r : α → β → Prop} {l : List α} (each : ∀ a ∈ l, ∃ value, r a value) :
    ∃ values, List.Forall₂ r l values := by
  induction l with
  | nil => exact ⟨[], .nil⟩
  | cons a rest ih =>
    obtain ⟨value, first⟩ := each a List.mem_cons_self
    obtain ⟨values, others⟩ := ih fun b member => each b (List.mem_cons_of_mem a member)
    exact ⟨value :: values, .cons first others⟩

theorem exists_map_of_forall₂ {γ : Type} {r : α → γ → Prop} {f : γ → β} {l : List α}
    {values : List β} (related : List.Forall₂ (fun a b => ∃ c, b = f c ∧ r a c) l values) :
    ∃ found : List γ, values = found.map f ∧ List.Forall₂ r l found := by
  induction related with
  | nil => exact ⟨[], rfl, .nil⟩
  | cons first _ ih =>
    obtain ⟨c, rfl, own⟩ := first
    obtain ⟨found, rfl, others⟩ := ih
    exact ⟨c :: found, rfl, .cons own others⟩

theorem map_eq_map_of_forall₂ {γ : Type} {f : β → γ} {g : α → γ} {l : List α} {values : List β}
    (related : List.Forall₂ (fun a b => f b = g a) l values) : values.map f = l.map g := by
  induction related with
  | nil => rfl
  | cons first _ ih => rw [List.map_cons, List.map_cons, first, ih]

theorem mapM_eq_error_iff (f : α → Except ε β) (l : List α) (failure : ε) :
    l.mapM f = .error failure ↔
      ∃ before a after, l = before ++ a :: after ∧ (∀ b ∈ before, ∃ value, f b = .ok value) ∧
        f a = .error failure := by
  induction l with
  | nil =>
    constructor
    · intro h
      cases h
    · rintro ⟨before, a, after, split, -⟩
      simp at split
  | cons a rest ih =>
    rw [mapM_cons_eq]
    cases first : f a with
    | error other =>
      constructor
      · intro h
        exact ⟨[], a, rest, rfl, by simp, first.trans (congrArg _ (Except.error.inj h))⟩
      · rintro ⟨before, b, after, split, succeed, fails⟩
        cases before with
        | nil =>
          obtain ⟨rfl, -⟩ := List.cons.inj split
          rw [Except.error.inj (first.symm.trans fails)]
        | cons c before =>
          obtain ⟨rfl, -⟩ := List.cons.inj split
          obtain ⟨value, given⟩ := succeed a (by simp)
          rw [first] at given
          cases given
    | ok value =>
      have others : (∃ before b after, a :: rest = before ++ b :: after ∧
            (∀ c ∈ before, ∃ value, f c = .ok value) ∧ f b = .error failure) ↔
          ∃ before b after, rest = before ++ b :: after ∧
            (∀ c ∈ before, ∃ value, f c = .ok value) ∧ f b = .error failure := by
        constructor
        · rintro ⟨before, b, after, split, succeed, fails⟩
          cases before with
          | nil =>
            obtain ⟨rfl, -⟩ := List.cons.inj split
            rw [first] at fails
            cases fails
          | cons c before =>
            exact ⟨before, b, after, (List.cons.inj split).2,
              fun d member => succeed d (List.mem_cons_of_mem c member), fails⟩
        · rintro ⟨before, b, after, rfl, succeed, fails⟩
          refine ⟨a :: before, b, after, rfl, ?_, fails⟩
          intro c member
          rcases List.mem_cons.mp member with rfl | member
          · exact ⟨value, first⟩
          · exact succeed c member
      rw [others, ← ih]
      cases rest.mapM f <;> simp

theorem mapM_isOk_iff (f : α → Except ε β) (l : List α) :
    (∃ values, l.mapM f = .ok values) ↔ ∀ a ∈ l, ∃ value, f a = .ok value := by
  constructor
  · rintro ⟨values, succeeded⟩
    rw [mapM_eq_ok_iff] at succeeded
    intro a member
    induction succeeded with
    | nil => cases member
    | cons given _ ih =>
      rcases List.mem_cons.mp member with rfl | member
      · exact ⟨_, given⟩
      · exact ih member
  · intro succeed
    cases outcome : l.mapM f with
    | ok values => exact ⟨values, rfl⟩
    | error failure =>
      obtain ⟨before, a, after, rfl, -, fails⟩ := (mapM_eq_error_iff f l failure).mp outcome
      obtain ⟨value, given⟩ := succeed a (by simp)
      rw [fails] at given
      cases given

/-- When a step that succeeds gives one known value, so does the whole traversal. -/
theorem mapM_eq_ok_map_iff {f : α → Except ε β} {g : α → β} {p : α → Prop}
    (each : ∀ a b, f a = .ok b ↔ b = g a ∧ p a) (l : List α) (values : List β) :
    l.mapM f = .ok values ↔ values = l.map g ∧ ∀ a ∈ l, p a := by
  have given : (∀ a ∈ l, p a) → l.mapM f = .ok (l.map g) := by
    intro holds
    rw [mapM_eq_ok_iff]
    induction l with
    | nil => exact .nil
    | cons a rest ih =>
      have first : f a = .ok (g a) := (each a (g a)).mpr ⟨rfl, holds a List.mem_cons_self⟩
      exact .cons first (ih fun b member => holds b (List.mem_cons_of_mem a member))
  constructor
  · intro succeeded
    have holds : ∀ a ∈ l, p a := by
      intro a member
      obtain ⟨b, passed⟩ := (mapM_isOk_iff f l).mp ⟨values, succeeded⟩ a member
      exact ((each a b).mp passed).2
    rw [given holds] at succeeded
    exact ⟨(Except.ok.inj succeeded).symm, holds⟩
  · rintro ⟨rfl, holds⟩
    exact given holds

end Forwarding
