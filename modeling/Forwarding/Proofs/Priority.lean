import Forwarding.Proofs.Grouping
import Mathlib.Data.List.Pairwise
/-!
Priorities within a group. A group passes exactly when its priorities differ, and the conflict that
is reported otherwise does not depend on the order in which its definitions are given.
-/

namespace Forwarding

/-- What decides between definitions of a group: the priority, then the place. -/
def Definition.standing (d : Definition) : Priority × List PathComponent × Nat × Nat :=
  (d.priority, d.location.key)

namespace Group

theorem byPriority_iff (a b : Definition) :
    byPriority a b = true ↔ a.priority.toInt < b.priority.toInt ∨
      (a.priority.toInt = b.priority.toInt ∧ (a.location.compare b.location).isLE = true) := by
  unfold byPriority
  split
  · rename_i same
    simp [same]
  · rename_i different
    have apart : a.priority.toInt ≠ b.priority.toInt := fun h => different (Int64.toInt_inj.mp h)
    simp [Int64.lt_iff_toInt_lt, apart]

theorem compare_total (a b : Location) :
    (a.compare b).isLE = true ∨ (b.compare a).isLE = true := by
  rw [@Std.OrientedCmp.eq_swap _ Location.compare _ a b]
  cases b.compare a <;> simp

theorem byPriority_ranking : IsRanking byPriority where
  total a b := by
    rw [byPriority_iff, byPriority_iff]
    have places := compare_total a.location b.location
    rcases places with before | after
    · by_cases same : a.priority.toInt = b.priority.toInt
      · exact .inl (.inr ⟨same, before⟩)
      · omega
    · by_cases same : a.priority.toInt = b.priority.toInt
      · exact .inr (.inr ⟨same.symm, after⟩)
      · omega
  trans a b c first second := by
    rw [byPriority_iff] at first second ⊢
    rcases first with first | ⟨first, before⟩
    · left
      omega
    · rcases second with second | ⟨second, between⟩
      · left
        omega
      · exact .inr ⟨first.trans second, Std.TransCmp.isLE_trans before between⟩

theorem standing_eq_iff (a b : Definition) :
    a.standing = b.standing ↔ byPriority a b = true ∧ byPriority b a = true := by
  rw [byPriority_iff, byPriority_iff, Definition.standing, Definition.standing, Prod.mk.injEq,
    ← Location.compare_eq_eq_iff, ← Int64.toInt_inj]
  constructor
  · rintro ⟨same, tie⟩
    have back : b.location.compare a.location = .eq := Std.OrientedCmp.eq_symm tie
    exact ⟨.inr ⟨same, by rw [tie]; rfl⟩, .inr ⟨same.symm, by rw [back]; rfl⟩⟩
  · rintro ⟨forward, backward⟩
    rcases forward with forward | ⟨same, forward⟩
    · omega
    · rcases backward with backward | ⟨-, backward⟩
      · omega
      · exact ⟨same, Std.OrientedCmp.isLE_antisymm forward backward⟩

theorem clash?_eq_none_iff {l : List Definition}
    (sorted : l.Pairwise (fun a b => byPriority a b = true)) :
    clash? l = none ↔ l.Pairwise (fun a b => a.priority ≠ b.priority) := by
  induction l with
  | nil => simp [clash?]
  | cons a rest ih =>
    obtain ⟨above, tail⟩ := List.pairwise_cons.mp sorted
    cases rest with
    | nil => simp [clash?]
    | cons b rest =>
      rw [clash?]
      split
      · rename_i same
        simp [same]
      · rename_i different
        rw [ih tail]
        constructor
        · intro apart
          apply List.pairwise_cons.mpr
          refine ⟨?_, apart⟩
          intro c member same
          have first := (byPriority_iff a b).mp (above b (by simp))
          have between : b.priority.toInt ≤ c.priority.toInt := by
            rcases List.mem_cons.mp member with rfl | later
            · exact le_rfl
            · have second := (byPriority_iff b c).mp ((List.pairwise_cons.mp tail).1 c later)
              omega
          have below : a.priority.toInt ≠ b.priority.toInt := fun h => different (Int64.toInt_inj.mp h)
          rw [← Int64.toInt_inj] at same
          omega
        · exact fun apart => (List.pairwise_cons.mp apart).2

/-- The priorities of a group differ. -/
def Distinct (g : Group) : Prop :=
  g.members.Pairwise (fun a b => a.priority ≠ b.priority)

theorem Distinct.eq_of_priority {g : Group} (distinct : g.Distinct) {a b : Definition}
    (left : a ∈ g.members) (right : b ∈ g.members) (same : a.priority = b.priority) : a = b := by
  have symmetric : Std.Symm (fun a b : Definition => a.priority ≠ b.priority) :=
    ⟨fun _ _ apart => Ne.symm apart⟩
  by_contra different
  exact List.Pairwise.forall distinct left right different same

theorem conflict?_eq_none_iff (g : Group) : g.conflict? = none ↔ g.Distinct := by
  rw [conflict?, Option.map_eq_none_iff, clash?_eq_none_iff (sortBy_pairwise byPriority_ranking _)]
  exact (sortBy_perm byPriority g.members).pairwise_iff (fun {_ _} apart => Ne.symm apart)

theorem checked_eq_ok_iff (g h : Group) : g.checked = .ok h ↔ h = g ∧ g.Distinct := by
  rw [← conflict?_eq_none_iff]
  unfold checked
  cases g.conflict? <;> simp [eq_comm]

theorem clash?_of_standing {l m : List Definition}
    (same : l.map Definition.standing = m.map Definition.standing) :
    (clash? l).map (Prod.map Definition.standing Definition.standing) =
      (clash? m).map (Prod.map Definition.standing Definition.standing) := by
  induction l generalizing m with
  | nil =>
    rw [List.map_nil, eq_comm, List.map_eq_nil_iff] at same
    rw [same]
  | cons a rest ih =>
    obtain ⟨a', rest', rfl, first, others⟩ := List.map_eq_cons_iff.mp same.symm
    cases rest with
    | nil =>
      rw [List.map_nil, List.map_eq_nil_iff] at others
      rw [others]
      rfl
    | cons b rest =>
      obtain ⟨b', rest'', rfl, second, -⟩ := List.map_eq_cons_iff.mp others
      have samePriority : a'.priority = a.priority := congrArg Prod.fst first
      have nextPriority : b'.priority = b.priority := congrArg Prod.fst second
      rw [clash?, clash?, samePriority, nextPriority]
      split
      · simp [first, second]
      · exact ih others.symm

theorem conflict?_similar {g h : Group} (similar : Similar g h) :
    Option.Rel Failure.Same g.conflict? h.conflict? := by
  have standings : (sortBy byPriority g.members).map Definition.standing =
      (sortBy byPriority h.members).map Definition.standing :=
    map_sortBy_of_perm byPriority_ranking standing_eq_iff similar.2
  have clashes := clash?_of_standing standings
  unfold conflict?
  rw [similar.1]
  cases left : clash? (sortBy byPriority g.members) with
  | none =>
    rw [left, Option.map_none, eq_comm, Option.map_eq_none_iff] at clashes
    rw [clashes]
    exact .none
  | some pair =>
    rw [left, Option.map_some, eq_comm, Option.map_eq_some_iff] at clashes
    obtain ⟨pair', right, same⟩ := clashes
    rw [right]
    obtain ⟨first, second⟩ := Prod.mk.inj same
    have priority : pair.1.priority = pair'.1.priority := (congrArg Prod.fst first).symm
    have firstPlace : pair.1.location.key = pair'.1.location.key := (congrArg Prod.snd first).symm
    have secondPlace : pair.2.location.key = pair'.2.location.key :=
      (congrArg Prod.snd second).symm
    exact .some ⟨rfl, priority, (Location.same_iff _ _).mpr firstPlace,
      (Location.same_iff _ _).mpr secondPlace⟩

end Group

end Forwarding
