import Forwarding.Order
/-!
Sorting. A sorted list is in order, and when ties are elements of one key the keys of the sorted
list depend only on what is sorted, not on the order in which it is given.
-/

namespace Forwarding

/-- A comparison under which any two elements are in order one way or the other. -/
structure IsRanking {α : Type} (le : α → α → Bool) : Prop where
  total : ∀ a b, le a b = true ∨ le b a = true
  trans : ∀ a b c, le a b = true → le b c = true → le a c = true

variable {α : Type} {le : α → α → Bool}

theorem insertBy_pairwise (ranking : IsRanking le) (a : α) {l : List α}
    (sorted : l.Pairwise (fun x y => le x y = true)) :
    (insertBy le a l).Pairwise (fun x y => le x y = true) := by
  induction l with
  | nil => simp [insertBy]
  | cons b rest ih =>
    obtain ⟨first, tail⟩ := List.pairwise_cons.mp sorted
    unfold insertBy
    split
    · rename_i before
      apply List.pairwise_cons.mpr
      refine ⟨?_, sorted⟩
      intro c member
      rcases List.mem_cons.mp member with rfl | member
      · exact before
      · exact ranking.trans a b c before (first c member)
    · rename_i after
      have swapped : le b a = true := (ranking.total a b).resolve_left after
      apply List.pairwise_cons.mpr
      refine ⟨?_, ih tail⟩
      intro c member
      rcases List.mem_cons.mp ((insertBy_perm le a rest).mem_iff.mp member) with rfl | member
      · exact swapped
      · exact first c member

theorem sortBy_pairwise (ranking : IsRanking le) (l : List α) :
    (sortBy le l).Pairwise (fun x y => le x y = true) := by
  induction l with
  | nil => exact .nil
  | cons a rest ih => exact insertBy_pairwise ranking a ih

/-- The order in which elements are given is lost by sorting, as long as ties are equal. -/
theorem sortBy_eq_of_perm (ranking : IsRanking le) {l m : List α} (perm : l.Perm m)
    (ties : ∀ a ∈ l, ∀ b ∈ l, le a b = true → le b a = true → a = b) :
    sortBy le l = sortBy le m := by
  have sorted : (sortBy le l).Perm (sortBy le m) :=
    (sortBy_perm le l).trans (perm.trans (sortBy_perm le m).symm)
  apply List.Perm.eq_of_pairwise ?_ (sortBy_pairwise ranking l) (sortBy_pairwise ranking m) sorted
  intro a b inLeft inRight
  apply ties
  · exact (sortBy_perm le l).mem_iff.mp inLeft
  · exact perm.mem_iff.mpr ((sortBy_perm le m).mem_iff.mp inRight)

/-- The keys of a sorted list do not depend on the order in which the elements are given. -/
theorem map_sortBy_of_perm {κ : Type} {key : α → κ} (ranking : IsRanking le)
    (ties : ∀ a b, key a = key b ↔ le a b = true ∧ le b a = true) {l m : List α}
    (perm : l.Perm m) : (sortBy le l).map key = (sortBy le m).map key := by
  let before := fun x y => ∃ a b, key a = x ∧ key b = y ∧ le a b = true
  have keysSorted : ∀ l, ((sortBy le l).map key).Pairwise before := by
    intro l
    rw [List.pairwise_map]
    exact (sortBy_pairwise ranking l).imp fun {a b} ordered => ⟨a, b, rfl, rfl, ordered⟩
  have sorted : (sortBy le l).Perm (sortBy le m) :=
    (sortBy_perm le l).trans (perm.trans (sortBy_perm le m).symm)
  apply List.Perm.eq_of_pairwise ?_ (keysSorted l) (keysSorted m) (sorted.map key)
  rintro x y - - ⟨a, b, rfl, rfl, forward⟩ ⟨b', a', sameB, sameA, backward⟩
  have toB' := ((ties b b').mp sameB.symm).1
  have fromA' := ((ties a' a).mp sameA).1
  exact (ties a b).mpr ⟨forward, ranking.trans b b' a toB' (ranking.trans b' a' a backward fromA')⟩

end Forwarding
