import Forwarding.Plan
import Forwarding.Proofs.ByteOrder
import Forwarding.Proofs.Priority
/-!
Resolution. The chain of a group with distinct priorities has all of its definitions by strictly
descending priority, so that the chain does not depend on the order in which they are given.
-/

namespace Forwarding

namespace Resolution

theorem byRank_iff (a b : Definition) :
    byRank a b = true ↔ b.priority.toInt ≤ a.priority.toInt := by
  simp [byRank, Int64.le_iff_toInt_le]

theorem byRank_ranking : IsRanking byRank where
  total a b := by
    rw [byRank_iff, byRank_iff]
    omega
  trans a b c first second := by
    rw [byRank_iff] at first second ⊢
    omega

theorem chain_rank (g : Group) : (rank g).chain = sortBy byRank g.members := by
  have perm := sortBy_perm byRank g.members
  unfold rank chain
  cases sorted : sortBy byRank g.members with
  | nil =>
    rw [sorted] at perm
    exact absurd perm.symm.eq_nil (List.cons_ne_nil _ _)
  | cons first rest => rfl

theorem chain_rank_perm (g : Group) : (rank g).chain.Perm g.members := by
  rw [chain_rank]
  exact sortBy_perm byRank g.members

/-- Distinct priorities descend strictly along a chain. -/
theorem chain_rank_descends {g : Group} (distinct : g.Distinct) :
    (rank g).chain.Pairwise (fun a b => b.priority < a.priority) := by
  rw [chain_rank]
  have apart : (sortBy byRank g.members).Pairwise (fun a b => a.priority ≠ b.priority) :=
    ((sortBy_perm byRank g.members).pairwise_iff (fun {_ _} apart => Ne.symm apart)).mpr distinct
  refine (sortBy_pairwise byRank_ranking g.members).imp₂ ?_ apart
  intro a b ordered different
  rw [byRank_iff] at ordered
  rw [Ne, ← Int64.toInt_inj] at different
  rw [Int64.lt_iff_toInt_lt]
  omega

theorem rank_similar {g h : Group} (similar : g.Similar h) (distinct : g.Distinct) :
    rank g = rank h := by
  have ties : ∀ a ∈ g.members, ∀ b ∈ g.members, byRank a b = true → byRank b a = true → a = b := by
    intro a left b right forward backward
    rw [byRank_iff] at forward backward
    have same : a.priority.toInt = b.priority.toInt := by omega
    exact distinct.eq_of_priority left right (Int64.toInt_inj.mp same)
  have chains : (rank g).chain = (rank h).chain := by
    rw [chain_rank, chain_rank]
    exact sortBy_eq_of_perm byRank_ranking similar.2 ties
  obtain ⟨winners, others⟩ := List.cons.inj chains
  have names : (rank g).name = (rank h).name := similar.1
  generalize rank g = r at winners others names
  generalize rank h = s at winners others names
  cases r
  cases s
  simp_all

/-- Every definition after the winner is compatible with it. -/
def Fits (r : Resolution) : Prop :=
  ∀ member ∈ r.others, r.winner.mismatch? member = none

theorem misfit?_eq_none_iff (r : Resolution) : r.misfit? = none ↔ r.Fits := by
  simp [misfit?, Fits]

theorem ofGroup_eq_ok_iff (g : Group) (r : Resolution) :
    ofGroup g = .ok r ↔ r = rank g ∧ (rank g).Fits := by
  rw [← misfit?_eq_none_iff]
  unfold ofGroup
  cases (rank g).misfit? <;> simp [eq_comm]

end Resolution

namespace Group

theorem ofDefinitions_eq_ok_iff (definitions : List Definition) (groups : List Group) :
    ofDefinitions definitions = .ok groups ↔
      groups = partition definitions ∧ ∀ g ∈ partition definitions, g.Distinct := by
  have passed := mapM_eq_ok_map_iff (fun g h => checked_eq_ok_iff g h) (partition definitions) groups
  rw [List.map_id'] at passed
  exact passed

end Group

namespace Plan

theorem resolve_eq (definitions : List Definition) :
    resolve definitions =
      match Group.ofDefinitions definitions with
      | .error failure => .error failure
      | .ok groups => Resolution.ofGroups groups := by
  unfold resolve
  cases Group.ofDefinitions definitions <;> rfl

theorem resolve_eq_ok_iff (definitions : List Definition) (resolutions : List Resolution) :
    resolve definitions = .ok resolutions ↔
      resolutions = (Group.partition definitions).map Resolution.rank ∧
        (∀ g ∈ Group.partition definitions, g.Distinct) ∧
        ∀ g ∈ Group.partition definitions, (Resolution.rank g).Fits := by
  rw [resolve_eq]
  cases grouped : Group.ofDefinitions definitions with
  | error failure =>
    constructor
    · intro succeeded
      cases succeeded
    · rintro ⟨-, distinct, -⟩
      rw [(Group.ofDefinitions_eq_ok_iff definitions _).mpr ⟨rfl, distinct⟩] at grouped
      cases grouped
  | ok groups =>
    obtain ⟨rfl, distinct⟩ := (Group.ofDefinitions_eq_ok_iff definitions groups).mp grouped
    have ranked := mapM_eq_ok_map_iff (fun g r => Resolution.ofGroup_eq_ok_iff g r)
      (Group.partition definitions) resolutions
    show (Group.partition definitions).mapM Resolution.ofGroup = .ok resolutions ↔ _
    rw [ranked]
    exact and_congr_right fun _ => (and_iff_right distinct).symm

end Plan

end Forwarding
