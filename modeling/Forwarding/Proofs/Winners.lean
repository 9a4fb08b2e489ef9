import Forwarding.Proofs.Ranking
/-!
Which definitions resolve and what they resolve to. Definitions resolve exactly when no name has two
of one priority and the greatest of every name is compatible with all others of that name. Every
definition then stands in the chain of its name, and the greatest one wins.
-/

namespace Forwarding

/-- No two definitions have both the same name and the same priority. -/
def Unshared (definitions : List Definition) : Prop :=
  definitions.Pairwise (fun a b => ¬ (a.name = b.name ∧ a.priority = b.priority))

/-- A definition whose priority none of its name exceeds. -/
def Greatest (definitions : List Definition) (winner : Definition) : Prop :=
  winner ∈ definitions ∧ ∀ d ∈ definitions, d.name = winner.name → d.priority ≤ winner.priority

namespace Group

theorem mem_members_iff {definitions : List Definition} {g : Group}
    (member : g ∈ partition definitions) (d : Definition) :
    d ∈ g.members ↔ d ∈ definitions ∧ d.name = g.name := by
  rw [members_eq_filter member]
  simp

theorem exists_group {definitions : List Definition} {d : Definition} (member : d ∈ definitions) :
    ∃ g ∈ partition definitions, g.name = d.name := by
  have named := (mem_names_partition definitions d.name).mpr ⟨d, member, rfl⟩
  exact List.mem_map.mp named

theorem unshared_iff (definitions : List Definition) :
    Unshared definitions ↔ ∀ g ∈ partition definitions, g.Distinct := by
  constructor
  · intro unshared g member
    unfold Distinct
    rw [members_eq_filter member]
    have inGroup : (definitions.filter (fun d => d.name = g.name)).Pairwise
        (fun a b => ¬ (a.name = b.name ∧ a.priority = b.priority)) := unshared.filter _
    refine inGroup.imp_of_mem ?_
    intro a b left right apart same
    have leftName : a.name = g.name := by simpa using (List.mem_filter.mp left).2
    have rightName : b.name = g.name := by simpa using (List.mem_filter.mp right).2
    exact apart ⟨leftName.trans rightName.symm, same⟩
  · intro distinct
    apply List.pairwise_iff_forall_sublist.mpr
    rintro a b sublist ⟨sameName, samePriority⟩
    obtain ⟨g, member, named⟩ := exists_group (sublist.subset (by simp) : a ∈ definitions)
    have kept : [a, b].filter (fun d => d.name = g.name) = [a, b] := by
      simp [named, sameName.symm]
    have together : List.Sublist [a, b] g.members := by
      rw [members_eq_filter member, ← kept]
      exact sublist.filter _
    exact List.pairwise_iff_forall_sublist.mp (distinct g member) together samePriority

end Group

namespace Resolution

theorem winner_mem (g : Group) : (rank g).winner ∈ g.members :=
  (chain_rank_perm g).mem_iff.mp List.mem_cons_self

theorem mem_others_iff {g : Group} (distinct : g.Distinct) (d : Definition) :
    d ∈ (rank g).others ↔ d ∈ g.members ∧ d ≠ (rank g).winner := by
  have above := (List.pairwise_cons.mp (chain_rank_descends distinct)).1
  rw [← (chain_rank_perm g).mem_iff, chain, List.mem_cons]
  constructor
  · intro later
    refine ⟨.inr later, ?_⟩
    rintro rfl
    exact Int64.lt_irrefl (above _ later)
  · rintro ⟨rfl | later, different⟩
    · exact absurd rfl different
    · exact later

/-- The winner exceeds every other definition of its group. -/
theorem winner_above {g : Group} (distinct : g.Distinct) {d : Definition} (member : d ∈ g.members)
    (different : d ≠ (rank g).winner) : d.priority < (rank g).winner.priority :=
  (List.pairwise_cons.mp (chain_rank_descends distinct)).1 d
    ((mem_others_iff distinct d).mpr ⟨member, different⟩)

theorem greatest_iff {definitions : List Definition} {g : Group}
    (member : g ∈ Group.partition definitions) (distinct : g.Distinct) {w : Definition}
    (named : w.name = g.name) : Greatest definitions w ↔ w = (rank g).winner := by
  obtain ⟨present, winnerName⟩ := (Group.mem_members_iff member _).mp (winner_mem g)
  constructor
  · rintro ⟨inDefinitions, greatest⟩
    by_contra different
    have inGroup := (Group.mem_members_iff member w).mpr ⟨inDefinitions, named⟩
    have below := winner_above distinct inGroup different
    have notBelow := greatest _ present (winnerName.trans named.symm)
    exact Int64.not_lt.mpr notBelow below
  · rintro rfl
    refine ⟨present, ?_⟩
    intro d inDefinitions sameName
    by_cases same : d = (rank g).winner
    · rw [same]
      exact Int64.le_refl _
    · have inGroup := (Group.mem_members_iff member d).mpr
        ⟨inDefinitions, sameName.trans winnerName⟩
      exact Int64.le_of_lt (winner_above distinct inGroup same)

theorem fits_iff {definitions : List Definition} (unshared : Unshared definitions) :
    (∀ g ∈ Group.partition definitions, (rank g).Fits) ↔
      ∀ w, Greatest definitions w → ∀ d ∈ definitions, d.name = w.name → d ≠ w →
        w.mismatch? d = none := by
  have distinct := (Group.unshared_iff definitions).mp unshared
  constructor
  · intro fits w greatest d inDefinitions sameName different
    obtain ⟨g, member, named⟩ := Group.exists_group greatest.1
    have won := (greatest_iff member (distinct g member) named.symm).mp greatest
    rw [won] at different ⊢
    have inGroup := (Group.mem_members_iff member d).mpr ⟨inDefinitions, sameName.trans named.symm⟩
    exact fits g member d ((mem_others_iff (distinct g member) d).mpr ⟨inGroup, different⟩)
  · intro compatible g member d later
    obtain ⟨inGroup, different⟩ := (mem_others_iff (distinct g member) d).mp later
    obtain ⟨inDefinitions, dName⟩ := (Group.mem_members_iff member d).mp inGroup
    obtain ⟨-, winnerName⟩ := (Group.mem_members_iff member _).mp (winner_mem g)
    have greatest := (greatest_iff member (distinct g member) winnerName).mpr rfl
    exact compatible _ greatest d inDefinitions (dName.trans winnerName.symm) different

end Resolution

namespace Plan

theorem flatMap_chain_perm (definitions : List Definition) :
    (((Group.partition definitions).map Resolution.rank).flatMap Resolution.chain).Perm
      definitions := by
  refine List.Perm.trans ?_ (Group.partition_perm definitions)
  induction Group.partition definitions with
  | nil => exact .refl _
  | cons g rest ih =>
    rw [List.map_cons, List.flatMap_cons, List.flatMap_cons]
    exact (Resolution.chain_rank_perm g).append ih

/-- Definitions resolve exactly when no two share name and priority and every other definition of a
name is compatible with the greatest. Each then has its place in the one chain of its name. -/
theorem resolves_iff_unshared_and_compatible (definitions : List Definition) :
    ((∃ resolutions, resolve definitions = .ok resolutions) ↔
      Unshared definitions ∧
        ∀ w, Greatest definitions w → ∀ d ∈ definitions, d.name = w.name → d ≠ w →
          w.mismatch? d = none) ∧
    ∀ resolutions, resolve definitions = .ok resolutions →
      (resolutions.map Resolution.name).Pairwise (fun a b => bytesOf a < bytesOf b) ∧
      (∀ r ∈ resolutions, r.chain ≠ [] ∧
        r.chain.Pairwise (fun a b => b.priority < a.priority) ∧
        (∀ d ∈ r.chain, d.name = r.name)) ∧
      (resolutions.flatMap Resolution.chain).Perm definitions ∧
      ∀ r ∈ resolutions, r.winner ∈ definitions ∧ r.winner.name = r.name ∧
        ∀ d ∈ definitions, d.name = r.name → d ≠ r.winner → d.priority < r.winner.priority := by
  constructor
  · constructor
    · rintro ⟨resolutions, succeeded⟩
      obtain ⟨-, distinct, fits⟩ := (resolve_eq_ok_iff definitions resolutions).mp succeeded
      have unshared := (Group.unshared_iff definitions).mpr distinct
      exact ⟨unshared, (Resolution.fits_iff unshared).mp fits⟩
    · rintro ⟨unshared, compatible⟩
      exact ⟨_, (resolve_eq_ok_iff definitions _).mpr ⟨rfl,
        (Group.unshared_iff definitions).mp unshared,
        (Resolution.fits_iff unshared).mpr compatible⟩⟩
  · intro resolutions succeeded
    obtain ⟨rfl, distinct, -⟩ := (resolve_eq_ok_iff definitions resolutions).mp succeeded
    refine ⟨?_, ?_, flatMap_chain_perm definitions, ?_⟩
    · rw [List.map_map, List.pairwise_map]
      exact (Group.partition_ordered definitions).imp bytesOf_lt
    · intro r member
      obtain ⟨g, inGroups, rfl⟩ := List.mem_map.mp member
      refine ⟨List.cons_ne_nil _ _, Resolution.chain_rank_descends (distinct g inGroups), ?_⟩
      intro d inChain
      have inGroup := (Resolution.chain_rank_perm g).mem_iff.mp inChain
      exact ((Group.mem_members_iff inGroups d).mp inGroup).2
    · intro r member
      obtain ⟨g, inGroups, rfl⟩ := List.mem_map.mp member
      obtain ⟨present, named⟩ :=
        (Group.mem_members_iff inGroups _).mp (Resolution.winner_mem g)
      refine ⟨present, named, ?_⟩
      intro d inDefinitions sameName different
      exact Resolution.winner_above (distinct g inGroups)
        ((Group.mem_members_iff inGroups d).mpr ⟨inDefinitions, sameName⟩) different

/-- A definition of `A` whose parameter has the type of a generic parameter that is not declared. -/
def undeclared : Definition where
  name := "A"
  priority := 0
  typePath := "crate::A"
  constructor := "new"
  params := [⟨"x", .generic 0 "T"⟩]
  generics := []
  predicates := []
  properties := []
  location := .ofFile "src/lib.rs"

/-- The greatest definition is not compared with itself, so it may resolve without fitting itself. -/
theorem resolves_undeclared :
    ¬ ((∃ resolutions, resolve [undeclared] = .ok resolutions) ↔
      Unshared [undeclared] ∧
        ∀ w, Greatest [undeclared] w → ∀ d ∈ [undeclared], d.name = w.name →
          w.mismatch? d = none) := by
  intro claimed
  have resolved : resolve [undeclared] = .ok [⟨"A", undeclared, []⟩] := rfl
  have greatest : Greatest [undeclared] undeclared := by
    refine ⟨List.mem_singleton_self _, fun d member _ => ?_⟩
    rw [List.mem_singleton.mp member]
    exact Int64.le_refl _
  have misfits : undeclared.mismatch? undeclared = some (.parameter 0 "T" "T") := rfl
  have fits := (claimed.mp ⟨_, resolved⟩).2 _ greatest _ (List.mem_singleton_self _) rfl
  rw [misfits] at fits
  cases fits

end Plan

end Forwarding
