import Forwarding.Group
import Forwarding.Proofs.Failure
import Forwarding.Proofs.Sorting
import Mathlib.Data.List.Induction
import Mathlib.Data.String.Basic
/-!
Grouping is a partition: the names of the groups increase, and a group has exactly the definitions
of its name, in the order in which they are given.
-/

namespace Forwarding

namespace Group

/-- The names of groups increase. -/
def Ordered (groups : List Group) : Prop :=
  groups.Pairwise (fun g h => g.name < h.name)

/-- The definitions in the groups of a name. -/
def membersOf (name : String) (groups : List Group) : List Definition :=
  (groups.filter (fun g => g.name = name)).flatMap members

theorem membersOf_cons (name : String) (g : Group) (rest : List Group) :
    membersOf name (g :: rest) =
      if g.name = name then g.members ++ membersOf name rest else membersOf name rest := by
  unfold membersOf
  by_cases same : g.name = name <;> simp [same]

theorem membersOf_eq_nil {name : String} {groups : List Group}
    (absent : ∀ g ∈ groups, g.name ≠ name) : membersOf name groups = [] := by
  have none : groups.filter (fun g => g.name = name) = [] := by
    rw [List.filter_eq_nil_iff]
    intro g member
    simpa using absent g member
  rw [membersOf, none, List.flatMap_nil]

theorem membersOf_name {groups : List Group} (ordered : Ordered groups) {g : Group}
    (member : g ∈ groups) : membersOf g.name groups = g.members := by
  induction groups with
  | nil => cases member
  | cons first rest ih =>
    obtain ⟨above, tail⟩ := List.pairwise_cons.mp ordered
    rw [membersOf_cons]
    rcases List.mem_cons.mp member with rfl | member
    · rw [if_pos rfl, membersOf_eq_nil (fun h later => (above h later).ne'), List.append_nil]
    · rw [if_neg (above g member).ne, ih tail member]

theorem mem_names_insert (d : Definition) (groups : List Group) (name : String) :
    name ∈ (insert d groups).map Group.name ↔ name = d.name ∨ name ∈ groups.map Group.name := by
  induction groups with
  | nil => simp [insert]
  | cons g rest ih =>
    unfold insert
    split
    · simp
    · split
      · rename_i same
        simp [same]
      · simp only [List.map_cons, List.mem_cons, ih]
        tauto

theorem insert_ordered (d : Definition) {groups : List Group} (ordered : Ordered groups) :
    Ordered (insert d groups) := by
  induction groups with
  | nil => simp [insert, Ordered]
  | cons g rest ih =>
    obtain ⟨above, tail⟩ := List.pairwise_cons.mp ordered
    unfold insert
    split
    · rename_i before
      apply List.pairwise_cons.mpr
      refine ⟨?_, ordered⟩
      intro h member
      rcases List.mem_cons.mp member with rfl | member
      · exact before
      · exact before.trans (above h member)
    · rename_i notBefore
      split
      · exact List.pairwise_cons.mpr ⟨above, tail⟩
      · rename_i different
        apply List.pairwise_cons.mpr
        refine ⟨?_, ih tail⟩
        intro h member
        have named : h.name ∈ (insert d rest).map Group.name := List.mem_map_of_mem member
        rcases (mem_names_insert d rest h.name).mp named with same | later
        · rw [same]
          exact lt_of_le_of_ne (not_lt.mp notBefore) (Ne.symm different)
        · obtain ⟨other, member, same⟩ := List.mem_map.mp later
          rw [← same]
          exact above other member

theorem membersOf_insert (d : Definition) {groups : List Group} (ordered : Ordered groups)
    (name : String) :
    membersOf name (insert d groups) =
      membersOf name groups ++ if d.name = name then [d] else [] := by
  induction groups with
  | nil => by_cases same : d.name = name <;> simp [insert, membersOf, members, same]
  | cons g rest ih =>
    obtain ⟨above, tail⟩ := List.pairwise_cons.mp ordered
    unfold insert
    split
    · rename_i before
      rw [membersOf_cons]
      by_cases same : d.name = name
      · have absent : ∀ h ∈ g :: rest, h.name ≠ name := by
          intro h member
          rcases List.mem_cons.mp member with rfl | member
          · rw [← same]
            exact before.ne'
          · rw [← same]
            exact (before.trans (above h member)).ne'
        simp [same, membersOf_eq_nil absent, members]
      · simp [same]
    · split
      · rename_i found
        rw [membersOf_cons, membersOf_cons]
        by_cases same : g.name = name
        · have absent : ∀ h ∈ rest, h.name ≠ name :=
            fun h member => same ▸ (above h member).ne'
          simp [same, found, membersOf_eq_nil absent, members]
        · simp [same, found]
      · rw [membersOf_cons, membersOf_cons, ih tail]
        by_cases same : g.name = name <;> simp [same]

theorem insert_perm (d : Definition) (groups : List Group) :
    ((insert d groups).flatMap members).Perm (groups.flatMap members ++ [d]) := by
  induction groups with
  | nil => exact .refl _
  | cons g rest ih =>
    unfold insert
    split
    · exact @List.perm_append_comm _ [d] _
    · split
      · simp only [List.flatMap_cons, members, List.cons_append, List.append_assoc]
        exact ((@List.perm_append_comm _ [d] _).append_left _).cons _
      · simp only [List.flatMap_cons, List.append_assoc]
        exact ih.append_left _

theorem partition_concat (definitions : List Definition) (d : Definition) :
    partition (definitions ++ [d]) = insert d (partition definitions) := by
  simp [partition]

theorem partition_ordered (definitions : List Definition) : Ordered (partition definitions) := by
  induction definitions using List.reverseRecOn with
  | nil => exact .nil
  | append_singleton definitions d ih =>
    rw [partition_concat]
    exact insert_ordered d ih

theorem membersOf_partition (definitions : List Definition) (name : String) :
    membersOf name (partition definitions) = definitions.filter (fun d => d.name = name) := by
  induction definitions using List.reverseRecOn with
  | nil => rfl
  | append_singleton definitions d ih =>
    rw [partition_concat, membersOf_insert d (partition_ordered definitions), ih,
      List.filter_append]
    by_cases same : d.name = name <;> simp [same]

/-- A group has the definitions of its name, in their order. -/
theorem members_eq_filter {definitions : List Definition} {g : Group}
    (member : g ∈ partition definitions) :
    g.members = definitions.filter (fun d => d.name = g.name) := by
  rw [← membersOf_name (partition_ordered definitions) member, membersOf_partition]

theorem mem_names_partition (definitions : List Definition) (name : String) :
    name ∈ (partition definitions).map Group.name ↔ ∃ d ∈ definitions, d.name = name := by
  induction definitions using List.reverseRecOn with
  | nil => simp [partition]
  | append_singleton definitions d ih =>
    rw [partition_concat, mem_names_insert, ih]
    simp only [List.mem_append, List.mem_singleton]
    constructor
    · rintro (rfl | ⟨other, member, same⟩)
      · exact ⟨d, .inr rfl, rfl⟩
      · exact ⟨other, .inl member, same⟩
    · rintro ⟨other, member | rfl, same⟩
      · exact .inr ⟨other, member, same⟩
      · exact .inl same.symm

/-- No definition is lost and none is invented. -/
theorem partition_perm (definitions : List Definition) :
    ((partition definitions).flatMap members).Perm definitions := by
  induction definitions using List.reverseRecOn with
  | nil => exact .refl _
  | append_singleton definitions d ih =>
    rw [partition_concat]
    exact (insert_perm d _).trans (ih.append_right [d])

/-- Groups of one name with the same definitions in some order. -/
def Similar (g h : Group) : Prop :=
  g.name = h.name ∧ g.members.Perm h.members

theorem similar_of_names {definitions others : List Definition} (perm : definitions.Perm others)
    {groups groups' : List Group} (names : groups.map Group.name = groups'.map Group.name)
    (left : ∀ g ∈ groups, g.members = definitions.filter (fun d => d.name = g.name))
    (right : ∀ g ∈ groups', g.members = others.filter (fun d => d.name = g.name)) :
    List.Forall₂ Similar groups groups' := by
  induction groups generalizing groups' with
  | nil =>
    rw [List.map_nil, eq_comm, List.map_eq_nil_iff] at names
    subst names
    exact .nil
  | cons g rest ih =>
    cases groups' with
    | nil => simp at names
    | cons h rest' =>
      simp only [List.map_cons, List.cons.injEq] at names
      obtain ⟨same, tails⟩ := names
      refine .cons ⟨same, ?_⟩ (ih tails (fun i member => left i (List.mem_cons_of_mem g member))
        (fun i member => right i (List.mem_cons_of_mem h member)))
      rw [left g (by simp), right h (by simp), same]
      exact perm.filter _

theorem partition_similar {definitions others : List Definition} (perm : definitions.Perm others) :
    List.Forall₂ Similar (partition definitions) (partition others) := by
  have increasing : ∀ definitions, ((partition definitions).map Group.name).Pairwise (· < ·) :=
    fun definitions => List.pairwise_map.mpr (partition_ordered definitions)
  have nodup : ∀ definitions, ((partition definitions).map Group.name).Nodup :=
    fun definitions => (increasing definitions).imp ne_of_lt
  have namesPerm : ((partition definitions).map Group.name).Perm
      ((partition others).map Group.name) := by
    rw [List.perm_ext_iff_of_nodup (nodup definitions) (nodup others)]
    intro name
    rw [mem_names_partition, mem_names_partition]
    simp only [perm.mem_iff]
  have names : (partition definitions).map Group.name = (partition others).map Group.name :=
    namesPerm.eq_of_pairwise (fun a b _ _ below above => absurd above below.asymm)
      (increasing definitions) (increasing others)
  exact similar_of_names perm names (fun g => members_eq_filter) (fun g => members_eq_filter)

end Group

end Forwarding
