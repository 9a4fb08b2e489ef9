import Forwarding.Proofs.Winners
/-!
Conflicts. Grouping fails exactly when two definitions share a name and a priority. What is reported
is the least name with such a pair, the least priority that is shared under it, and the two least
places among all definitions that have both.
-/

namespace Forwarding

namespace Group

/-- The definitions of a name and a priority. -/
def rivals (definitions : List Definition) (name : String) (priority : Priority) :
    List Definition :=
  definitions.filter fun d => d.name = name ∧ d.priority = priority

/-- At least two definitions have a name and a priority. -/
def Shared (definitions : List Definition) (name : String) (priority : Priority) : Prop :=
  2 ≤ (rivals definitions name priority).length

instance (definitions : List Definition) (name : String) (priority : Priority) :
    Decidable (Shared definitions name priority) :=
  inferInstanceAs (Decidable (2 ≤ _))

/-- The places of some definitions are in order. -/
def PlacesInOrder (definitions : List Definition) : Prop :=
  definitions.Pairwise fun a b => (a.location.compare b.location).isLE = true

theorem le_of_byPriority {a b : Definition} (ordered : byPriority a b = true) :
    a.priority ≤ b.priority := by
  rw [Int64.le_iff_toInt_le]
  rcases (byPriority_iff a b).mp ordered with below | ⟨same, -⟩ <;> omega

/-- Where priorities differ, no two definitions have the same one. -/
theorem length_filter_priority_lt {l : List Definition}
    (distinct : l.Pairwise fun a b => a.priority ≠ b.priority) (p : Priority) :
    (l.filter fun d => d.priority = p).length < 2 := by
  have apart := distinct.filter fun d => decide (d.priority = p)
  have same (d : Definition) (member : d ∈ l.filter fun d => d.priority = p) : d.priority = p := by
    simpa using (List.mem_filter.mp member).2
  generalize l.filter (fun d => d.priority = p) = kept at apart same ⊢
  rcases kept with _ | ⟨a, _ | ⟨b, others⟩⟩
  · simp
  · simp
  · have different := (List.pairwise_cons.mp apart).1 b List.mem_cons_self
    exact absurd ((same a (by simp)).trans (same b (by simp)).symm) different

/-- The first clash of sorted definitions comes after definitions whose priorities increase. -/
theorem exists_split_of_clash {l : List Definition} {a b : Definition}
    (sorted : l.Pairwise fun a b => byPriority a b = true) (clash : clash? l = some (a, b)) :
    ∃ before after, l = before ++ a :: b :: after ∧ a.priority = b.priority ∧
      (before ++ [a]).Pairwise fun c d => c.priority < d.priority := by
  induction l with
  | nil => cases clash
  | cons x rest ih =>
    obtain ⟨above, tail⟩ := List.pairwise_cons.mp sorted
    cases rest with
    | nil => cases clash
    | cons y rest =>
      rw [clash?] at clash
      split at clash
      · rename_i same
        cases clash
        exact ⟨[], rest, rfl, same, List.pairwise_singleton _ _⟩
      · rename_i different
        obtain ⟨before, after, split, same, increasing⟩ := ih tail clash
        refine ⟨x :: before, after, by rw [split]; rfl, same, ?_⟩
        refine List.pairwise_cons.mpr ⟨fun d member => ?_, increasing⟩
        have later : d ∈ y :: rest := by
          rw [split]
          rcases List.mem_append.mp member with inside | last
          · exact List.mem_append_left _ inside
          · rw [List.mem_singleton.mp last]
            exact List.mem_append_right _ List.mem_cons_self
        have first : x.priority < y.priority :=
          Int64.lt_of_le_of_ne (le_of_byPriority (above y List.mem_cons_self)) different
        rcases List.mem_cons.mp later with rfl | later
        · exact first
        · exact Int64.lt_of_lt_of_le first
            (le_of_byPriority ((List.pairwise_cons.mp tail).1 d later))

/-- Below the first clash of sorted definitions no priority is shared, and those that share the
priority of the clash begin with its two definitions. -/
theorem clash_least {l : List Definition} {a b : Definition}
    (sorted : l.Pairwise fun a b => byPriority a b = true) (clash : clash? l = some (a, b)) :
    (∀ p, 2 ≤ (l.filter fun d => d.priority = p).length → a.priority ≤ p) ∧
      ∃ rest, (l.filter fun d => d.priority = a.priority) = a :: b :: rest ∧
        PlacesInOrder (a :: b :: rest) := by
  obtain ⟨before, after, rfl, same, increasing⟩ := exists_split_of_clash sorted clash
  obtain ⟨distinct, -, below⟩ := List.pairwise_append.mp increasing
  have ordered := (List.pairwise_append.mp sorted).2.1
  have least (d : Definition) (member : d ∈ a :: b :: after) : a.priority ≤ d.priority := by
    rcases List.mem_cons.mp member with rfl | later
    · exact Int64.le_refl _
    · exact le_of_byPriority ((List.pairwise_cons.mp ordered).1 d later)
  constructor
  · intro p shared
    by_contra notLe
    have lower : p < a.priority := Int64.not_le.mp notLe
    have none : (a :: b :: after).filter (fun d => d.priority = p) = [] := by
      refine List.filter_eq_nil_iff.mpr fun d member equal => ?_
      rw [decide_eq_true_eq] at equal
      exact notLe (equal ▸ least d member)
    rw [List.filter_append, none, List.append_nil] at shared
    exact absurd shared (Nat.not_le.mpr (length_filter_priority_lt
      (distinct.imp fun less => (Int64.ne_of_lt less)) p))
  · have none : before.filter (fun d => d.priority = a.priority) = [] := by
      refine List.filter_eq_nil_iff.mpr fun d member equal => ?_
      rw [decide_eq_true_eq] at equal
      have less := below d member a (List.mem_singleton_self a)
      rw [equal] at less
      exact Int64.lt_irrefl less
    have kept : (before ++ a :: b :: after).filter (fun d => d.priority = a.priority) =
        a :: b :: after.filter fun d => d.priority = a.priority := by
      rw [List.filter_append, none, List.nil_append, List.filter_cons_of_pos (by simp),
        List.filter_cons_of_pos (by simp [same])]
    refine ⟨_, kept, ?_⟩
    rw [← kept]
    refine (sorted.filter _).imp_of_mem fun {c d} left right order => ?_
    have equal (e : Definition)
        (member : e ∈ (before ++ a :: b :: after).filter fun d => d.priority = a.priority) :
        e.priority = a.priority := by
      simpa using (List.mem_filter.mp member).2
    rcases (byPriority_iff c d).mp order with less | ⟨-, places⟩
    · rw [equal c left, equal d right] at less
      omega
    · exact places

theorem conflict?_reports_least {g : Group} {failure : Failure}
    (fails : g.conflict? = some failure) :
    ∃ priority a b rest, failure = .duplicatePriority g.name priority a.location b.location ∧
      (∀ p, 2 ≤ (g.members.filter fun d => d.priority = p).length → priority ≤ p) ∧
        (g.members.filter fun d => d.priority = priority).Perm (a :: b :: rest) ∧
          PlacesInOrder (a :: b :: rest) := by
  obtain ⟨⟨a, b⟩, clash, rfl⟩ := Option.map_eq_some_iff.mp fails
  have perm := sortBy_perm byPriority g.members
  obtain ⟨least, rest, kept, places⟩ :=
    clash_least (sortBy_pairwise byPriority_ranking g.members) clash
  refine ⟨a.priority, a, b, rest, rfl, fun p shared => least p ?_, ?_, places⟩
  · rwa [(perm.filter _).length_eq]
  · rw [← kept]
    exact (perm.filter _).symm

theorem rivals_eq {definitions : List Definition} {g : Group} (member : g ∈ partition definitions)
    (p : Priority) :
    rivals definitions g.name p = g.members.filter fun d => d.priority = p := by
  rw [members_eq_filter member, List.filter_filter, rivals]
  refine List.filter_congr fun d _ => ?_
  rw [Bool.decide_and, Bool.and_comm]

theorem Distinct.not_shared {definitions : List Definition} {g : Group}
    (member : g ∈ partition definitions) (distinct : g.Distinct) (p : Priority) :
    ¬ Shared definitions g.name p := by
  rw [Shared, rivals_eq member]
  exact Nat.not_le.mpr (length_filter_priority_lt distinct p)

theorem Shared.exists_group {definitions : List Definition} {name : String} {p : Priority}
    (shared : Shared definitions name p) : ∃ g ∈ partition definitions, g.name = name := by
  have filled : rivals definitions name p ≠ [] := by
    intro none
    rw [Shared, none] at shared
    cases shared
  obtain ⟨d, member⟩ := List.exists_mem_of_ne_nil _ filled
  obtain ⟨present, own⟩ := List.mem_filter.mp member
  rw [decide_eq_true_eq] at own
  exact (mem_names_partition definitions name).mpr ⟨d, present, own.1⟩ |> List.mem_map.mp

theorem checked_eq_error_iff (g : Group) (failure : Failure) :
    g.checked = .error failure ↔ g.conflict? = some failure := by
  unfold checked
  cases g.conflict? <;> simp

/-- The failure of a grouping is that of the first group whose priorities do not differ. -/
theorem ofDefinitions_reports {definitions : List Definition} {failure : Failure}
    (fails : ofDefinitions definitions = .error failure) :
    ∃ name priority a b rest,
      failure = .duplicatePriority name priority a.location b.location ∧
        (∀ other p, Shared definitions other p → other = name ∨ bytesOf name < bytesOf other) ∧
        (∀ p, Shared definitions name p → priority ≤ p) ∧
        (rivals definitions name priority).Perm (a :: b :: rest) ∧
        PlacesInOrder (a :: b :: rest) := by
  obtain ⟨before, g, after, split, pass, stops⟩ := (mapM_eq_error_iff checked _ failure).mp fails
  have member : g ∈ partition definitions := by
    rw [split]
    simp
  obtain ⟨priority, a, b, rest, rfl, least, perm, places⟩ :=
    conflict?_reports_least ((checked_eq_error_iff g failure).mp stops)
  refine ⟨g.name, priority, a, b, rest, rfl, fun other p shared => ?_, fun p shared => least p ?_,
    ?_, places⟩
  · obtain ⟨h, inside, rfl⟩ := shared.exists_group
    have ordered := partition_ordered definitions
    have kept := inside
    rw [split] at kept ordered
    rcases List.mem_append.mp kept with earlier | later
    · obtain ⟨_, passed⟩ := pass h earlier
      exact absurd shared (((checked_eq_ok_iff h _).mp passed).2.not_shared inside p)
    · rcases List.mem_cons.mp later with rfl | later
      · exact .inl rfl
      · exact .inr (bytesOf_lt
          ((List.pairwise_cons.mp (List.pairwise_append.mp ordered).2.1).1 h later))
  · rw [← rivals_eq member]
    exact shared
  · rw [rivals_eq member]
    exact perm

/-- Grouping fails exactly when two definitions share a name and a priority. It reports the least
such name in the order of bytes, the least priority that is shared under this name, and the two
least places of all definitions with both. -/
theorem ofDefinitions_fails (definitions : List Definition) :
    ((∃ failure, ofDefinitions definitions = .error failure) ↔
        ∃ name priority, Shared definitions name priority) ∧
      ∀ failure, ofDefinitions definitions = .error failure →
        ∃ name priority a b rest,
          failure = .duplicatePriority name priority a.location b.location ∧
            (∀ other p, Shared definitions other p → other = name ∨ bytesOf name < bytesOf other) ∧
            (∀ p, Shared definitions name p → priority ≤ p) ∧
            (rivals definitions name priority).Perm (a :: b :: rest) ∧
            PlacesInOrder (a :: b :: rest) := by
  refine ⟨⟨?_, ?_⟩, fun failure fails => ofDefinitions_reports fails⟩
  · rintro ⟨failure, fails⟩
    obtain ⟨name, priority, a, b, rest, -, -, -, perm, -⟩ := ofDefinitions_reports fails
    refine ⟨name, priority, ?_⟩
    rw [Shared, perm.length_eq]
    simp
  · rintro ⟨name, priority, shared⟩
    cases grouped : ofDefinitions definitions with
    | error failure => exact ⟨failure, rfl⟩
    | ok groups =>
      obtain ⟨-, distinct⟩ := (ofDefinitions_eq_ok_iff definitions groups).mp grouped
      obtain ⟨g, member, rfl⟩ := shared.exists_group
      exact absurd shared ((distinct g member).not_shared member priority)

/-- A definition at a line. -/
def atLine (name : String) (priority : Priority) (line : Nat) : Definition where
  name
  priority
  typePath := "crate::" ++ name
  constructor := "new"
  params := []
  generics := []
  predicates := []
  properties := []
  location := ⟨"src/lib.rs", line, 1⟩

/-- Two names, of which one has two priorities that are shared, the lower one three times. -/
def crowded : List Definition :=
  [atLine "B" 7 1, atLine "B" 2 9, atLine "A" 2 4, atLine "B" 2 3, atLine "B" 7 2, atLine "B" 2 6]

theorem ofDefinitions_fails_crowded :
    ofDefinitions crowded =
        .error (.duplicatePriority "B" 2 ⟨"src/lib.rs", 3, 1⟩ ⟨"src/lib.rs", 6, 1⟩) ∧
      ∃ name priority a b rest,
        Failure.duplicatePriority "B" 2 ⟨"src/lib.rs", 3, 1⟩ ⟨"src/lib.rs", 6, 1⟩ =
            .duplicatePriority name priority a.location b.location ∧
          (∀ other p, Shared crowded other p → other = name ∨ bytesOf name < bytesOf other) ∧
          (∀ p, Shared crowded name p → priority ≤ p) ∧
          (rivals crowded name priority).Perm (a :: b :: rest) ∧
          PlacesInOrder (a :: b :: rest) := by
  have fails : ofDefinitions crowded =
      .error (.duplicatePriority "B" 2 ⟨"src/lib.rs", 3, 1⟩ ⟨"src/lib.rs", 6, 1⟩) := by
    decide +kernel
  exact ⟨fails, (ofDefinitions_fails crowded).2 _ fails⟩

end Group

end Forwarding
