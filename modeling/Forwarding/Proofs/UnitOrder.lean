import Forwarding.Proofs.Characters
import Forwarding.Proofs.Ranking
/-!
Plans do not depend on the order of units. Units that are scanned in another order give the same
plan, or fail in the same way; only which of several units that cannot be scanned is reported
follows their order.
-/

namespace Forwarding

namespace Scan

theorem failsAs_ofStruct (c : Conventions) (unit : SourceUnit) (module : List String)
    (blocks : List ImplItem) (struct : StructItem) (mark : Attribute) :
    FailsAs "scan" (ofStruct c unit module blocks struct mark) := by
  intro failure failed
  unfold ofStruct at failed
  split at failed
  · cases failed
    rfl
  · dsimp only at failed
    split at failed
    · cases failed
      rfl
    · cases failed

theorem failsAs_findingsOfStruct (c : Conventions) (unit : SourceUnit) (module : List String)
    (blocks : List ImplItem) (struct : StructItem) :
    ∀ finding ∈ findingsOfStruct c unit module blocks struct, FailsAs "scan" finding := by
  intro finding member
  unfold findingsOfStruct at member
  split at member
  · cases member
  · rw [List.mem_singleton] at member
    rw [member]
    exact failsAs_ofStruct c unit module blocks struct _
  · rw [List.mem_singleton] at member
    intro failure failed
    rw [member] at failed
    cases failed
    rfl

theorem failsAs_misplaced (c : Conventions) (unit : SourceUnit) (attributes : List Attribute)
    (phrase : String) :
    ∀ finding ∈ failureFound (misplaced? c unit attributes phrase), FailsAs "scan" finding := by
  intro finding member failure failed
  unfold misplaced? at member
  cases found : attributes.find? c.marks with
  | none =>
    rw [found] at member
    cases member
  | some mark =>
    rw [found, Option.map_some, failureFound, List.mem_singleton] at member
    rw [member] at failed
    cases failed
    rfl

mutual

theorem failsAs_findingsOfItem (c : Conventions) (unit : SourceUnit) (module : List String)
    (blocks : List ImplItem) (item : Item) :
    ∀ finding ∈ findingsOfItem c unit module blocks item, FailsAs "scan" finding := by
  intro finding member
  cases item with
  | struct declaration =>
    rw [findingsOfItem] at member
    exact failsAs_findingsOfStruct c unit module blocks declaration finding member
  | implementation block =>
    rw [findingsOfItem] at member
    exact failsAs_misplaced c unit _ _ finding member
  | other kind attributes tree =>
    rw [findingsOfItem.eq_def] at member
    dsimp only at member
    split at member
    · exact failsAs_misplaced c unit _ _ finding member
    · cases member
  | module attributes before name content =>
    rw [findingsOfItem.eq_def] at member
    dsimp only at member
    split at member
    · rename_i failure found
      apply failsAs_misplaced c unit attributes "a module" finding
      rw [found]
      exact member
    · cases content with
      | none => cases member
      | some items => exact failsAs_findingsOfItems c unit _ _ items finding member

theorem failsAs_findingsOfItems (c : Conventions) (unit : SourceUnit) (module : List String)
    (blocks : List ImplItem) (items : List Item) :
    ∀ finding ∈ findingsOfItems c unit module blocks items, FailsAs "scan" finding := by
  intro finding member
  cases items with
  | nil =>
    rw [findingsOfItems] at member
    cases member
  | cons item rest =>
    rw [findingsOfItems] at member
    rcases List.mem_append.mp member with member | member
    · exact failsAs_findingsOfItem c unit module blocks item finding member
    · exact failsAs_findingsOfItems c unit module blocks rest finding member

end

theorem scan_error_kind {c : Conventions} {unit : SourceUnit} {failure : Failure}
    (failed : scan c unit = .error failure) : failure.kind = "scan" := by
  obtain ⟨before, finding, after, all, -, same⟩ := (mapM_eq_error_iff id _ failure).mp failed
  have member : finding ∈ findings c unit := by
    rw [all]
    simp
  rw [findings_eq] at member
  cases read : Grammar.parseFile unit.text with
  | error error =>
    rw [read, findingsOfRead, List.mem_singleton] at member
    rw [member] at same
    cases same
    rfl
  | ok items =>
    rw [read] at member
    exact failsAs_findingsOfItems c unit _ _ _ finding member failure same

theorem collect_eq (c : Conventions) (units : List SourceUnit) :
    collect c units =
      match units.mapM (scan c) with
      | .error failure => .error failure
      | .ok found => .ok found.flatten := by
  unfold collect
  cases units.mapM (scan c) <;> rfl

theorem collect_eq_error_iff (c : Conventions) (units : List SourceUnit) (failure : Failure) :
    collect c units = .error failure ↔
      ∃ before unit after, units = before ++ unit :: after ∧
        (∀ u ∈ before, ∃ definitions, scan c u = .ok definitions) ∧
        scan c unit = .error failure := by
  rw [← mapM_eq_error_iff, collect_eq]
  cases units.mapM (scan c) <;> simp

theorem collect_error_kind {c : Conventions} {units : List SourceUnit} {failure : Failure}
    (failed : collect c units = .error failure) : failure.kind = "scan" := by
  obtain ⟨-, unit, -, -, -, rejected⟩ := (collect_eq_error_iff c units failure).mp failed
  exact scan_error_kind rejected

/-- What a unit has when it can be scanned. -/
def definitionsOf (c : Conventions) (unit : SourceUnit) : List Definition :=
  (scan c unit).toOption.getD []

theorem scan_eq_ok_iff (c : Conventions) (unit : SourceUnit) (definitions : List Definition) :
    scan c unit = .ok definitions ↔
      definitions = definitionsOf c unit ∧ ∃ found, scan c unit = .ok found := by
  unfold definitionsOf
  cases scan c unit with
  | error failure => simp
  | ok found => simp [Except.toOption, eq_comm]

theorem collect_eq_ok_iff (c : Conventions) (units : List SourceUnit)
    (definitions : List Definition) :
    collect c units = .ok definitions ↔
      (∀ unit ∈ units, ∃ found, scan c unit = .ok found) ∧
        definitions = units.flatMap (definitionsOf c) := by
  rw [collect_eq, List.flatMap_def]
  have each := mapM_eq_ok_map_iff (scan_eq_ok_iff c) units
  cases outcome : units.mapM (scan c) with
  | error failure =>
    constructor
    · intro collected
      cases collected
    · rintro ⟨scanned, -⟩
      rw [(each _).mpr ⟨rfl, scanned⟩] at outcome
      cases outcome
  | ok found =>
    obtain ⟨rfl, scanned⟩ := (each found).mp outcome
    constructor
    · intro collected
      exact ⟨scanned, (Except.ok.inj collected).symm⟩
    · rintro ⟨-, rfl⟩
      rfl

theorem collect_perm {c : Conventions} {units others : List SourceUnit} (perm : units.Perm others)
    {definitions : List Definition} (collected : collect c units = .ok definitions) :
    ∃ definitions', collect c others = .ok definitions' ∧ definitions.Perm definitions' := by
  obtain ⟨scanned, given⟩ := (collect_eq_ok_iff c units definitions).mp collected
  have scannedOthers : ∀ unit ∈ others, ∃ found, scan c unit = .ok found :=
    fun unit member => scanned unit (perm.mem_iff.mpr member)
  refine ⟨others.flatMap (definitionsOf c), ?_, ?_⟩
  · rw [collect_eq_ok_iff]
    exact ⟨scannedOthers, rfl⟩
  · rw [given]
    exact perm.flatMap_right (definitionsOf c)

theorem collect_perm_error {c : Conventions} {units others : List SourceUnit}
    (perm : units.Perm others) {failure : Failure} (failed : collect c units = .error failure) :
    ∃ failure', collect c others = .error failure' := by
  cases collected : collect c others with
  | error failure' => exact ⟨failure', rfl⟩
  | ok definitions =>
    obtain ⟨definitions', given, -⟩ := collect_perm perm.symm collected
    rw [failed] at given
    cases given

end Scan

namespace Group

theorem checked_eq (g : Group) :
    g.checked = match g.conflict? with
      | some failure => .error failure
      | none => .ok g := rfl

theorem failsAs_checked (g : Group) : FailsAs "duplicate-priority" g.checked := by
  intro failure failed
  rw [checked_eq] at failed
  cases found : g.conflict? with
  | none =>
    rw [found] at failed
    cases failed
  | some conflict =>
    rw [found] at failed
    cases failed
    obtain ⟨pair, -, rfl⟩ := Option.map_eq_some_iff.mp found
    rfl

theorem mapM_checked_similar {groups others : List Group}
    (similar : List.Forall₂ Similar groups others) :
    (groups.mapM checked = .ok groups ∧ others.mapM checked = .ok others ∧
        ∀ g ∈ groups, g.Distinct) ∨
      ∃ failure failure', groups.mapM checked = .error failure ∧
        others.mapM checked = .error failure' ∧ failure'.Same failure := by
  induction similar with
  | nil => exact .inl ⟨rfl, rfl, by simp⟩
  | cons first rest ih =>
    rename_i g h groups others
    have conflicts := conflict?_similar ⟨first.1.symm, first.2.symm⟩
    rw [mapM_cons_eq, mapM_cons_eq, checked_eq, checked_eq]
    cases left : g.conflict? with
    | some failure =>
      rw [left] at conflicts
      cases right : h.conflict? with
      | none =>
        rw [right] at conflicts
        cases conflicts
      | some failure' =>
        rw [right] at conflicts
        cases conflicts with
        | some same => exact .inr ⟨failure, failure', rfl, rfl, same⟩
    | none =>
      have right : h.conflict? = none := by
        rw [left] at conflicts
        cases found : h.conflict? with
        | none => rfl
        | some failure' =>
          rw [found] at conflicts
          cases conflicts
      rw [right]
      rcases ih with ⟨passed, passed', distinct⟩ | ⟨failure, failure', failed, failed', same⟩
      · rw [passed, passed']
        refine .inl ⟨rfl, rfl, ?_⟩
        intro other member
        rcases List.mem_cons.mp member with rfl | member
        · exact (conflict?_eq_none_iff _).mp left
        · exact distinct other member
      · rw [failed, failed']
        exact .inr ⟨failure, failure', rfl, rfl, same⟩

end Group

namespace Resolution

theorem failsAs_ofGroup (g : Group) : FailsAs "signature-mismatch" (ofGroup g) := by
  intro failure failed
  unfold ofGroup at failed
  split at failed
  · rename_i found
    cases failed
    obtain ⟨member, -, offends⟩ := List.exists_of_findSome?_eq_some found
    obtain ⟨mismatch, -, rfl⟩ := Option.map_eq_some_iff.mp offends
    rfl
  · cases failed

theorem ofGroup_similar {g h : Group} (similar : g.Similar h) (distinct : g.Distinct) :
    ofGroup g = ofGroup h := by
  unfold ofGroup
  rw [rank_similar similar distinct]

theorem ofGroups_similar {groups others : List Group}
    (similar : List.Forall₂ Group.Similar groups others) (distinct : ∀ g ∈ groups, g.Distinct) :
    ofGroups groups = ofGroups others := by
  unfold ofGroups
  induction similar with
  | nil => rfl
  | cons first rest ih =>
    rename_i g h groups others
    rw [mapM_cons_eq, mapM_cons_eq, ofGroup_similar first (distinct g (by simp)),
      ih fun other member => distinct other (List.mem_cons_of_mem g member)]

end Resolution

namespace Artifact

theorem failsAs_fragment {α : Type} (group : String) (p : Grammar → Grammar.Parser α)
    (text : String) : FailsAs "emission" (fragment group p text) := by
  unfold fragment
  split
  · exact FailsAs.ok _
  · exact FailsAs.error rfl

theorem failsAs_parameter (group : String) (p : GenericParam) :
    FailsAs "emission" (parameter group p) := by
  unfold parameter
  refine FailsAs.bind (failsAs_fragment group _ _) fun declared => ?_
  dsimp only
  split
  · refine FailsAs.bind (FailsAs.map Tree.lifetime ?_) fun argument => FailsAs.ok _
    exact failsAs_fragment group _ _
  · refine FailsAs.bind (FailsAs.map Tree.word ?_) fun argument => FailsAs.ok _
    exact failsAs_fragment group _ _

theorem failsAs_named (group name text : String) : FailsAs "emission" (named group name text) :=
  FailsAs.bind (failsAs_fragment group _ _) fun _ =>
    FailsAs.bind (failsAs_fragment group _ _) fun _ => FailsAs.ok _

theorem failsAs_read (group : String) (winner : Definition) :
    FailsAs "emission" (read group winner) := by
  unfold read
  refine FailsAs.bind (failsAs_fragment group _ _) fun name => ?_
  refine FailsAs.bind (failsAs_fragment group _ _) fun path => ?_
  refine FailsAs.bind (failsAs_fragment group _ _) fun constructor => ?_
  refine FailsAs.bind (FailsAs.mapM fun p _ => failsAs_parameter group p) fun generics => ?_
  refine FailsAs.bind (FailsAs.mapM fun p _ => failsAs_fragment group _ p) fun predicates => ?_
  refine FailsAs.bind (FailsAs.mapM fun p _ => failsAs_named group _ _) fun params => ?_
  refine FailsAs.bind (FailsAs.mapM fun p _ => failsAs_named group _ _) fun properties => ?_
  exact FailsAs.ok _

theorem failsAs_ofResolutions (resolutions : List Resolution) :
    FailsAs "emission" (ofResolutions resolutions) :=
  FailsAs.mapM fun r _ => FailsAs.bind (failsAs_read r.name r.winner) fun _ => FailsAs.ok _

end Artifact

namespace Plan

theorem resolve_perm {definitions others : List Definition} (perm : definitions.Perm others) :
    resolve definitions = resolve others ∨
      ∃ failure failure', resolve definitions = .error failure ∧
        resolve others = .error failure' ∧ failure'.Same failure := by
  have similar := Group.partition_similar perm
  rw [resolve_eq, resolve_eq, Group.ofDefinitions, Group.ofDefinitions]
  rcases Group.mapM_checked_similar similar with
    ⟨passed, passed', distinct⟩ | ⟨failure, failure', failed, failed', same⟩
  · rw [passed, passed']
    exact .inl (Resolution.ofGroups_similar similar distinct)
  · rw [failed, failed']
    exact .inr ⟨failure, failure', rfl, rfl, same⟩

theorem resolve_error_kind {definitions : List Definition} {failure : Failure}
    (failed : resolve definitions = .error failure) : failure.kind ≠ "scan" := by
  have duplicate : FailsAs "duplicate-priority" (Group.ofDefinitions definitions) :=
    FailsAs.mapM fun g _ => Group.failsAs_checked g
  rw [resolve_eq] at failed
  cases grouped : Group.ofDefinitions definitions with
  | error other =>
    rw [grouped] at failed
    cases failed
    rw [duplicate failure grouped]
    decide
  | ok groups =>
    rw [grouped] at failed
    have mismatch : FailsAs "signature-mismatch" (Resolution.ofGroups groups) :=
      FailsAs.mapM fun g _ => Resolution.failsAs_ofGroup g
    rw [mismatch failure failed]
    decide

theorem ofUnits_eq (c : Conventions) (units : List SourceUnit) :
    ofUnits c units =
      match Scan.collect c units with
      | .error failure => .error failure
      | .ok definitions =>
        match resolve definitions with
        | .error failure => .error failure
        | .ok resolutions =>
          match Artifact.ofResolutions resolutions with
          | .error failure => .error failure
          | .ok artifacts => .ok ⟨units.length, resolutions, artifacts⟩ := by
  unfold ofUnits
  cases Scan.collect c units with
  | error failure => rfl
  | ok definitions =>
    cases resolved : resolve definitions with
    | error failure =>
      simp only [bind, Except.bind, resolved]
    | ok resolutions =>
      simp only [bind, Except.bind, resolved]
      cases Artifact.ofResolutions resolutions <;> rfl

theorem ofUnits_error_kind {c : Conventions} {units : List SourceUnit}
    {definitions : List Definition} {failure : Failure}
    (collected : Scan.collect c units = .ok definitions)
    (failed : ofUnits c units = .error failure) : failure.kind ≠ "scan" := by
  rw [ofUnits_eq, collected] at failed
  dsimp only at failed
  cases resolved : resolve definitions with
  | error other =>
    rw [resolved] at failed
    cases failed
    exact resolve_error_kind resolved
  | ok resolutions =>
    rw [resolved] at failed
    dsimp only at failed
    cases rendered : Artifact.ofResolutions resolutions with
    | error other =>
      rw [rendered] at failed
      cases failed
      rw [Artifact.failsAs_ofResolutions resolutions failure rendered]
      decide
    | ok artifacts =>
      rw [rendered] at failed
      cases failed

/-- Units in another order give the same plan or fail in the same way. A failure to scan is that of
the first unit that cannot be scanned. -/
theorem ofUnits_perm (c : Conventions) {units others : List SourceUnit}
    (perm : units.Perm others) :
    (∀ plan, ofUnits c units = .ok plan → ofUnits c others = .ok plan) ∧
      ∀ failure, ofUnits c units = .error failure →
        (∃ failure', ofUnits c others = .error failure' ∧ failure'.kind = failure.kind ∧
          (failure.kind ≠ "scan" → failure'.Same failure)) ∧
        (failure.kind = "scan" →
          ∃ before unit after, units = before ++ unit :: after ∧
            (∀ u ∈ before, ∃ definitions, Scan.scan c u = .ok definitions) ∧
            Scan.scan c unit = .error failure) := by
  have sameLength : units.length = others.length := perm.length_eq
  cases collected : Scan.collect c units with
  | error failure =>
    have first := (Scan.collect_eq_error_iff c units failure).mp collected
    obtain ⟨failure', collected'⟩ := Scan.collect_perm_error perm collected
    have kind := Scan.collect_error_kind collected
    have kind' := Scan.collect_error_kind collected'
    rw [ofUnits_eq, ofUnits_eq, collected, collected']
    refine ⟨fun plan given => (nomatch given), fun other failed => ?_⟩
    cases failed
    refine ⟨⟨failure', rfl, kind'.trans kind.symm, fun different => absurd kind different⟩, ?_⟩
    intro _
    exact first
  | ok definitions =>
    obtain ⟨definitions', collected', permuted⟩ := Scan.collect_perm perm collected
    rcases resolve_perm permuted with same | ⟨failure, failure', failed, failed', same⟩
    · have equal : ofUnits c units = ofUnits c others := by
        rw [ofUnits_eq, ofUnits_eq, collected, collected']
        dsimp only
        rw [same, sameLength]
      rw [← equal]
      refine ⟨fun plan given => given, fun failure failed => ⟨⟨failure, failed, rfl, ?_⟩, ?_⟩⟩
      · intro _
        exact Failure.Same.refl failure
      · intro kind
        exact absurd kind (ofUnits_error_kind collected failed)
    · rw [ofUnits_eq, ofUnits_eq, collected, collected']
      dsimp only
      rw [failed, failed']
      refine ⟨fun plan given => (nomatch given), fun other failedSo => ?_⟩
      cases failedSo
      refine ⟨⟨failure', rfl, same.kind, fun _ => same⟩, ?_⟩
      intro kind
      exact absurd kind (resolve_error_kind failed)

/-- A unit that does not parse fails the plan before and after an empty one. -/
theorem ofUnits_perm_malformed :
    ∃ failure, ofUnits {} [⟨"a.rs", ["a"], "#"⟩, ⟨"b.rs", ["b"], ""⟩] = .error failure ∧
      ∃ failure', ofUnits {} [⟨"b.rs", ["b"], ""⟩, ⟨"a.rs", ["a"], "#"⟩] = .error failure' ∧
        failure'.kind = failure.kind ∧ (failure.kind ≠ "scan" → failure'.Same failure) := by
  have rejected : (ofUnits {} [⟨"a.rs", ["a"], "#"⟩, ⟨"b.rs", ["b"], ""⟩]).toBool = false := by
    decide +kernel
  cases failed : ofUnits {} [⟨"a.rs", ["a"], "#"⟩, ⟨"b.rs", ["b"], ""⟩] with
  | ok plan =>
    rw [failed] at rejected
    cases rejected
  | error failure =>
    have swapped := ofUnits_perm {} (List.Perm.swap ⟨"b.rs", ["b"], ""⟩ ⟨"a.rs", ["a"], "#"⟩ [])
    obtain ⟨⟨failure', failed', alike⟩, -⟩ := swapped.2 failure failed
    exact ⟨failure, rfl, failure', failed', alike⟩

end Plan

end Forwarding
