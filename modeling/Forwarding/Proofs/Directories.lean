import Forwarding.Proofs.Runs
/-!
Creating directories. It changes no files, and once it has succeeded it does nothing any more.
-/

namespace Forwarding

namespace FileTree

/-- Whether `t'` has the files of `t` and at least its directories. -/
structure Extends (t t' : FileTree) : Prop where
  bytes : t'.bytes? = t.bytes?
  grows : t.Grows t'

variable {t t' t'' : FileTree} {path : String} {place : List String}

theorem Extends.refl (t : FileTree) : t.Extends t :=
  ⟨rfl, fun _ present => present⟩

theorem Extends.trans (first : t.Extends t') (second : t'.Extends t'') : t.Extends t'' :=
  ⟨second.bytes.trans first.bytes, first.grows.trans second.grows⟩

theorem put_directory_extends (absent : t.get? place = none) :
    t.Extends (t.put place .directory) ∧ (t.put place .directory).HasDirectory place := by
  have named : place ≠ [] := by
    intro top
    rw [top] at absent
    cases absent
  refine ⟨⟨?_, ?_⟩, get?_put_self t named _⟩
  · funext other
    by_cases same : other = place
    · rw [same, bytes?, bytes?, get?_put_self t named, absent]
    · rw [bytes?, bytes?, get?_put_of_ne t same]
  · intro other present
    have different : other ≠ place := by
      intro same
      rw [HasDirectory, same, absent] at present
      cases present
    rw [HasDirectory, get?_put_of_ne t different]
    exact present

theorem createDirectory_extends (created : t.createDirectory path = .ok t') :
    t.Extends t' ∧ t'.LeadsToDirectory path := by
  unfold createDirectory at created
  cases located : t.locate (withoutSlashes path) with
  | error error =>
    rw [located] at created
    cases created
  | ok place =>
    rw [located] at created
    simp only [bind, Except.bind] at created
    cases found : t.get? place with
    | some entry =>
      rw [found] at created
      cases created
    | none =>
      rw [found] at created
      cases created
      obtain ⟨extended, present⟩ := put_directory_extends found
      have led := locate_grows extended.grows located
      exact ⟨extended, place, (locate_withoutSlashes present).mp led, present⟩

theorem createDirectory_refused (leads : t.LeadsToDirectory path) :
    ∃ error, t.createDirectory path = .error error := by
  obtain ⟨place, located, present⟩ := leads
  unfold createDirectory
  rw [(locate_withoutSlashes present).mpr located]
  simp only [bind, Except.bind]
  rw [present]
  exact ⟨_, rfl⟩

end FileTree

theorem Workspace.kind?_eq_directory_iff (files : FileTree) (path : String) :
    kind? files path = some .directory ↔ files.LeadsToDirectory path := by
  unfold kind? FileTree.LeadsToDirectory FileTree.HasDirectory
  cases located : files.locate path with
  | error error => simp [FileTree.find, located, bind, Except.bind]
  | ok place =>
    rw [FileTree.find_of_leads located]
    cases found : files.get? place with
    | none => simp [found]
    | some entry => cases entry <;> simp [kindOf, found]

namespace Output

theorem createUnlessPresent_present {w : Workspace} {path : String}
    (leads : w.files.LeadsToDirectory path) :
    (createUnlessPresent path : StateM Workspace _).run w = (.ok (), w) := by
  obtain ⟨error, refused⟩ := FileTree.createDirectory_refused leads
  have refuses : (Host.createDirectory path : StateM Workspace _).run w = (.error error, w) :=
    Workspace.run_change_error refused
  have looks : (Host.kind? path : StateM Workspace _).run w = (some .directory, w) := by
    rw [← (Workspace.kind?_eq_directory_iff w.files path).mpr leads]
    rfl
  unfold createUnlessPresent
  rw [run_bind refuses]
  dsimp only
  rw [run_bind looks]
  rfl

theorem createUnlessPresent_extends (path : String) (w : Workspace) :
    ∃ result w', (createUnlessPresent path : StateM Workspace _).run w = (result, w') ∧
      w.files.Extends w'.files ∧ (result = .ok () → w'.files.LeadsToDirectory path) := by
  by_cases leads : w.files.LeadsToDirectory path
  · exact ⟨_, w, createUnlessPresent_present leads, FileTree.Extends.refl _, fun _ => leads⟩
  · cases created : w.files.createDirectory path with
    | ok files =>
      have creates : (Host.createDirectory path : StateM Workspace _).run w =
          (.ok (), { w with files }) := Workspace.run_change_ok created
      obtain ⟨extended, leadsNow⟩ := FileTree.createDirectory_extends created
      refine ⟨.ok (), { w with files }, ?_, extended, fun _ => leadsNow⟩
      unfold createUnlessPresent
      rw [run_bind creates]
      rfl
    | error error =>
      have refuses : (Host.createDirectory path : StateM Workspace _).run w = (.error error, w) :=
        Workspace.run_change_error created
      have looks : (Host.kind? path : StateM Workspace _).run w =
          (Workspace.kind? w.files path, w) := rfl
      refine ⟨.error error, w, ?_, FileTree.Extends.refl _, nofun⟩
      unfold createUnlessPresent
      rw [run_bind refuses]
      dsimp only
      rw [run_bind looks]
      split
      · rename_i directory
        exact absurd ((Workspace.kind?_eq_directory_iff _ _).mp directory) leads
      · rfl

/-- Creating directories changes no files, and doing it again where there are no fewer directories
changes nothing. -/
theorem createAbove_extends (components : List PathComponent) (w : Workspace) :
    ∃ result w', (createAbove components : StateM Workspace _).run w = (result, w') ∧
      w.files.Extends w'.files ∧
      (result = .ok () → ∀ later : Workspace, w'.files.Grows later.files →
        (createAbove components : StateM Workspace _).run later = (.ok (), later)) := by
  induction components generalizing w with
  | nil => exact ⟨.ok (), w, rfl, FileTree.Extends.refl _, fun _ _ _ => rfl⟩
  | cons component above ih =>
    have again : ∀ later : Workspace,
        later.files.LeadsToDirectory (textOf (component :: above).reverse) →
        (createAbove (component :: above) : StateM Workspace _).run later = (.ok (), later) := by
      intro later leads
      unfold createAbove
      rw [run_bind (createUnlessPresent_present leads)]
      rfl
    obtain ⟨result, w₁, creates, extends₁, leads₁⟩ :=
      createUnlessPresent_extends (textOf (component :: above).reverse) w
    cases result with
    | ok created =>
      refine ⟨.ok (), w₁, ?_, extends₁, ?_⟩
      · unfold createAbove
        rw [run_bind creates]
        rfl
      · intro _ later grows
        exact again later ((leads₁ rfl).grows grows)
    | error error =>
      by_cases missing : error = .notFound
      · subst missing
        obtain ⟨resultAbove, w₂, createsAbove, extends₂, -⟩ := ih w₁
        cases resultAbove with
        | ok created =>
          obtain ⟨result, w₃, createsNow, extends₃, leads₃⟩ :=
            createUnlessPresent_extends (textOf (component :: above).reverse) w₂
          refine ⟨result, w₃, ?_, (extends₁.trans extends₂).trans extends₃, ?_⟩
          · unfold createAbove
            rw [run_bind creates]
            dsimp only
            rw [run_bind createsAbove]
            exact createsNow
          · intro succeeded later grows
            exact again later ((leads₃ succeeded).grows grows)
        | error errorAbove =>
          refine ⟨.error errorAbove, w₂, ?_, extends₁.trans extends₂, nofun⟩
          unfold createAbove
          rw [run_bind creates]
          dsimp only
          rw [run_bind createsAbove]
          rfl
      · refine ⟨.error error, w₁, ?_, extends₁, nofun⟩
        unfold createAbove
        rw [run_bind creates]
        cases error with
        | notFound => exact absurd rfl missing
        | _ => rfl

end Output

end Forwarding
