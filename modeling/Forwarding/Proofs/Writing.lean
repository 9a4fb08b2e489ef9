import Forwarding.Proofs.Replacement
/-!
Writing replaces every destination or none. A pass that fails leaves every file as it was, and one
that succeeds leaves every destination with its text and can be repeated without any effect.
-/

namespace Forwarding.Output

/-- Whether a place is one where a text is staged or an old file is moved aside. -/
def Beside (t : FileTree) (ds : List Destination) (place : List String) : Prop :=
  ∃ d ∈ ds, t.locate d.staging = .ok place ∨ t.locate (backup d.path) = .ok place

/-- Whether the place that a destination has in `after` holds its text in `before`. -/
def heldText (before after : FileTree) (d : Destination) : Bool :=
  match after.locate d.path with
  | .ok place => (before.bytes? place).any (· == d.contents.toUTF8)
  | .error _ => false

section Running

variable {directory indexFile : String} {artifacts : List Artifact} {w w₁ : Workspace}

theorem run_write_unnamed (indexFile : String) (artifacts : List Artifact) (w : Workspace) :
    (write "" indexFile artifacts : Pass (StateM Workspace) Written).run.run w =
      (.error (.emission none "" .noOutputDirectory), w) := rfl

theorem run_write_refused {error : FileError} (given : directory ≠ "")
    (refused : (createDirectories directory : StateM Workspace _).run w = (.error error, w₁)) :
    (write directory indexFile artifacts : Pass (StateM Workspace) Written).run.run w =
      (.error (.emission none directory (.file error)), w₁) := by
  have named : ¬ directory.isEmpty = true := by simpa using given
  unfold write
  rw [if_neg named, run_lift_bind refused]
  rfl

theorem run_write (given : directory ≠ "")
    (created : (createDirectories directory : StateM Workspace _).run w = (.ok (), w₁)) :
    (write directory indexFile artifacts : Pass (StateM Workspace) Written).run.run w =
      (replace (destinations directory indexFile artifacts)).run.run w₁ := by
  have named : ¬ directory.isEmpty = true := by simpa using given
  unfold write
  rw [if_neg named, run_lift_bind created]
  rfl

end Running

section Phases

variable {t t' : FileTree} {ds : List Destination} {site : Destination → Role → List String}
  {phase : Destination → Phase} {place : List String} {d : Destination}

theorem Phase.Undone.holds_own {phase : Phase} (undone : phase.Undone)
    (before : Role → Option ByteArray) (text : ByteArray) :
    phase.holds before text .own = before .own := by
  rcases undone with rfl | rfl | rfl <;> rfl

/-- No phase but the passing ones has a file beside a destination where there was none. -/
theorem Phase.holds_none {phase : Phase} (ended : phase.Undone ∨ phase = .settled)
    {before : Role → Option ByteArray} {role : Role} (beside : role ≠ .own)
    (absent : before role = none) (text : ByteArray) : phase.holds before text role = none := by
  cases role with
  | own => exact absurd rfl beside
  | staging =>
    rcases ended with (rfl | rfl | rfl) | rfl
    · exact absent
    · rfl
    · rfl
    · rfl
  | aside =>
    rcases ended with (rfl | rfl | rfl) | rfl
    · exact absent
    · exact absent
    · simp [holds, absent]
    · simp [holds, absent]

theorem Stands.beside_iff (stands : Stands t ds site phase t') (sites : Sites t ds site) :
    Beside t' ds place ↔ ∃ d ∈ ds, ∃ role, role ≠ .own ∧ site d role = place := by
  constructor
  · rintro ⟨d, member, leads | leads⟩
    · rw [stands.leads_staging sites member] at leads
      exact ⟨d, member, .staging, nofun, Except.ok.inj leads⟩
    · rw [stands.leads_aside sites member] at leads
      exact ⟨d, member, .aside, nofun, Except.ok.inj leads⟩
  · rintro ⟨d, member, role, beside, rfl⟩
    cases role with
    | own => exact absurd rfl beside
    | staging => exact ⟨d, member, .inl (stands.leads_staging sites member)⟩
    | aside => exact ⟨d, member, .inr (stands.leads_aside sites member)⟩

theorem Stands.beside_none (stands : Stands t ds site phase t') (sites : Sites t ds site)
    (ended : ∀ d, (phase d).Undone ∨ phase d = .settled) (beside : Beside t' ds place)
    (absent : t.bytes? place = none) : t'.bytes? place = none := by
  obtain ⟨d, member, role, notOwn, rfl⟩ := (stands.beside_iff sites).mp beside
  rw [stands.inside d member]
  exact Phase.holds_none (ended d) notOwn absent _

theorem Stands.own_undone (stands : Stands t ds site phase t') (sites : Sites t ds site)
    (undone : ∀ d, (phase d).Undone) (member : d ∈ ds) (leads : t'.locate d.path = .ok place) :
    t'.bytes? place = t.bytes? place := by
  rw [stands.leads_own sites member] at leads
  rw [← Except.ok.inj leads, stands.inside d member, (undone d).holds_own]
  rfl

theorem Stands.elsewhere_undone (stands : Stands t ds site phase t') (sites : Sites t ds site)
    (undone : ∀ d, (phase d).Undone) (notBeside : ¬ Beside t' ds place) :
    t'.bytes? place = t.bytes? place := by
  by_cases inside : ∃ d ∈ ds, ∃ role, site d role = place
  · obtain ⟨d, member, role, here⟩ := inside
    by_cases own : role = .own
    · subst own
      apply stands.own_undone sites undone member
      rw [← here]
      exact stands.leads_own sites member
    · exact absurd ((stands.beside_iff sites).mpr ⟨d, member, role, own, here⟩) notBeside
  · apply stands.outside place
    intro d member role here
    exact inside ⟨d, member, role, here⟩

/-- The phases after writing: what did not hold its text is settled. -/
def finished (t : FileTree) (ds : List Destination)
    (site : Destination → Role → List String) : Destination → Phase :=
  advance (fun _ => .untouched) (ds.filter (fun d => !current t site d)) .settled

theorem finished_of_current (holds : current t site d = true) :
    finished t ds site d = .untouched := by
  apply advance_of_not_mem
  simp [holds]

theorem finished_of_stale (member : d ∈ ds) (stale : current t site d = false) :
    finished t ds site d = .settled := by
  apply advance_of_mem
  simp [member, stale]

theorem finished_over (t : FileTree) (ds : List Destination)
    (site : Destination → Role → List String) (d : Destination) :
    (finished t ds site d).Undone ∨ finished t ds site d = .settled := by
  by_cases stale : d ∈ ds.filter (fun d => !current t site d)
  · exact .inr (advance_of_mem stale _)
  · exact .inl (.inl (advance_of_not_mem stale _))

theorem Stands.reads_text (stands : Stands t ds site (finished t ds site) t')
    (sites : Sites t ds site) (member : d ∈ ds) : t'.read d.path = .ok d.contents.toUTF8 := by
  rw [FileTree.read_eq_ok_iff (stands.leads_own sites member), stands.inside d member]
  cases holds : current t site d with
  | true =>
    rw [finished_of_current holds]
    exact (any_beq_iff _ _).mp holds
  | false =>
    rw [finished_of_stale member holds]
    rfl

theorem Stands.heldText_eq (stands : Stands t ds site phase t') (sites : Sites t ds site)
    (member : d ∈ ds) {before : FileTree} (same : t.bytes? = before.bytes?) :
    heldText before t' d = current t site d := by
  rw [heldText, stands.leads_own sites member, ← same]
  rfl

theorem Stands.elsewhere_finished (stands : Stands t ds site (finished t ds site) t')
    (sites : Sites t ds site) (notOwn : ∀ d ∈ ds, t'.locate d.path ≠ .ok place)
    (notBeside : ∀ d ∈ ds, current t site d = false →
      t'.locate d.staging ≠ .ok place ∧ t'.locate (backup d.path) ≠ .ok place) :
    t'.bytes? place = t.bytes? place := by
  by_cases inside : ∃ d ∈ ds, ∃ role, site d role = place
  · obtain ⟨d, member, role, here⟩ := inside
    have leads : t'.locate (role.path d) = .ok place := by
      rw [← here]
      exact stands.leads sites member role
    cases holds : current t site d with
    | true =>
      rw [← here, stands.inside d member, finished_of_current holds]
      rfl
    | false =>
      cases role with
      | own => exact absurd leads (notOwn d member)
      | staging => exact absurd leads (notBeside d member holds).1
      | aside => exact absurd leads (notBeside d member holds).2
  · apply stands.outside place
    intro d member role here
    exact inside ⟨d, member, role, here⟩

end Phases

section Writing

variable {directory indexFile : String} {artifacts : List Artifact} {w w' : Workspace}

/-- A pass either fails before any file is changed or replaces destinations with known places. -/
theorem write_begins (directory : String) (separate : Separate (fileNames indexFile artifacts)) (w : Workspace) :
    (∃ failure w', (write directory indexFile artifacts : Pass (StateM Workspace) _).run.run w =
        (.error failure, w') ∧ w'.files.bytes? = w.files.bytes?) ∨
      ∃ w₁, (write directory indexFile artifacts : Pass (StateM Workspace) _).run.run w =
          (replace (destinations directory indexFile artifacts)).run.run w₁ ∧
        w₁.files.bytes? = w.files.bytes? ∧
        Sites w₁.files (destinations directory indexFile artifacts) (siteIn w₁.files) ∧
        ∀ later : Workspace, w₁.files.Grows later.files →
          (write directory indexFile artifacts : Pass (StateM Workspace) _).run.run later =
            (replace (destinations directory indexFile artifacts)).run.run later := by
  by_cases given : directory = ""
  · subst given
    exact .inl ⟨_, w, run_write_unnamed indexFile artifacts w, rfl⟩
  · obtain ⟨result, w₁, created, extended, again⟩ :=
      createAbove_extends (Path.components directory).reverse w
    cases result with
    | error error =>
      exact .inl ⟨_, w₁, run_write_refused given created, extended.bytes⟩
    | ok done =>
      -- The components were created, not the text: the text need not lead to a directory.
      by_cases leads : w₁.files.LeadsToDirectory directory
      · right
        refine ⟨w₁, run_write given created, extended.bytes, sites_destinations separate leads, ?_⟩
        intro later grows
        exact run_write given (again rfl later grows)
      · left
        have lost := fun (d : Destination)
          (member : d ∈ destinations directory indexFile artifacts) (role : Role) =>
            locate_lost separate given leads member role
        rw [run_write given created]
        cases all : destinations directory indexFile artifacts with
        | nil => simp [destinations] at all
        | cons d rest =>
          obtain ⟨failure, w₂, failed, same⟩ :=
            replace_lost rest (lost d (by rw [all]; exact List.mem_cons_self))
          refine ⟨failure, w₂, failed, ?_⟩
          rw [same, extended.bytes]

/-- An old file `A.rs`, and a directory that gets in the way of `mod.rs`. -/
def blocked : Workspace where
  files := ⟨[(["out"], .directory), (["out", "A.rs"], .file "old".toUTF8),
    (["out", "mod.rs"], .directory)]⟩

/-- An old file `A.rs`, and no `mod.rs`. -/
def outdated : Workspace where
  files := ⟨[(["out"], .directory), (["out", "A.rs"], .file "old".toUTF8)]⟩

end Writing

end Forwarding.Output
