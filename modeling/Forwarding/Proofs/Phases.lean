import Forwarding.Proofs.Runs
/-!
Phases of destinations. Each destination owns three places: its own, the one where its text is
staged and the one where an old file is moved aside. While output is written every destination is
in some phase that says what its places hold, and no other place changes.
-/

namespace Forwarding.Output

/-- The places of a destination. -/
inductive Role where
  | own
  | staging
  | aside
  deriving DecidableEq

/-- The path to a place of a destination. -/
def Role.path (d : Destination) : Role → String
  | own => d.path
  | staging => d.staging
  | aside => backup d.path

/-- How far a destination has come. -/
inductive Phase where
  | untouched
  | staged
  /-- The text is no longer staged, and nothing else was changed. -/
  | withdrawn
  /-- The text is in its place, and the old file is aside. -/
  | placed
  /-- The old file has been moved back, or the text was removed. -/
  | restored
  /-- The text is in its place, and the old file is gone. -/
  | settled
  deriving DecidableEq

/-- What the places of a destination hold in a phase, given what they held before and the bytes of
the text. -/
def Phase.holds (before : Role → Option ByteArray) (text : ByteArray) :
    Phase → Role → Option ByteArray
  | untouched, role => before role
  | staged, .staging => some text
  | staged, role => before role
  | withdrawn, .staging => none
  | withdrawn, role => before role
  | placed, .own => some text
  | placed, .staging => none
  | placed, .aside => if (before .own).isSome then before .own else before .aside
  | restored, .own => before .own
  | restored, .staging => none
  | restored, .aside => if (before .own).isSome then none else before .aside
  | settled, .own => some text
  | settled, .staging => none
  | settled, .aside => if (before .own).isSome then none else before .aside

/-- Destinations whose places in a tree are known and all different. -/
structure Sites (t : FileTree) (ds : List Destination)
    (site : Destination → Role → List String) : Prop where
  leads : ∀ d ∈ ds, ∀ role : Role, t.locate (role.path d) = .ok (site d role)
  plain : ∀ d ∈ ds, FileTree.endsInSlash d.path = false ∧
    FileTree.endsInSlash (backup d.path) = false
  apart : ∀ d ∈ ds, ∀ e ∈ ds, ∀ role other, site d role = site e other → d = e ∧ role = other

/-- What the places of a destination hold. -/
def held (t : FileTree) (site : Destination → Role → List String) (d : Destination) (role : Role) :
    Option ByteArray :=
  t.bytes? (site d role)

/-- The tree `t` has changed to `t'` with every destination in its phase. -/
structure Stands (t : FileTree) (ds : List Destination)
    (site : Destination → Role → List String) (phase : Destination → Phase)
    (t' : FileTree) : Prop where
  directories : ∀ place, t'.HasDirectory place ↔ t.HasDirectory place
  inside : ∀ d ∈ ds, ∀ role,
    t'.bytes? (site d role) = (phase d).holds (held t site d) d.contents.toUTF8 role
  outside : ∀ place, (∀ d ∈ ds, ∀ role, site d role ≠ place) → t'.bytes? place = t.bytes? place

variable {t t' t'' : FileTree} {ds : List Destination} {site : Destination → Role → List String}
  {phase : Destination → Phase} {d : Destination} {w : Workspace}

theorem Stands.untouched (t : FileTree) (ds : List Destination)
    (site : Destination → Role → List String) : Stands t ds site (fun _ => .untouched) t :=
  ⟨fun _ => Iff.rfl, fun _ _ _ => rfl, fun _ _ => rfl⟩

theorem Stands.leads (stands : Stands t ds site phase t') (sites : Sites t ds site)
    (member : d ∈ ds) (role : Role) : t'.locate (role.path d) = .ok (site d role) :=
  FileTree.locate_grows (fun place present => (stands.directories place).mpr present)
    (sites.leads d member role)

theorem Stands.leads_own (stands : Stands t ds site phase t') (sites : Sites t ds site)
    (member : d ∈ ds) : t'.locate d.path = .ok (site d .own) :=
  stands.leads sites member .own

theorem Stands.leads_staging (stands : Stands t ds site phase t') (sites : Sites t ds site)
    (member : d ∈ ds) : t'.locate d.staging = .ok (site d .staging) :=
  stands.leads sites member .staging

theorem Stands.leads_aside (stands : Stands t ds site phase t') (sites : Sites t ds site)
    (member : d ∈ ds) : t'.locate (backup d.path) = .ok (site d .aside) :=
  stands.leads sites member .aside

theorem Stands.free_own (stands : Stands t ds site phase t') {bytes : ByteArray}
    (old : held t site d .own = some bytes) : ¬ t'.HasDirectory (site d .own) := by
  rw [stands.directories]
  exact FileTree.free_of_bytes? old

theorem Sites.update_eq (sites : Sites t ds site) (member : d ∈ ds)
    (contents : List String → Option ByteArray) (role other : Role) (bytes : Option ByteArray) :
    Function.update contents (site d role) bytes (site d other) =
      if other = role then bytes else contents (site d other) := by
  by_cases same : other = role
  · rw [same, Function.update_self, if_pos rfl]
  · rw [if_neg same, Function.update_of_ne]
    intro samePlace
    exact same (sites.apart d member d member other role samePlace).2

/-- A change at the places of one destination takes it to another phase and no other one. -/
theorem Stands.change (stands : Stands t ds site phase t') (sites : Sites t ds site)
    (member : d ∈ ds) {contents : List String → Option ByteArray} (becomes : t'.Becomes t'' contents)
    (next : Phase)
    (here : ∀ role, contents (site d role) = next.holds (held t site d) d.contents.toUTF8 role)
    (elsewhere : ∀ place, (∀ role, site d role ≠ place) → contents place = t'.bytes? place) :
    Stands t ds site (Function.update phase d next) t'' := by
  refine ⟨fun place => (becomes.directories place).trans (stands.directories place), ?_, ?_⟩
  · intro e memberE role
    rw [becomes.bytes]
    by_cases same : e = d
    · rw [same, Function.update_self]
      exact here role
    · rw [Function.update_of_ne same, ← stands.inside e memberE role]
      apply elsewhere
      intro other samePlace
      exact same (sites.apart d member e memberE other role samePlace).1.symm
  · intro place out
    rw [becomes.bytes, elsewhere place (out d member), stands.outside place out]

/-- Whether a destination holds its text before anything is written. -/
def current (t : FileTree) (site : Destination → Role → List String) (d : Destination) : Bool :=
  (held t site d .own).any (· == d.contents.toUTF8)

/-- What a destination has become when it is committed. -/
def committed (t : FileTree) (site : Destination → Role → List String) (d : Destination) :
    Committed :=
  ⟨d.path, (held t site d .own).isSome⟩

/-- Where there is no file, committing is moving the new one. -/
theorem run_commit_new {w' : Workspace} {result : Except FileError Unit}
    (noFile : Workspace.kind? w.files d.path ≠ some .file)
    (moved : (Host.move d.staging d.path : StateM Workspace _).run w = (result, w')) :
    (commit d : StateM Workspace _).run w = (result.map fun _ => ⟨d.path, false⟩, w') := by
  have looks : (Host.kind? d.path : StateM Workspace _).run w =
      (Workspace.kind? w.files d.path, w) := rfl
  unfold commit
  rw [run_bind looks]
  split
  · rename_i isFile
    exact absurd isFile noFile
  · rw [run_bind moved]
    cases result <;> rfl

section Steps

variable (sites : Sites t ds site) (member : d ∈ ds) (stands : Stands t ds site phase w.files)

include sites member stands

theorem isCurrent_untouched (untouched : phase d = .untouched) :
    (isCurrent d : StateM Workspace Bool).run w = (current t site d, w) := by
  rw [run_isCurrent, FileTree.toOption_read (stands.leads_own sites member), stands.inside d member,
    untouched]
  rfl

theorem write_staging (untouched : phase d = .untouched) :
    (∃ w', (Host.write d.staging d.contents.toUTF8 : StateM Workspace _).run w = (.ok (), w') ∧
        Stands t ds site (Function.update phase d .staged) w'.files) ∨
      ∃ error, (Host.write d.staging d.contents.toUTF8 : StateM Workspace _).run w =
        (.error error, w) := by
  have leads := stands.leads_staging sites member
  by_cases present : w.files.HasDirectory (site d .staging)
  · right
    exact ⟨_, Workspace.run_change_error (FileTree.write_of_directory leads present _)⟩
  · left
    refine ⟨_, Workspace.run_change_ok (FileTree.write_of_free leads present _),
      stands.change sites member (FileTree.put_becomes present _) .staged ?_ ?_⟩
    · intro role
      rw [sites.update_eq member, stands.inside d member, untouched]
      cases role <;> rfl
    · intro place out
      exact Function.update_of_ne (out .staging).symm _ _

theorem discard_staging (unplaced : phase d = .staged ∨ phase d = .untouched) :
    ∃ w', (discard d.staging : StateM Workspace Unit).run w = ((), w') ∧
      Stands t ds site (Function.update phase d .withdrawn) w'.files := by
  obtain ⟨w', runs, becomes⟩ := discard_becomes (stands.leads_staging sites member)
  refine ⟨w', runs, stands.change sites member becomes .withdrawn ?_ ?_⟩
  · intro role
    rw [sites.update_eq member, stands.inside d member]
    rcases unplaced with now | now
    · rw [now]
      cases role <;> rfl
    · rw [now]
      cases role <;> rfl
  · intro place out
    exact Function.update_of_ne (out .staging).symm _ _

theorem commit_new (staged : phase d = .staged) (absent : held t site d .own = none) :
    (∃ w', (commit d : StateM Workspace _).run w = (.ok (committed t site d), w') ∧
        Stands t ds site (Function.update phase d .placed) w'.files) ∨
      ∃ error, (commit d : StateM Workspace _).run w = (.error error, w) := by
  have leads := stands.leads_own sites member
  have fromStaging := stands.leads_staging sites member
  have text : w.files.bytes? (site d .staging) = some d.contents.toUTF8 := by
    rw [stands.inside d member, staged]
    rfl
  have noFile : Workspace.kind? w.files d.path ≠ some .file := by
    rw [ne_eq, Workspace.kind?_eq_file_iff leads, stands.inside d member, staged]
    simp [Phase.holds, absent]
  by_cases present : w.files.HasDirectory (site d .own)
  · right
    obtain ⟨error, refused⟩ := move_refused fromStaging leads text present
    exact ⟨error, run_commit_new noFile refused⟩
  · left
    obtain ⟨w', moved, becomes⟩ :=
      move_becomes fromStaging leads text present (sites.plain d member).1
    refine ⟨w', ?_, stands.change sites member becomes .placed ?_ ?_⟩
    · rw [run_commit_new noFile moved, committed, absent]
      rfl
    · intro role
      rw [sites.update_eq member, sites.update_eq member, stands.inside d member, staged]
      cases role <;> simp [Phase.holds, absent]
    · intro place out
      rw [Function.update_of_ne (out .own).symm, Function.update_of_ne (out .staging).symm]

theorem commit_over {bytes : ByteArray} (staged : phase d = .staged)
    (old : held t site d .own = some bytes) :
    (∃ w', (commit d : StateM Workspace _).run w = (.ok (committed t site d), w') ∧
        Stands t ds site (Function.update phase d .placed) w'.files) ∨
      ∃ error, (commit d : StateM Workspace _).run w = (.error error, w) := by
  have leads := stands.leads_own sites member
  have leadsAside := stands.leads_aside sites member
  have here : w.files.bytes? (site d .own) = some bytes := by
    rw [stands.inside d member, staged]
    exact old
  have isFile : Workspace.kind? w.files d.path = some .file := by
    rw [Workspace.kind?_eq_file_iff leads, here]
    rfl
  have looks : (Host.kind? d.path : StateM Workspace _).run w = (some .file, w) := by
    rw [← isFile]
    rfl
  unfold commit
  rw [run_bind looks]
  dsimp only
  by_cases present : w.files.HasDirectory (site d .aside)
  · right
    obtain ⟨error, refused⟩ := move_refused leads leadsAside here present
    rw [run_bind refused]
    exact ⟨error, rfl⟩
  · left
    obtain ⟨w', moved, becomes⟩ := move_becomes leads leadsAside here present (sites.plain d member).2
    rw [run_bind moved]
    have text : w'.files.bytes? (site d .staging) = some d.contents.toUTF8 := by
      rw [becomes.bytes, sites.update_eq member, sites.update_eq member, stands.inside d member,
        staged]
      rfl
    have free : ¬ w'.files.HasDirectory (site d .own) := by
      rw [becomes.directories]
      exact stands.free_own old
    -- The old file was at the place, so nothing else can be in the way of the new one.
    obtain ⟨w'', moved', becomes'⟩ := move_becomes
      (FileTree.locate_grows becomes.grows (stands.leads_staging sites member))
      (FileTree.locate_grows becomes.grows leads) text free (sites.plain d member).1
    dsimp only
    rw [run_bind moved']
    refine ⟨w'', ?_, stands.change sites member (becomes.trans becomes') .placed ?_ ?_⟩
    · rw [committed, old]
      rfl
    · intro role
      rw [becomes.bytes, sites.update_eq member, sites.update_eq member, sites.update_eq member,
        sites.update_eq member, stands.inside d member, staged]
      cases role <;> simp [Phase.holds, old]
    · intro place out
      rw [becomes.bytes, Function.update_of_ne (out .own).symm,
        Function.update_of_ne (out .staging).symm, Function.update_of_ne (out .aside).symm,
        Function.update_of_ne (out .own).symm]

theorem commit_staged (staged : phase d = .staged) :
    (∃ w', (commit d : StateM Workspace _).run w = (.ok (committed t site d), w') ∧
        Stands t ds site (Function.update phase d .placed) w'.files) ∨
      ∃ error, (commit d : StateM Workspace _).run w = (.error error, w) := by
  cases before : held t site d .own with
  | none => exact commit_new sites member stands staged before
  | some bytes => exact commit_over sites member stands staged before

/-- Undoes one destination. -/
theorem undo_placed (placed : phase d = .placed) :
    ∃ w', (if (committed t site d).hasBackup then restore d.path else discard d.path :
        StateM Workspace Unit).run w = ((), w') ∧
      Stands t ds site (Function.update phase d .restored) w'.files := by
  have leads := stands.leads_own sites member
  cases before : held t site d .own with
  | none =>
    obtain ⟨w', runs, becomes⟩ := discard_becomes leads
    refine ⟨w', ?_, stands.change sites member becomes .restored ?_ ?_⟩
    · simpa [committed, before] using runs
    · intro role
      rw [sites.update_eq member, stands.inside d member, placed]
      cases role <;> simp [Phase.holds, before]
    · intro place out
      exact Function.update_of_ne (out .own).symm _ _
  | some bytes =>
    have aside : w.files.bytes? (site d .aside) = some bytes := by
      rw [stands.inside d member, placed]
      simp [Phase.holds, before]
    obtain ⟨w', runs, becomes⟩ := restore_becomes (stands.leads_aside sites member) leads aside
      (stands.free_own before) (sites.plain d member).1
    refine ⟨w', ?_, stands.change sites member becomes .restored ?_ ?_⟩
    · simpa [committed, before] using runs
    · intro role
      rw [sites.update_eq member, sites.update_eq member, stands.inside d member, placed]
      cases role <;> simp [Phase.holds, before]
    · intro place out
      rw [Function.update_of_ne (out .own).symm, Function.update_of_ne (out .aside).symm]

/-- Gives up the old file of one destination. -/
theorem settle_placed (placed : phase d = .placed) :
    ∃ w', (if (committed t site d).hasBackup then discard (backup d.path) else pure () :
        StateM Workspace Unit).run w = ((), w') ∧
      Stands t ds site (Function.update phase d .settled) w'.files := by
  cases before : held t site d .own with
  | none =>
    refine ⟨w, ?_, stands.change sites member (FileTree.Becomes.refl _) .settled ?_ ?_⟩
    · rw [committed, before]
      rfl
    · intro role
      rw [stands.inside d member, placed]
      cases role <;> simp [Phase.holds, before]
    · intro place _
      rfl
  | some bytes =>
    obtain ⟨w', runs, becomes⟩ := discard_becomes (stands.leads_aside sites member)
    refine ⟨w', ?_, stands.change sites member becomes .settled ?_ ?_⟩
    · simpa [committed, before] using runs
    · intro role
      rw [sites.update_eq member, stands.inside d member, placed]
      cases role <;> simp [Phase.holds, before]
    · intro place out
      exact Function.update_of_ne (out .aside).symm _ _

end Steps

end Forwarding.Output
