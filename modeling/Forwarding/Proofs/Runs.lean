import Forwarding.Files.Workspace
import Forwarding.Output
import Forwarding.Proofs.Contents
/-!
Runs over a working directory that is a value: how steps compose, and what each operation of the
output does to the contents of files.
-/

namespace Forwarding

section Composition

variable {α β : Type} {w w' : Workspace} {a : α}

theorem run_bind {step : StateM Workspace α} {next : α → StateM Workspace β}
    (runs : step.run w = (a, w')) : (step >>= next).run w = (next a).run w' := by
  rw [StateT.run_bind, runs]
  rfl

theorem run_lift_bind {step : StateM Workspace α} {next : α → Pass (StateM Workspace) β}
    (runs : step.run w = (a, w')) :
    (ExceptT.lift step >>= next).run.run w = (next a).run.run w' := by
  rw [ExceptT.run_bind, ExceptT.run_lift, StateT.run_bind, StateT.run_map, runs]
  rfl

theorem run_bind_ok {step : Pass (StateM Workspace) α} {next : α → Pass (StateM Workspace) β}
    (runs : step.run.run w = (.ok a, w')) :
    (step >>= next).run.run w = (next a).run.run w' := by
  rw [ExceptT.run_bind, StateT.run_bind, runs]
  rfl

theorem run_bind_error {step : Pass (StateM Workspace) α} {next : α → Pass (StateM Workspace) β}
    {failure : Failure} (runs : step.run.run w = (.error failure, w')) :
    (step >>= next).run.run w = (.error failure, w') := by
  rw [ExceptT.run_bind, StateT.run_bind, runs]
  rfl

theorem run_log (event : Event) (w : Workspace) :
    (Pass.log event : Pass (StateM Workspace) Unit).run.run w =
      (.ok (), { w with log := w.log ++ [event] }) := rfl

namespace Workspace

variable {operation : FileTree → Except FileError FileTree}

theorem run_change_ok {files : FileTree} (given : operation w.files = .ok files) :
    (change operation).run w = (.ok (), { w with files }) := by
  show change operation w = _
  rw [change, given]

theorem run_change_error {error : FileError} (refused : operation w.files = .error error) :
    (change operation).run w = (.error error, w) := by
  show change operation w = _
  rw [change, refused]

theorem kind?_eq_file_iff {files : FileTree} {path : String} {place : List String}
    (leads : files.locate path = .ok place) :
    kind? files path = some .file ↔ (files.bytes? place).isSome := by
  unfold kind? FileTree.bytes?
  rw [FileTree.find_of_leads leads]
  cases files.get? place with
  | none => simp
  | some entry => cases entry <;> simp [kindOf]

theorem kind?_eq_file_iff_read {files : FileTree} {path : String} :
    kind? files path = some .file ↔ ∃ bytes, files.read path = .ok bytes := by
  unfold kind? FileTree.read
  cases files.find path with
  | error error => simp [bind, Except.bind]
  | ok entry => cases entry <;> simp [kindOf, bind, Except.bind, pure, Except.pure]

end Workspace

end Composition

namespace Output

variable {w : Workspace} {path : String} {place : List String}

theorem run_discard (path : String) (w : Workspace) :
    ∃ w', (discard path : StateM Workspace Unit).run w = ((), w') ∧
      ((∃ error, w.files.remove path = .error error ∧ w'.files = w.files) ∨
        w.files.remove path = .ok w'.files) := by
  unfold discard
  cases removed : w.files.remove path with
  | ok files =>
    have removes : (Host.remove path : StateM Workspace _).run w = (.ok (), { w with files }) :=
      Workspace.run_change_ok removed
    rw [run_bind removes]
    exact ⟨_, rfl, .inr rfl⟩
  | error error =>
    have refuses : (Host.remove path : StateM Workspace _).run w = (.error error, w) :=
      Workspace.run_change_error removed
    rw [run_bind refuses]
    cases error <;> exact ⟨_, rfl, .inl ⟨_, rfl, rfl⟩⟩

theorem discard_becomes (leads : w.files.locate path = .ok place) :
    ∃ w', (discard path : StateM Workspace Unit).run w = ((), w') ∧
      w.files.Becomes w'.files (Function.update w.files.bytes? place none) := by
  obtain ⟨w', runs, outcome⟩ := run_discard path w
  refine ⟨w', runs, ?_⟩
  cases held : w.files.bytes? place with
  | none =>
    have unchanged : Function.update w.files.bytes? place none = w.files.bytes? := by
      rw [← held, Function.update_eq_self]
    obtain ⟨error, refused⟩ := FileTree.remove_of_none leads held
    rcases outcome with ⟨-, -, same⟩ | removed
    · rw [unchanged, same]
      exact FileTree.Becomes.refl _
    · rw [refused] at removed
      cases removed
  | some bytes =>
    have given := FileTree.remove_of_file leads held
    rcases outcome with ⟨error, refused, -⟩ | removed
    · rw [given] at refused
      cases refused
    · rw [← Except.ok.inj (given.symm.trans removed)]
      exact FileTree.erase_becomes (FileTree.free_of_bytes? held)

/-- Discarding a path that leads nowhere changes no files. -/
theorem discard_lost {error : FileError} (lost : w.files.locate path = .error error) :
    ∃ w', (discard path : StateM Workspace Unit).run w = ((), w') ∧ w'.files = w.files := by
  obtain ⟨w', runs, outcome⟩ := run_discard path w
  refine ⟨w', runs, ?_⟩
  rcases outcome with ⟨-, -, same⟩ | removed
  · exact same
  · unfold FileTree.remove at removed
    rw [lost] at removed
    cases removed

theorem beq_bytes_iff (a b : ByteArray) : (a == b) = true ↔ a = b := by
  show (a.data == b.data) = true ↔ a = b
  rw [beq_iff_eq, ByteArray.ext_iff]

theorem any_beq_iff (held : Option ByteArray) (text : ByteArray) :
    held.any (· == text) = true ↔ held = some text := by
  cases held with
  | none => simp
  | some bytes => simp [beq_bytes_iff]

theorem run_isCurrent (d : Destination) (w : Workspace) :
    (isCurrent d : StateM Workspace Bool).run w =
      ((w.files.read d.path).toOption.any (· == d.contents.toUTF8), w) := by
  have reads : (Host.read d.path : StateM Workspace _).run w = (w.files.read d.path, w) := rfl
  unfold isCurrent
  rw [run_bind reads]
  cases w.files.read d.path <;> rfl

section Moving

variable {source target : String} {origin : List String} {bytes : ByteArray}

theorem move_becomes (fromOrigin : w.files.locate source = .ok origin)
    (leads : w.files.locate target = .ok place) (held : w.files.bytes? origin = some bytes)
    (free : ¬ w.files.HasDirectory place) (plain : FileTree.endsInSlash target = false) :
    ∃ w', (Host.move source target : StateM Workspace _).run w = (.ok (), w') ∧
      w.files.Becomes w'.files
        (Function.update (Function.update w.files.bytes? origin none) place (some bytes)) :=
  ⟨_, Workspace.run_change_ok (FileTree.move_of_free fromOrigin leads held free plain),
    FileTree.move_becomes held free⟩

theorem move_refused (fromOrigin : w.files.locate source = .ok origin)
    (leads : w.files.locate target = .ok place) (held : w.files.bytes? origin = some bytes)
    (present : w.files.HasDirectory place) :
    ∃ error, (Host.move source target : StateM Workspace _).run w = (.error error, w) := by
  obtain ⟨error, refused⟩ := FileTree.move_of_directory fromOrigin leads held present
  exact ⟨error, Workspace.run_change_error refused⟩

theorem restore_becomes (fromBackup : w.files.locate (backup path) = .ok origin)
    (leads : w.files.locate path = .ok place) (held : w.files.bytes? origin = some bytes)
    (free : ¬ w.files.HasDirectory place) (plain : FileTree.endsInSlash path = false) :
    ∃ w', (restore path : StateM Workspace Unit).run w = ((), w') ∧
      w.files.Becomes w'.files
        (Function.update (Function.update w.files.bytes? origin none) place (some bytes)) := by
  obtain ⟨w', moves, becomes⟩ := move_becomes fromBackup leads held free plain
  refine ⟨w', ?_, becomes⟩
  unfold restore
  rw [run_bind moves]
  rfl

end Moving

end Output

end Forwarding
