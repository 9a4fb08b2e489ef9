import Forwarding.Proofs.Destinations
import Forwarding.Proofs.Directories
import Forwarding.Proofs.Loops
/-!
Replacing destinations. Once the directory is there, either every destination that does not hold its
text is replaced or all of them are as before.
-/

namespace Forwarding.Output

/-- What is left of writing when the directory is there. -/
def replace (ds : List Destination) : Pass (StateM Workspace) Written := do
  let staging ← stage ⟨[], []⟩ ds
  let committed ← commitAll [] staging.staged
  finish committed
  let summary : Written := ⟨committed.map (·.path), staging.unchanged⟩
  Pass.log ⟨.info, "wrote generated files",
    [("written", toString summary.written.length),
      ("unchanged", toString summary.unchanged.length)]⟩
  return summary

theorem advance_advance (phase : Destination → Phase) (l : List Destination)
    (first second : Phase) :
    advance (advance phase l first) l second = advance phase l second := by
  funext d
  by_cases member : d ∈ l
  · rw [advance_of_mem member, advance_of_mem member]
  · rw [advance_of_not_mem member, advance_of_not_mem member, advance_of_not_mem member]

theorem replace_stands {ds : List Destination} {site : Destination → Role → List String}
    {w : Workspace} (sites : Sites w.files ds site) (distinct : ds.Nodup) :
    (∃ failure w' phase, (replace ds).run.run w = (.error failure, w') ∧
        Stands w.files ds site phase w'.files ∧ ∀ d, (phase d).Undone) ∨
      ∃ w', (replace ds).run.run w =
          (.ok ⟨(ds.filter (fun d => !current w.files site d)).map (·.path),
            (ds.filter (current w.files site)).map (·.path)⟩, w') ∧
        Stands w.files ds site (advance (fun _ => .untouched)
          (ds.filter (fun d => !current w.files site d)) .settled) w'.files := by
  have untouched := Stands.untouched w.files ds site
  have begun : Stands w.files ds site (advance (fun _ => .untouched) [] .staged) w.files := by
    rw [advance_nil]
    exact untouched
  have distinctStale := distinct.filter (fun d => !current w.files site d)
  have amongStale : ∀ d ∈ ds.filter (fun d => !current w.files site d), d ∈ ds :=
    fun d member => (List.mem_filter.mp member).1
  unfold replace
  rcases stage_stands sites ds ⟨[], []⟩ w distinct (fun d member => member) begun with
    ⟨failure, w₁, phase, failed, stands, undone⟩ | ⟨w₁, staged, stands₁⟩
  · exact .inl ⟨failure, w₁, phase, run_bind_error failed, stands, undone⟩
  · rw [run_bind_ok staged]
    dsimp only
    rw [List.nil_append, List.nil_append]
    rw [List.nil_append] at stands₁
    have ready : Stands w.files ds site
        (advance (advance (fun _ => .untouched) [] .placed)
          (ds.filter (fun d => !current w.files site d)) .staged) w₁.files := by
      rw [advance_nil]
      exact stands₁
    rcases commitAll_stands sites _ [] w₁ distinctStale amongStale ready with
      ⟨failure, w₂, phase, failed, stands, undone⟩ | ⟨w₂, commits, stands₂⟩
    · exact .inl ⟨failure, w₂, phase, run_bind_error failed, stands, undone⟩
    · right
      rw [List.reverse_nil, List.nil_append] at commits stands₂
      obtain ⟨w₃, finished, stands₃⟩ := finish_stands sites _ w₂ distinctStale amongStale stands₂
        (fun d member => advance_of_mem member _)
      rw [List.map_nil] at commits
      rw [run_bind_ok commits, run_bind_ok finished, List.map_map]
      refine ⟨_, rfl, ?_⟩
      rw [← advance_advance _ _ .placed .settled]
      exact stands₃

theorem replace_lost {d : Destination} (rest : List Destination) {w : Workspace}
    (lost : ∀ role : Role, ∃ error, w.files.locate (role.path d) = .error error) :
    ∃ failure w', (replace (d :: rest)).run.run w = (.error failure, w') ∧
      w'.files = w.files := by
  obtain ⟨error, lostOwn⟩ := lost .own
  obtain ⟨error', lostStaging⟩ := lost .staging
  have unread : w.files.read d.path = .error error := by
    unfold FileTree.read FileTree.find
    rw [show w.files.locate d.path = .error error from lostOwn]
    rfl
  have notCurrent : (isCurrent d : StateM Workspace Bool).run w = (false, w) := by
    rw [run_isCurrent, unread]
    rfl
  have refuses : (Host.write d.staging d.contents.toUTF8 : StateM Workspace _).run w =
      (.error error', w) := by
    apply Workspace.run_change_error
    unfold FileTree.write
    rw [show w.files.locate d.staging = .error error' from lostStaging]
    rfl
  obtain ⟨w', discards, same⟩ := discard_lost lostStaging
  refine ⟨.emission d.group d.staging (.file error'), w', ?_, same⟩
  unfold replace
  apply run_bind_error
  unfold stage
  rw [run_lift_bind notCurrent, if_neg Bool.false_ne_true, run_lift_bind refuses]
  dsimp only
  rw [run_lift_bind (show (discard d.staging : StateM Workspace Unit).run w = ((), w') from discards)]
  rfl

theorem stage_current (ds : List Destination) (s : Staging) (w : Workspace)
    (holds : ∀ d ∈ ds, w.files.read d.path = .ok d.contents.toUTF8) :
    ∃ w', (stage s ds : Pass (StateM Workspace) Staging).run.run w =
        (.ok ⟨s.staged, s.unchanged ++ ds.map (·.path)⟩, w') ∧
      w'.files = w.files := by
  induction ds generalizing s w with
  | nil =>
    refine ⟨w, ?_, rfl⟩
    rw [List.map_nil, List.append_nil]
    rfl
  | cons d rest ih =>
    have here : (isCurrent d : StateM Workspace Bool).run w = (true, w) := by
      rw [run_isCurrent, holds d List.mem_cons_self, Except.toOption, (any_beq_iff _ _).mpr rfl]
    obtain ⟨w', staged, same⟩ := ih { s with unchanged := s.unchanged ++ [d.path] }
      { w with log := w.log ++ [⟨.debug, "unchanged", [("path", d.path)]⟩] }
      (fun e member => holds e (List.mem_cons_of_mem d member))
    refine ⟨w', ?_, same⟩
    unfold stage
    rw [run_lift_bind here, if_pos rfl, run_bind_ok (run_log _ w), staged]
    simp

/-- Destinations that all hold their texts are left alone. -/
theorem replace_current {ds : List Destination} {w : Workspace}
    (holds : ∀ d ∈ ds, w.files.read d.path = .ok d.contents.toUTF8) :
    ∃ w', (replace ds).run.run w = (.ok ⟨[], ds.map (·.path)⟩, w') ∧ w'.files = w.files := by
  obtain ⟨w', staged, same⟩ := stage_current ds ⟨[], []⟩ w holds
  unfold replace
  rw [run_bind_ok staged]
  exact ⟨_, rfl, same⟩

end Forwarding.Output
