import Forwarding.Proofs.Phases
/-!
The loops of writing. Each takes all of its destinations from one phase to the next, or fails and
leaves every destination as it was.
-/

namespace Forwarding.Output

/-- Some destinations in another phase. -/
def advance (phase : Destination → Phase) (l : List Destination) (next : Phase) :
    Destination → Phase :=
  fun d => if d ∈ l then next else phase d

/-- Whether a phase leaves the old file, or its absence, at the place of a destination and nothing
new beside it. -/
def Phase.Undone (phase : Phase) : Prop :=
  phase = .untouched ∨ phase = .withdrawn ∨ phase = .restored

theorem advance_of_mem {phase : Destination → Phase} {l : List Destination} {d : Destination}
    (member : d ∈ l) (next : Phase) : advance phase l next d = next :=
  if_pos member

theorem advance_of_not_mem {phase : Destination → Phase} {l : List Destination} {d : Destination}
    (absent : d ∉ l) (next : Phase) : advance phase l next d = phase d :=
  if_neg absent

/-- Destinations are undone when some of them become so and the others are. -/
theorem advance_undone {phase : Destination → Phase} {l : List Destination} {next : Phase}
    (last : next.Undone) (others : ∀ d, d ∉ l → (phase d).Undone) (d : Destination) :
    (advance phase l next d).Undone := by
  by_cases member : d ∈ l
  · rw [advance_of_mem member]
    exact last
  · rw [advance_of_not_mem member]
    exact others d member

theorem advance_nil (phase : Destination → Phase) (next : Phase) : advance phase [] next = phase := by
  funext d
  exact advance_of_not_mem List.not_mem_nil next

theorem advance_update (phase : Destination → Phase) (d : Destination) (l : List Destination)
    (next : Phase) :
    advance (Function.update phase d next) l next = advance phase (d :: l) next := by
  funext e
  by_cases same : e = d
  · subst same
    simp [advance]
  · simp [advance, same]

theorem update_advance (phase : Destination → Phase) (d : Destination) (l : List Destination)
    (next : Phase) :
    Function.update (advance phase l next) d next = advance phase (l ++ [d]) next := by
  funext e
  by_cases same : e = d
  · subst same
    simp [advance]
  · simp [advance, same]

variable {t : FileTree} {ds : List Destination} {site : Destination → Role → List String}
  {phase : Destination → Phase}

/-- A loop whose step takes one destination from one phase to the next takes all of them. -/
theorem loop_stands {step : Destination → StateM Workspace Unit} {now next : Phase}
    (each : ∀ d ∈ ds, ∀ (phase : Destination → Phase) (w : Workspace),
      Stands t ds site phase w.files → phase d = now →
      ∃ w', (step d).run w = ((), w') ∧ Stands t ds site (Function.update phase d next) w'.files)
    (l : List Destination) (distinct : l.Nodup) (among : ∀ d ∈ l, d ∈ ds) (w : Workspace)
    (stands : Stands t ds site phase w.files) (ready : ∀ d ∈ l, phase d = now) :
    ∃ w', (l.forM step).run w = ((), w') ∧ Stands t ds site (advance phase l next) w'.files := by
  induction l generalizing phase w with
  | nil =>
    rw [advance_nil]
    exact ⟨w, rfl, stands⟩
  | cons d rest ih =>
    obtain ⟨fresh, distinctRest⟩ := List.nodup_cons.mp distinct
    obtain ⟨w₁, stepped, stands₁⟩ := each d (among d List.mem_cons_self) phase w stands
      (ready d List.mem_cons_self)
    have readyRest : ∀ e ∈ rest, Function.update phase d next e = now := by
      intro e member
      have different : e ≠ d := fun same => fresh (same ▸ member)
      rw [Function.update_of_ne different]
      exact ready e (List.mem_cons_of_mem d member)
    obtain ⟨w₂, looped, stands₂⟩ := ih distinctRest
      (fun e member => among e (List.mem_cons_of_mem d member)) w₁ stands₁ readyRest
    refine ⟨w₂, ?_, ?_⟩
    · show (step d >>= fun _ => rest.forM step).run w = _
      rw [run_bind stepped, looped]
    · rw [← advance_update]
      exact stands₂

theorem discardStaged_eq_forM (l : List Destination) :
    (discardStaged l : StateM Workspace Unit) = l.forM fun d => discard d.staging := by
  induction l with
  | nil => rfl
  | cons d rest ih =>
    rw [discardStaged, ih]
    rfl

theorem rollBack_eq_forM (l : List Destination) :
    (rollBack (l.map (committed t site)) : StateM Workspace Unit) =
      l.forM fun d => if (committed t site d).hasBackup then restore d.path else discard d.path := by
  induction l with
  | nil => rfl
  | cons d rest ih =>
    rw [List.map_cons, rollBack, ih]
    show _ = ((if (committed t site d).hasBackup then restore d.path else discard d.path) >>=
      fun _ => rest.forM _)
    by_cases backed : (committed t site d).hasBackup = true
    · rw [if_pos backed, if_pos backed]
      rfl
    · rw [if_neg backed, if_neg backed]
      rfl

/-- Gives up the old file of a destination that was committed, and tells of it. -/
def settle (c : Committed) : StateM Workspace Unit := do
  (if c.hasBackup then discard (backup c.path) else pure ())
  Host.log ⟨.debug, "written", [("path", c.path)]⟩

theorem run_finish (l : List Committed) (w : Workspace) :
    (finish l : Pass (StateM Workspace) Unit).run.run w = (.ok (), ((l.forM settle).run w).2) := by
  induction l generalizing w with
  | nil => rfl
  | cons c rest ih =>
    show _ = (Except.ok (), ((settle c >>= fun _ => rest.forM settle).run w).2)
    unfold finish
    by_cases backed : c.hasBackup = true
    · obtain ⟨w₁, runs, -⟩ := run_discard (backup c.path) w
      have settles : (settle c).run w =
          ((), { w₁ with log := w₁.log ++ [⟨.debug, "written", [("path", c.path)]⟩] }) := by
        unfold settle
        rw [if_pos backed, run_bind runs]
        rfl
      rw [if_pos backed, run_bind settles, ← ih, run_lift_bind runs]
      rfl
    · have settles : (settle c).run w =
          ((), { w with log := w.log ++ [⟨.debug, "written", [("path", c.path)]⟩] }) := by
        unfold settle
        rw [if_neg backed]
        rfl
      rw [if_neg backed, run_bind settles, ← ih]
      rfl

section Passes

variable (sites : Sites t ds site)

include sites

theorem discardStaged_stands {l : List Destination} (distinct : l.Nodup) (among : ∀ d ∈ l, d ∈ ds)
    {w : Workspace} (stands : Stands t ds site phase w.files) (ready : ∀ d ∈ l, phase d = .staged) :
    ∃ w', (discardStaged l : StateM Workspace Unit).run w = ((), w') ∧
      Stands t ds site (advance phase l .withdrawn) w'.files := by
  rw [discardStaged_eq_forM]
  apply loop_stands _ l distinct among w stands ready
  intro d member phase w stands staged
  exact discard_staging sites member stands (.inl staged)

theorem rollBack_stands {l : List Destination} (distinct : l.Nodup) (among : ∀ d ∈ l, d ∈ ds)
    {w : Workspace} (stands : Stands t ds site phase w.files) (ready : ∀ d ∈ l, phase d = .placed) :
    ∃ w', (rollBack (l.map (committed t site)) : StateM Workspace Unit).run w = ((), w') ∧
      Stands t ds site (advance phase l .restored) w'.files := by
  rw [rollBack_eq_forM]
  apply loop_stands _ l distinct among w stands ready
  intro d member phase w stands placed
  exact undo_placed sites member stands placed

/-- Giving up after a text could not be staged. -/
theorem abandon_staging {l : List Destination} {d : Destination} (member : d ∈ ds) (fresh : d ∉ l)
    (distinct : l.Nodup) (among : ∀ e ∈ l, e ∈ ds) {w : Workspace}
    (stands : Stands t ds site (advance (fun _ => .untouched) l .staged) w.files) :
    ∃ w₁ w₂ phase, (discard d.staging : StateM Workspace Unit).run w = ((), w₁) ∧
      (discardStaged l : StateM Workspace Unit).run w₁ = ((), w₂) ∧
      Stands t ds site phase w₂.files ∧ ∀ e, (phase e).Undone := by
  have untouched : advance (fun _ => Phase.untouched) l .staged d = .untouched :=
    advance_of_not_mem fresh _
  -- No file was there, so discarding what could not be staged takes nothing away.
  obtain ⟨w₁, discarded, stands₁⟩ := discard_staging sites member stands (.inr untouched)
  have ready : ∀ e ∈ l,
      Function.update (advance (fun _ => Phase.untouched) l .staged) d .withdrawn e = .staged := by
    intro e earlier
    have different : e ≠ d := fun same => fresh (same ▸ earlier)
    rw [Function.update_of_ne different, advance_of_mem earlier]
  obtain ⟨w₂, discardedAll, stands₂⟩ := discardStaged_stands sites distinct among stands₁ ready
  refine ⟨w₁, w₂, _, discarded, discardedAll, stands₂, ?_⟩
  apply advance_undone (.inr (.inl rfl))
  intro e notEarlier
  by_cases same : e = d
  · rw [same, Function.update_self]
    exact .inr (.inl rfl)
  · rw [Function.update_of_ne same, advance_of_not_mem notEarlier]
    exact .inl rfl

theorem stage_stands (rest : List Destination) (s : Staging) (w : Workspace)
    (distinct : (s.staged ++ rest).Nodup) (among : ∀ d ∈ s.staged ++ rest, d ∈ ds)
    (stands : Stands t ds site (advance (fun _ => .untouched) s.staged .staged) w.files) :
    (∃ failure w' phase, (stage s rest : Pass (StateM Workspace) Staging).run.run w = (.error failure, w') ∧
        Stands t ds site phase w'.files ∧ ∀ d, (phase d).Undone) ∨
      ∃ w', (stage s rest : Pass (StateM Workspace) Staging).run.run w =
          (.ok ⟨s.staged ++ rest.filter (fun d => !current t site d),
            s.unchanged ++ (rest.filter (current t site)).map (·.path)⟩, w') ∧
        Stands t ds site (advance (fun _ => .untouched)
          (s.staged ++ rest.filter (fun d => !current t site d)) .staged) w'.files := by
  induction rest generalizing s w with
  | nil =>
    right
    refine ⟨w, ?_, ?_⟩
    · simp only [stage, List.filter_nil, List.map_nil, List.append_nil]
      rfl
    · simpa using stands
  | cons d rest ih =>
    have member : d ∈ ds := among d (by simp)
    have fresh : d ∉ s.staged := by
      intro earlier
      exact (List.nodup_append.mp distinct).2.2 d earlier d List.mem_cons_self rfl
    have untouched : advance (fun _ => Phase.untouched) s.staged .staged d = .untouched :=
      advance_of_not_mem fresh _
    unfold stage
    rw [run_lift_bind (isCurrent_untouched sites member stands untouched)]
    by_cases isCurrent : current t site d = true
    · rw [if_pos isCurrent, run_bind_ok (run_log _ w)]
      have distinctRest : (s.staged ++ rest).Nodup :=
        distinct.sublist (List.Sublist.append_left (List.sublist_cons_self d rest) _)
      have amongRest : ∀ e ∈ s.staged ++ rest, e ∈ ds := by
        intro e inRest
        apply among e
        rcases List.mem_append.mp inRest with earlier | later
        · exact List.mem_append_left _ earlier
        · exact List.mem_append_right _ (List.mem_cons_of_mem d later)
      have later := ih { s with unchanged := s.unchanged ++ [d.path] }
        { w with log := w.log ++ [⟨.debug, "unchanged", [("path", d.path)]⟩] }
        distinctRest amongRest stands
      simpa [isCurrent] using later
    · have stale : current t site d = false := Bool.eq_false_iff.mpr isCurrent
      rw [if_neg isCurrent]
      rcases write_staging sites member stands untouched with ⟨w₁, wrote, stands₁⟩ | ⟨error, refused⟩
      · rw [run_lift_bind wrote]
        rw [update_advance] at stands₁
        have later := ih { s with staged := s.staged ++ [d] } w₁ (by simpa using distinct)
          (by simpa using among) stands₁
        simpa [stale] using later
      · left
        rw [run_lift_bind refused]
        obtain ⟨w₁, w₂, phase, discarded, discardedAll, stands₂, undone⟩ :=
          abandon_staging sites member fresh (List.nodup_append.mp distinct).1
            (fun e earlier => among e (List.mem_append_left _ earlier)) stands
        refine ⟨.emission d.group d.staging (.file error), w₂, phase, ?_, stands₂, undone⟩
        dsimp only
        rw [run_lift_bind discarded, run_lift_bind discardedAll]
        rfl

omit sites in
theorem advance_placed (l : List Destination) {d : Destination} {rest : List Destination}
    (fresh : d ∉ rest) :
    Function.update (advance (advance (fun _ => .untouched) l .placed) (d :: rest) .staged) d
        .placed =
      advance (advance (fun _ => .untouched) (d :: l) .placed) rest .staged := by
  funext e
  by_cases same : e = d
  · subst same
    rw [Function.update_self, advance_of_not_mem fresh, advance_of_mem List.mem_cons_self]
  · simp [advance, same]

/-- Giving up after a destination could not be committed. It is still staged, so it is discarded with
those after it. -/
theorem abandon_commits {l rest : List Destination} (distinct : (l ++ rest).Nodup)
    (among : ∀ d ∈ l ++ rest, d ∈ ds) {w : Workspace}
    (stands : Stands t ds site
      (advance (advance (fun _ => .untouched) l .placed) rest .staged) w.files) :
    ∃ w₁ w₂ phase,
      (rollBack (l.map (committed t site)) : StateM Workspace Unit).run w = ((), w₁) ∧
      (discardStaged rest : StateM Workspace Unit).run w₁ = ((), w₂) ∧
      Stands t ds site phase w₂.files ∧ ∀ d, (phase d).Undone := by
  obtain ⟨distinctDone, distinctRest, apart⟩ := List.nodup_append.mp distinct
  have ready : ∀ e ∈ l,
      advance (advance (fun _ => Phase.untouched) l .placed) rest .staged e = .placed := by
    intro e earlier
    have notLater : e ∉ rest := fun later => apart e earlier e later rfl
    rw [advance_of_not_mem notLater, advance_of_mem earlier]
  obtain ⟨w₁, undone, stands₁⟩ := rollBack_stands sites distinctDone
    (fun e earlier => among e (List.mem_append_left _ earlier)) stands ready
  have readyRest : ∀ e ∈ rest, advance
      (advance (advance (fun _ => Phase.untouched) l .placed) rest .staged) l .restored e =
        .staged := by
    intro e later
    have notEarlier : e ∉ l := fun earlier => apart e earlier e later rfl
    rw [advance_of_not_mem notEarlier, advance_of_mem later]
  obtain ⟨w₂, discarded, stands₂⟩ := discardStaged_stands sites distinctRest
    (fun e later => among e (List.mem_append_right _ later)) stands₁ readyRest
  refine ⟨w₁, w₂, _, undone, discarded, stands₂, ?_⟩
  apply advance_undone (.inr (.inl rfl))
  intro e notLater
  by_cases earlier : e ∈ l
  · rw [advance_of_mem earlier]
    exact .inr (.inr rfl)
  · rw [advance_of_not_mem earlier, advance_of_not_mem notLater, advance_of_not_mem earlier]
    exact .inl rfl

theorem commitAll_stands (rest l : List Destination) (w : Workspace)
    (distinct : (l ++ rest).Nodup) (among : ∀ d ∈ l ++ rest, d ∈ ds)
    (stands : Stands t ds site
      (advance (advance (fun _ => .untouched) l .placed) rest .staged) w.files) :
    (∃ failure w' phase,
        (commitAll (l.map (committed t site)) rest : Pass (StateM Workspace) _).run.run w =
          (.error failure, w') ∧
        Stands t ds site phase w'.files ∧ ∀ d, (phase d).Undone) ∨
      ∃ w', (commitAll (l.map (committed t site)) rest : Pass (StateM Workspace) _).run.run w =
          (.ok ((l.reverse ++ rest).map (committed t site)), w') ∧
        Stands t ds site (advance (fun _ => .untouched) (l.reverse ++ rest) .placed) w'.files := by
  induction rest generalizing l w with
  | nil =>
    right
    refine ⟨w, ?_, ?_⟩
    · rw [List.append_nil, List.map_reverse]
      rfl
    · have same : advance (fun _ => Phase.untouched) (l.reverse ++ []) .placed =
          advance (fun _ => .untouched) l .placed := by
        funext d
        simp [advance]
      rw [same]
      rw [advance_nil] at stands
      exact stands
  | cons d rest ih =>
    have member : d ∈ ds := among d (by simp)
    have distinctRest := (List.nodup_append.mp distinct).2.1
    unfold commitAll
    rcases commit_staged sites member stands (advance_of_mem List.mem_cons_self _) with
      ⟨w₁, commits, stands₁⟩ | ⟨error, refused⟩
    · rw [run_lift_bind commits]
      rw [advance_placed l (List.nodup_cons.mp distinctRest).1] at stands₁
      have reordered : (d :: l ++ rest).Perm (l ++ d :: rest) := List.perm_middle.symm
      have later := ih (d :: l) w₁ (reordered.nodup_iff.mpr distinct)
        (fun e inAll => among e (reordered.mem_iff.mp inAll)) stands₁
      simpa using later
    · left
      rw [run_lift_bind refused]
      obtain ⟨w₁, w₂, phase, undone, discarded, stands₂, allUndone⟩ :=
        abandon_commits sites distinct among stands
      refine ⟨.emission d.group d.path (.file error), w₂, phase, ?_, stands₂, allUndone⟩
      dsimp only
      rw [run_lift_bind undone, run_lift_bind discarded]
      rfl

theorem settle_stands {d : Destination} (member : d ∈ ds) {w : Workspace}
    (stands : Stands t ds site phase w.files) (placed : phase d = .placed) :
    ∃ w', (settle (committed t site d)).run w = ((), w') ∧
      Stands t ds site (Function.update phase d .settled) w'.files := by
  obtain ⟨w', runs, stands'⟩ := settle_placed sites member stands placed
  refine ⟨{ w' with log := w'.log ++ [⟨.debug, "written", [("path", d.path)]⟩] }, ?_, stands'⟩
  show ((if (committed t site d).hasBackup then discard (backup d.path) else pure ()) >>=
    fun _ => Host.log ⟨.debug, "written", [("path", d.path)]⟩ : StateM Workspace Unit).run w = _
  rw [run_bind runs]
  rfl

theorem finish_stands (l : List Destination) (w : Workspace) (distinct : l.Nodup)
    (among : ∀ d ∈ l, d ∈ ds) (stands : Stands t ds site phase w.files)
    (ready : ∀ d ∈ l, phase d = .placed) :
    ∃ w', (finish (l.map (committed t site)) : Pass (StateM Workspace) Unit).run.run w =
        (.ok (), w') ∧
      Stands t ds site (advance phase l .settled) w'.files := by
  obtain ⟨w', runs, stands'⟩ := loop_stands
    (fun d member phase w stands placed => settle_stands sites member stands placed)
    l distinct among w stands ready
  have mapped : (l.map (committed t site)).forM settle =
      l.forM fun d => settle (committed t site d) := List.forM_map ..
  refine ⟨w', ?_, stands'⟩
  rw [run_finish, mapped, runs]

end Passes

end Forwarding.Output
