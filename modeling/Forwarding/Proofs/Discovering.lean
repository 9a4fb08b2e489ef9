import Forwarding.Proofs.Resolving
import Forwarding.Proofs.Runs
import Forwarding.Source.Discovery
import Mathlib.Data.List.Pairwise
/-!
Discoveries. Every path that roots reach is read once, for the first of them, where texts of paths
are one if their components are. The files that the paths lead to are read once as well exactly when
roots that meet in a file spell the way to it alike; paths without two dots that begin alike do.
-/

namespace Forwarding

theorem run_bind_inv {α β : Type} {step : Pass (StateM Workspace) α}
    {next : α → Pass (StateM Workspace) β} {w w' : Workspace} {b : β}
    (runs : (step >>= next).run.run w = (.ok b, w')) :
    ∃ a between, step.run.run w = (.ok a, between) ∧ (next a).run.run between = (.ok b, w') := by
  rcases stepped : step.run.run w with ⟨result, between⟩
  cases result with
  | error failure =>
    rw [run_bind_error stepped] at runs
    cases runs
  | ok a => exact ⟨a, between, rfl, run_bind_ok stepped ▸ runs⟩

namespace Discovery

/-- The names that lead to the files below a path. -/
def namesBelow (files : FileTree) (path : String) : List (List String) :=
  match files.locate path with
  | .ok place => files.filesBelow place
  | .error _ => []

/-- The files of a root, as a discovery lists them. -/
def mountings (files : FileTree) (root : SourceRoot) : List Mounted :=
  let base := ModulePath.ofText root.module
  match Workspace.kind? files root.path with
  | some .file => [⟨root.path, base⟩]
  | some .directory => (namesBelow files root.path).filterMap (mounted? root.path base)
  | none => []

section Runs

variable {w w' : Workspace} {root : SourceRoot} {roots : List SourceRoot} {listed : List Mounted}
  {units units' : List SourceUnit} {path text : String}

theorem run_filesBelow (path : String) (w : Workspace) :
    (Host.filesBelow path : StateM Workspace _).run w = (namesBelow w.files path, w) := by
  show (match w.files.locate path with
    | .ok place => (return w.files.filesBelow place : StateM Workspace _)
    | .error _ => return []) w = _
  unfold namesBelow
  cases w.files.locate path <;> rfl

theorem run_filesOf (runs : (filesOf root : Pass (StateM Workspace) _).run.run w =
    (.ok listed, w')) : w' = w ∧ listed = mountings w.files root := by
  have asks : (Host.kind? root.path : StateM Workspace _).run w =
      (Workspace.kind? w.files root.path, w) := rfl
  unfold filesOf at runs
  dsimp only at runs
  rw [run_lift_bind asks] at runs
  unfold mountings
  cases kind : Workspace.kind? w.files root.path with
  | none =>
    rw [kind] at runs
    cases runs
  | some kind' =>
    rw [kind] at runs
    cases kind' with
    | file =>
      cases runs
      exact ⟨rfl, rfl⟩
    | directory =>
      dsimp only at runs
      rw [run_lift_bind (run_filesBelow root.path w)] at runs
      cases runs
      exact ⟨rfl, rfl⟩

theorem run_textOf (runs : (textOf path : Pass (StateM Workspace) _).run.run w = (.ok text, w')) :
    w' = w ∧ ∃ bytes, w.files.read path = .ok bytes ∧ String.fromUTF8? bytes = some text := by
  have reads : (Host.read path : StateM Workspace _).run w = (w.files.read path, w) := rfl
  unfold textOf at runs
  rw [run_lift_bind reads] at runs
  cases read : w.files.read path with
  | error error =>
    rw [read] at runs
    cases runs
  | ok bytes =>
    rw [read] at runs
    dsimp only at runs
    cases decoded : String.fromUTF8? bytes with
    | none =>
      rw [decoded] at runs
      cases runs
    | some text' =>
      rw [decoded] at runs
      cases runs
      exact ⟨rfl, bytes, rfl, decoded⟩

/-- Whether two texts are one path. -/
def SamePath (a b : String) : Prop :=
  Path.components a = Path.components b

/-- The text of a unit is the text of its file. -/
def IsRead (files : FileTree) (unit : SourceUnit) : Prop :=
  ∃ bytes, files.read unit.path = .ok bytes ∧ String.fromUTF8? bytes = some unit.text

/-- What reading some listed files adds to units: every path among them that no unit has, once. -/
structure Adds (files : FileTree) (units : List SourceUnit) (listed : List Mounted)
    (added : List SourceUnit) : Prop where
  fresh : ∀ unit ∈ added, ∀ other ∈ units, ¬ SamePath other.path unit.path
  apart : added.Pairwise fun a b => ¬ SamePath a.path b.path
  mounted : ∀ unit ∈ added, ⟨unit.path, unit.modulePath⟩ ∈ listed
  complete : ∀ file ∈ listed, ∃ unit ∈ units ++ added, SamePath unit.path file.path
  read : ∀ unit ∈ added, IsRead files unit

theorem reached_eq_true_iff :
    reached units path = true ↔ ∃ unit ∈ units, SamePath unit.path path := by
  simp only [reached, List.any_eq_true, Path.same, beq_iff_eq, SamePath]

theorem run_readFiles (runs : (readFiles units listed : Pass (StateM Workspace) _).run.run w =
    (.ok units', w')) :
    w'.files = w.files ∧ ∃ added, units' = units ++ added ∧ Adds w.files units listed added := by
  induction listed generalizing units w with
  | nil =>
    cases runs
    exact ⟨rfl, [], (List.append_nil _).symm, nofun, .nil, nofun, nofun, nofun⟩
  | cons file rest ih =>
    unfold readFiles at runs
    by_cases known : reached units file.path = true
    · rw [if_pos known, run_bind_ok (run_log _ _)] at runs
      obtain ⟨same, added, rfl, adds⟩ := ih runs
      obtain ⟨unit, member, one⟩ := reached_eq_true_iff.mp known
      refine ⟨same, added, rfl, adds.fresh, adds.apart,
        fun u inside => List.mem_cons_of_mem _ (adds.mounted u inside), ?_, adds.read⟩
      intro other inside
      rcases List.mem_cons.mp inside with rfl | later
      · exact ⟨unit, List.mem_append_left _ member, one⟩
      · exact adds.complete other later
    · rw [if_neg known] at runs
      obtain ⟨text, between, texted, later⟩ := run_bind_inv runs
      obtain ⟨rfl, bytes, read, decoded⟩ := run_textOf texted
      rw [run_bind_ok (run_log _ _)] at later
      obtain ⟨same, added, rfl, adds⟩ := ih later
      have unknown : ∀ other ∈ units, ¬ SamePath other.path file.path :=
        fun other member one => known (reached_eq_true_iff.mpr ⟨other, member, one⟩)
      refine ⟨same, ⟨file.path, file.modulePath, text⟩ :: added, by simp, ?_, ?_, ?_, ?_, ?_⟩
      · intro unit inside other member
        rcases List.mem_cons.mp inside with rfl | later
        · exact unknown other member
        · exact adds.fresh unit later other (List.mem_append_left _ member)
      · refine List.pairwise_cons.mpr ⟨fun unit inside => ?_, adds.apart⟩
        exact adds.fresh unit inside _ (List.mem_append_right _ (List.mem_singleton_self _))
      · intro unit inside
        rcases List.mem_cons.mp inside with rfl | later
        · exact List.mem_cons_self
        · exact List.mem_cons_of_mem _ (adds.mounted unit later)
      · intro other inside
        rcases List.mem_cons.mp inside with rfl | later
        · exact ⟨_, List.mem_append_right _ List.mem_cons_self, rfl⟩
        · obtain ⟨unit, member, one⟩ := adds.complete other later
          rw [List.append_assoc, List.singleton_append] at member
          exact ⟨unit, member, one⟩
      · intro unit inside
        rcases List.mem_cons.mp inside with rfl | later
        · exact ⟨bytes, read, decoded⟩
        · exact adds.read unit later

end Runs

/-- Units are the files that roots reach, each read once and mounted at the module that the first
root to reach it gives. `same` tells which texts of paths are one. -/
structure ReadOnce (files : FileTree) (same : String → String → Prop) (roots : List SourceRoot)
    (units : List SourceUnit) : Prop where
  apart : units.Pairwise fun a b => ¬ same a.path b.path
  first : ∀ unit ∈ units, ∃ before root after, roots = before ++ root :: after ∧
    ⟨unit.path, unit.modulePath⟩ ∈ mountings files root ∧
      ∀ earlier ∈ before, ∀ file ∈ mountings files earlier, ¬ same file.path unit.path
  complete : ∀ root ∈ roots, ∀ file ∈ mountings files root, ∃ unit ∈ units, same unit.path file.path
  read : ∀ unit ∈ units, IsRead files unit

namespace ReadOnce

variable {files : FileTree} {same : String → String → Prop} {roots : List SourceRoot}
  {units units' : List SourceUnit}

theorem nil (files : FileTree) (same : String → String → Prop) : ReadOnce files same [] [] :=
  ⟨.nil, nofun, nofun, nofun⟩

/-- Reading the files of one more root. -/
theorem append_root (once : ReadOnce files SamePath roots units) {root : SourceRoot}
    {added : List SourceUnit} (adds : Adds files units (mountings files root) added) :
    ReadOnce files SamePath (roots ++ [root]) (units ++ added) where
  apart := List.pairwise_append.mpr
    ⟨once.apart, adds.apart, fun a inside b inside' => adds.fresh b inside' a inside⟩
  first := by
    intro unit member
    rcases List.mem_append.mp member with old | new
    · obtain ⟨before, own, after, rfl, mounted, first⟩ := once.first unit old
      exact ⟨before, own, after ++ [root], by simp, mounted, first⟩
    · refine ⟨roots, root, [], rfl, adds.mounted unit new, ?_⟩
      -- a file of an earlier root has a unit already, which would be another one of this path
      intro earlier inside file mounted one
      obtain ⟨other, known, one'⟩ := once.complete earlier inside file mounted
      exact adds.fresh unit new other known (one'.trans one)
  complete := by
    intro other inside file mounted
    rcases List.mem_append.mp inside with old | new
    · obtain ⟨unit, member, one⟩ := once.complete other old file mounted
      exact ⟨unit, List.mem_append_left _ member, one⟩
    · rw [List.mem_singleton.mp new] at mounted
      exact adds.complete file mounted
  read := by
    intro unit member
    rcases List.mem_append.mp member with old | new
    · exact once.read unit old
    · exact adds.read unit new

theorem of_perm (once : ReadOnce files SamePath roots units) (perm : units'.Perm units) :
    ReadOnce files SamePath roots units' where
  apart := (perm.pairwise_iff fun different one => different one.symm).mpr once.apart
  first unit member := once.first unit (perm.mem_iff.mp member)
  complete root inside file mounted := by
    obtain ⟨unit, member, one⟩ := once.complete root inside file mounted
    exact ⟨unit, perm.mem_iff.mpr member, one⟩
  read unit member := once.read unit (perm.mem_iff.mp member)

end ReadOnce

section Discoveries

variable {w w' : Workspace} {roots done : List SourceRoot} {units units' : List SourceUnit}

theorem run_readRoots (once : ReadOnce w.files SamePath done units)
    (runs : (readRoots units roots : Pass (StateM Workspace) _).run.run w = (.ok units', w')) :
    ReadOnce w.files SamePath (done ++ roots) units' := by
  induction roots generalizing w done units with
  | nil =>
    cases runs
    rwa [List.append_nil]
  | cons root rest ih =>
    unfold readRoots at runs
    obtain ⟨listed, between, lists, further⟩ := run_bind_inv runs
    obtain ⟨rfl, rfl⟩ := run_filesOf lists
    obtain ⟨more, after, reads, last⟩ := run_bind_inv further
    obtain ⟨same, added, rfl, adds⟩ := run_readFiles reads
    rw [← same] at once adds ⊢
    have next := ih (once.append_root adds) last
    rwa [List.append_assoc] at next

/-- A discovery reads every path that roots reach once, for the first of them. -/
theorem run_discover (runs : (discover roots : Pass (StateM Workspace) _).run.run w =
    (.ok units, w')) : ReadOnce w.files SamePath roots units := by
  unfold discover at runs
  obtain ⟨all, between, reads, sorted⟩ := run_bind_inv runs
  cases sorted
  exact (run_readRoots (.nil _ _) reads).of_perm (sortBy_perm byPath all)

end Discoveries

section Places

variable {files : FileTree} {a b root : SourceRoot} {roots : List SourceRoot} {file f g : Mounted}
  {units : List SourceUnit}

/-- Whether two paths lead to the same place. -/
def SamePlace (files : FileTree) (a b : String) : Prop :=
  files.locate a = files.locate b

/-- A file that some names lead to from a root, as the places and the components say. -/
structure LeadsTo (files : FileTree) (root : SourceRoot) (file : Mounted)
    (place names : List String) : Prop where
  above : files.locate root.path = .ok place
  located : files.locate file.path = .ok (place ++ names)
  spelled : Path.components file.path = Path.components root.path ++ names.map .normal

theorem exists_leadsTo (proper : files.IsProper) (mounted : file ∈ mountings files root) :
    ∃ place names, LeadsTo files root file place names := by
  unfold mountings at mounted
  dsimp only at mounted
  cases located : files.locate root.path with
  | error error =>
    have none : Workspace.kind? files root.path = none := by
      unfold Workspace.kind? FileTree.find
      rw [located]
      rfl
    rw [none] at mounted
    cases mounted
  | ok place =>
    split at mounted
    · rw [List.mem_singleton.mp mounted]
      exact ⟨place, [], located, by rw [located, List.append_nil], by simp⟩
    · obtain ⟨names, below, mounts⟩ := List.mem_filterMap.mp mounted
      rw [namesBelow, located] at below
      obtain ⟨bytes, held⟩ := proper.mem_filesBelow_iff.mp below
      have path : file.path = names.foldl Path.join root.path := by
        unfold mounted? at mounts
        split at mounts
        · split at mounts
          · rw [← Option.some.inj mounts]
          · cases mounts
        · cases mounts
      refine ⟨place, names, located, ?_, ?_⟩
      · rw [path]
        exact proper.locate_foldl_join located (proper.mem_entries_iff.mpr held)
      · rw [path]
        exact proper.components_foldl_join located held
    · cases mounted

/-- Whether two roots reach a common file. -/
def Meet (files : FileTree) (a b : SourceRoot) : Prop :=
  ∃ f ∈ mountings files a, ∃ g ∈ mountings files b, SamePlace files f.path g.path

/-- Whether the path of a root that lies in another one goes on from the path of that one by the
names that lead there. -/
def Continues (files : FileTree) (a b : SourceRoot) : Prop :=
  ∀ place names, files.locate b.path = .ok place → files.locate a.path = .ok (place ++ names) →
    Path.components a.path = Path.components b.path ++ names.map .normal

/-- Texts of one path that lead somewhere lead to the same place. -/
theorem samePlace_of_samePath {p q : String} {place place' : List String}
    (leads : files.locate p = .ok place) (leads' : files.locate q = .ok place')
    (one : SamePath p q) : SamePlace files p q := by
  unfold SamePlace
  rw [leads, leads', FileTree.eq_of_locate leads, FileTree.eq_of_locate leads', one]

theorem samePath_of_continues {place place' names names' : List String}
    (leads : LeadsTo files a f place names) (leads' : LeadsTo files b g place' names')
    (below : Continues files a b) (above : Continues files b a)
    (one : SamePlace files f.path g.path) : SamePath f.path g.path := by
  unfold SamePlace at one
  rw [leads.located, leads'.located, Except.ok.injEq] at one
  unfold SamePath
  rw [leads.spelled, leads'.spelled]
  -- one of the two roots is at or below the place of the other
  rcases List.append_eq_append_iff.mp one with ⟨rest, rfl, rfl⟩ | ⟨rest, rfl, rfl⟩
  · rw [above place rest leads.above leads'.above]
    simp
  · rw [below place' rest leads'.above leads.above]
    simp

theorem continues_of_samePath {place names : List String} (leads : LeadsTo files a f place names)
    {place' names' : List String} (leads' : LeadsTo files b g place' names')
    (one : SamePlace files f.path g.path) (same : SamePath f.path g.path) :
    Continues files a b := by
  intro other rest located located'
  have top := leads'.above
  have own := leads.above
  rw [located, Except.ok.injEq] at top
  rw [located', Except.ok.injEq] at own
  subst top own
  unfold SamePlace at one
  unfold SamePath at same
  rw [leads.located, leads'.located, Except.ok.injEq, List.append_assoc] at one
  rw [leads.spelled, leads'.spelled, ← List.append_cancel_left one, List.map_append,
    ← List.append_assoc] at same
  exact List.append_cancel_right same

/-- Paths of roots without two dots that all begin with a single dot or all do not. -/
structure SpelledAlike (roots : List SourceRoot) : Prop where
  down : ∀ root ∈ roots, .parent ∉ Path.components root.path
  start : ∀ a ∈ roots, ∀ b ∈ roots, Path.start a.path = Path.start b.path

theorem SpelledAlike.continues (alike : SpelledAlike roots) (files : FileTree) (inside : a ∈ roots)
    (inside' : b ∈ roots) : Continues files a b := by
  intro place names located located'
  rw [FileTree.components_of_locate located' (alike.down a inside),
    FileTree.components_of_locate located (alike.down b inside'), alike.start a inside b inside']
  simp

/-- What is read once stays so under another notion of one path, which tells the files of the roots
apart alike. -/
theorem ReadOnce.congr {same same' : String → String → Prop} (once : ReadOnce files same roots units)
    (alike : ∀ a ∈ roots, ∀ f ∈ mountings files a, ∀ b ∈ roots, ∀ g ∈ mountings files b,
      (same f.path g.path ↔ same' f.path g.path)) : ReadOnce files same' roots units := by
  have mounted : ∀ unit ∈ units, ∃ root ∈ roots,
      (⟨unit.path, unit.modulePath⟩ : Mounted) ∈ mountings files root := by
    intro unit member
    obtain ⟨before, root, after, rfl, mounted, -⟩ := once.first unit member
    exact ⟨root, by simp, mounted⟩
  refine ⟨?_, ?_, ?_, once.read⟩
  · refine once.apart.imp_of_mem fun {unit other} member member' different one => different ?_
    obtain ⟨root, inside, reached⟩ := mounted unit member
    obtain ⟨root', inside', reached'⟩ := mounted other member'
    exact (alike root inside _ reached root' inside' _ reached').mpr one
  · intro unit member
    obtain ⟨before, root, after, all, reached, first⟩ := once.first unit member
    refine ⟨before, root, after, all, reached, fun earlier inside file reached' one => ?_⟩
    have inside' : earlier ∈ roots := by simp [all, inside]
    have inside'' : root ∈ roots := by simp [all]
    exact first earlier inside file reached'
      ((alike earlier inside' file reached' root inside'' _ reached).mpr one)
  · intro root inside file reached
    obtain ⟨unit, member, one⟩ := once.complete root inside file reached
    obtain ⟨root', inside', reached'⟩ := mounted unit member
    exact ⟨unit, member, (alike root' inside' _ reached' root inside file reached).mp one⟩

/-- A tree with a file at the top of a directory and one below. -/
def sample : Workspace :=
  ⟨⟨[(["src"], .directory), (["src", "flavor"], .directory),
    (["src", "flavor", "mod.rs"], .file "pub struct A;".toUTF8),
    (["src", "lib.rs"], .file "pub mod flavor;".toUTF8)]⟩, []⟩

/-- Two roots of the tree, where the path of the second has two slashes too many. -/
def overlapping : List SourceRoot :=
  [⟨"src/flavor", "crate::flavor"⟩, ⟨"src//", "crate"⟩]

/-- Two roots of the tree, where the path of the second begins with a single dot. -/
def dotted : List SourceRoot :=
  [⟨"src/flavor", "crate::flavor"⟩, ⟨"./src", "crate"⟩]

end Places

end Discovery

end Forwarding
