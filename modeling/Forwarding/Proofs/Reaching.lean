import Forwarding.Proofs.Directories
import Forwarding.Proofs.Discovering
/-!
Reach. A root that is a file reaches itself, and a root that is a directory reaches the source files
at any depth below it. What a root lists is what it reaches, each path once. Roots are read when they
exist and whatever they list is text.
-/

namespace Forwarding

theorem fromUTF8?_eq_some_iff {bytes : ByteArray} {text : String} :
    String.fromUTF8? bytes = some text ↔ text.toUTF8 = bytes := by
  unfold String.fromUTF8?
  split
  · constructor
    · intro decoded
      cases decoded
      rfl
    · rintro rfl
      rfl
  · rename_i invalid
    constructor
    · intro decoded
      cases decoded
    · rintro rfl
      exact absurd text.isValidUTF8 invalid

namespace FileTree

variable {t : FileTree} {path : String} {place names : List String} {bytes : ByteArray}

theorem exists_locate_of_read (read : t.read path = .ok bytes) :
    ∃ place, t.locate path = .ok place ∧ t.bytes? place = some bytes := by
  cases leads : t.locate path with
  | error error =>
    unfold FileTree.read find at read
    rw [leads] at read
    cases read
  | ok place => exact ⟨place, rfl, (read_eq_ok_iff leads).mp read⟩

end FileTree

namespace Discovery

variable {files : FileTree} {root : SourceRoot} {path name : String} {base names : List String}
  {file other : Mounted} {module : List String} {bytes : ByteArray}

theorem isSource_iff : isSource name = true ↔ ∃ stem, stem ≠ "" ∧ name = stem ++ ".rs" := by
  have suffixed : isSource name = true ↔
      (∃ front, front ++ extension = name.toList) ∧ extension.length < name.toList.length := by
    rw [isSource, Bool.and_eq_true, List.isSuffixOf_iff_suffix, decide_eq_true_eq,
      String.length_toList]
    rfl
  rw [suffixed]
  constructor
  · rintro ⟨⟨front, same⟩, longer⟩
    refine ⟨String.ofList front, ?_, ?_⟩
    · intro empty
      rw [← same, List.length_append, String.ofList_eq_empty_iff.mp empty] at longer
      exact absurd longer (Nat.lt_irrefl _)
    · rw [← String.toList_inj, String.toList_append, String.toList_ofList]
      exact same.symm
  · rintro ⟨stem, named, rfl⟩
    rw [String.toList_append]
    refine ⟨⟨_, rfl⟩, ?_⟩
    have nonempty : stem.toList ≠ [] := by simpa using named
    have positive := List.length_pos_of_ne_nil nonempty
    rw [List.length_append]
    change 3 < stem.toList.length + 3
    omega

theorem mounted?_eq_some_iff {top : String} :
    mounted? top base names = some file ↔
      ∃ directories stem, stem ≠ "" ∧ names = directories ++ [stem ++ ".rs"] ∧
        file = ⟨names.foldl Path.join top, ModulePath.ofFile base directories (stem ++ ".rs")⟩ := by
  unfold mounted?
  cases names using List.reverseRecOn with
  | nil => simp
  | append_singleton directories name =>
    rw [List.getLast?_concat, List.dropLast_concat]
    dsimp only
    by_cases source : isSource name = true
    · obtain ⟨stem, named, rfl⟩ := isSource_iff.mp source
      rw [if_pos source, Option.some.injEq]
      constructor
      · rintro rfl
        exact ⟨directories, stem, named, rfl, rfl⟩
      · rintro ⟨directories', stem', -, same, rfl⟩
        obtain ⟨rfl, last⟩ := List.append_inj' same rfl
        rw [List.singleton_inj.mp last]
    · rw [if_neg source]
      constructor
      · intro none
        cases none
      · rintro ⟨directories', stem, named, same, -⟩
        have last := List.singleton_inj.mp (List.append_inj' same rfl).2
        exact absurd (isSource_iff.mpr ⟨stem, named, last⟩) source

/-- The files of a root, by the tree. -/
theorem mem_mountings_iff (proper : files.IsProper) :
    file ∈ mountings files root ↔
      (∃ bytes, files.read root.path = .ok bytes ∧
        file = ⟨root.path, ModulePath.ofText root.module⟩) ∨
      ∃ place names bytes, files.locate root.path = .ok place ∧ files.HasDirectory place ∧
        files.bytes? (place ++ names) = some bytes ∧
        mounted? root.path (ModulePath.ofText root.module) names = some file := by
  unfold mountings
  dsimp only
  cases kind : Workspace.kind? files root.path with
  | none =>
    have unread : ¬ ∃ bytes, files.read root.path = .ok bytes :=
      Workspace.kind?_eq_file_iff_read.not.mp (by simp [kind])
    have nowhere : ¬ files.LeadsToDirectory root.path :=
      (Workspace.kind?_eq_directory_iff files root.path).not.mp (by simp [kind])
    constructor
    · intro mounted
      cases mounted
    · rintro (⟨bytes, read, -⟩ | ⟨place, -, -, leads, present, -⟩)
      · exact absurd ⟨bytes, read⟩ unread
      · exact absurd ⟨place, leads, present⟩ nowhere
  | some entry =>
    cases entry with
    | file =>
      obtain ⟨bytes, read⟩ := Workspace.kind?_eq_file_iff_read.mp kind
      have nowhere : ¬ files.LeadsToDirectory root.path :=
        (Workspace.kind?_eq_directory_iff files root.path).not.mp (by simp [kind])
      constructor
      · intro mounted
        exact .inl ⟨bytes, read, List.mem_singleton.mp mounted⟩
      · rintro (⟨-, -, rfl⟩ | ⟨place, -, -, leads, present, -⟩)
        · exact List.mem_singleton_self _
        · exact absurd ⟨place, leads, present⟩ nowhere
    | directory =>
      obtain ⟨place, leads, present⟩ :=
        (Workspace.kind?_eq_directory_iff files root.path).mp kind
      have unread : ¬ ∃ bytes, files.read root.path = .ok bytes :=
        Workspace.kind?_eq_file_iff_read.not.mp (by simp [kind])
      simp only [List.mem_filterMap, namesBelow, leads, proper.mem_filesBelow_iff]
      constructor
      · rintro ⟨names, ⟨bytes, held⟩, mounts⟩
        exact .inr ⟨place, names, bytes, rfl, present, held, mounts⟩
      · rintro (⟨bytes, read, -⟩ | ⟨other, names, bytes, leads', -, held, mounts⟩)
        · exact absurd ⟨bytes, read⟩ unread
        · obtain rfl := Except.ok.inj leads'
          exact ⟨names, ⟨bytes, held⟩, mounts⟩

/-- What a root reaches, at any text of its path: itself if it is a file, and if it is a directory
every file below it with a stem and the extension of source files. The module is that of the root,
or the one for the directories and the name between the root and the file. -/
inductive Reaches (files : FileTree) (root : SourceRoot) (path : String) :
    List String → ByteArray → Prop
  | itself {bytes : ByteArray} (held : files.read root.path = .ok bytes)
      (one : SamePath root.path path) : Reaches files root path (ModulePath.ofText root.module) bytes
  | below {place directories : List String} {stem : String} {bytes : ByteArray}
      (leads : files.locate root.path = .ok place) (present : files.HasDirectory place)
      (named : stem ≠ "")
      (held : files.bytes? (place ++ (directories ++ [stem ++ ".rs"])) = some bytes)
      (one : Path.components path =
        Path.components root.path ++ (directories ++ [stem ++ ".rs"]).map .normal) :
      Reaches files root path
        (ModulePath.ofFile (ModulePath.ofText root.module) directories (stem ++ ".rs")) bytes

/-- Whether a root reaches a path. -/
def Reached (files : FileTree) (path : String) (root : SourceRoot) : Prop :=
  ∃ module bytes, Reaches files root path module bytes

theorem reaches_iff (proper : files.IsProper) :
    Reaches files root path module bytes ↔
      ∃ file ∈ mountings files root, SamePath file.path path ∧ file.modulePath = module ∧
        files.read file.path = .ok bytes := by
  constructor
  · intro reaches
    cases reaches with
    | itself held one =>
      exact ⟨_, (mem_mountings_iff proper).mpr (.inl ⟨bytes, held, rfl⟩), one, rfl, held⟩
    | @below place directories stem _ leads present named held one =>
      have mounts : mounted? root.path (ModulePath.ofText root.module)
          (directories ++ [stem ++ ".rs"]) = some _ :=
        mounted?_eq_some_iff.mpr ⟨directories, stem, named, rfl, rfl⟩
      exact ⟨_, (mem_mountings_iff proper).mpr (.inr ⟨_, _, bytes, leads, present, held, mounts⟩),
        (proper.components_foldl_join leads held).trans one.symm, rfl,
        proper.read_foldl_join leads held⟩
  · rintro ⟨file, mounted, one, rfl, read⟩
    rcases (mem_mountings_iff proper).mp mounted with
      ⟨_, -, rfl⟩ | ⟨place, names, other, leads, present, held, mounts⟩
    · exact .itself read one
    · obtain ⟨directories, stem, named, rfl, rfl⟩ := mounted?_eq_some_iff.mp mounts
      rw [proper.read_foldl_join leads held, Except.ok.injEq] at read
      subst read
      exact .below leads present named held
        (one.symm.trans (proper.components_foldl_join leads held))

theorem exists_read_of_mounted (proper : files.IsProper) (mounted : file ∈ mountings files root) :
    ∃ bytes, files.read file.path = .ok bytes := by
  rcases (mem_mountings_iff proper).mp mounted with
    ⟨bytes, read, rfl⟩ | ⟨place, names, bytes, leads, -, held, mounts⟩
  · exact ⟨bytes, read⟩
  · obtain ⟨directories, stem, -, rfl, rfl⟩ := mounted?_eq_some_iff.mp mounts
    exact ⟨bytes, proper.read_foldl_join leads held⟩

theorem reached_iff (proper : files.IsProper) :
    Reached files path root ↔ ∃ file ∈ mountings files root, SamePath file.path path := by
  unfold Reached
  simp only [reaches_iff proper]
  constructor
  · rintro ⟨module, bytes, file, mounted, one, -⟩
    exact ⟨file, mounted, one⟩
  · rintro ⟨file, mounted, one⟩
    obtain ⟨bytes, read⟩ := exists_read_of_mounted proper mounted
    exact ⟨_, bytes, file, mounted, one, rfl, read⟩

/-- A root lists a path once. -/
theorem eq_of_samePath (proper : files.IsProper) (mounted : file ∈ mountings files root)
    (mounted' : other ∈ mountings files root) (one : SamePath file.path other.path) :
    file = other := by
  rcases (mem_mountings_iff proper).mp mounted with
    ⟨bytes, read, rfl⟩ | ⟨place, names, bytes, leads, present, held, mounts⟩ <;>
  rcases (mem_mountings_iff proper).mp mounted' with
    ⟨bytes', read', rfl⟩ | ⟨place', names', bytes', leads', present', held', mounts'⟩
  · rfl
  · rw [FileTree.read_eq_ok_iff leads'] at read
    exact absurd present' (FileTree.free_of_bytes? read)
  · rw [FileTree.read_eq_ok_iff leads] at read'
    exact absurd present (FileTree.free_of_bytes? read')
  · rw [leads, Except.ok.injEq] at leads'
    subst leads'
    have spelled {names : List String} {bytes : ByteArray} {file : Mounted}
        (held : files.bytes? (place ++ names) = some bytes)
        (mounts : mounted? root.path (ModulePath.ofText root.module) names = some file) :
        Path.components file.path = Path.components root.path ++ names.map .normal := by
      obtain ⟨directories, stem, -, rfl, rfl⟩ := mounted?_eq_some_iff.mp mounts
      exact proper.components_foldl_join leads held
    unfold SamePath at one
    rw [spelled held mounts, spelled held' mounts'] at one
    have same := List.map_injective_iff.mpr (fun _ _ => PathComponent.normal.inj)
      (List.append_cancel_left one)
    rw [same, mounts', Option.some.injEq] at mounts
    exact mounts.symm

section Success

variable {w w' : Workspace} {roots : List SourceRoot} {units units' : List SourceUnit}
  {listed : List Mounted}

theorem run_textOf_ok {text : String} (read : w.files.read path = .ok text.toUTF8) :
    (textOf path : Pass (StateM Workspace) _).run.run w = (.ok text, w) := by
  have reads : (Host.read path : StateM Workspace _).run w = (w.files.read path, w) := rfl
  have decoded : String.fromUTF8? text.toUTF8 = some text := fromUTF8?_eq_some_iff.mpr rfl
  unfold textOf
  rw [run_lift_bind reads, read]
  dsimp only
  rw [decoded]
  rfl

/-- Files that are all text are read. -/
theorem exists_run_readFiles
    (texts : ∀ file ∈ listed, ∃ text : String, w.files.read file.path = .ok text.toUTF8)
    (units : List SourceUnit) :
    ∃ units' w', (readFiles units listed : Pass (StateM Workspace) _).run.run w =
      (.ok units', w') := by
  induction listed generalizing units w with
  | nil => exact ⟨units, w, rfl⟩
  | cons file rest ih =>
    have others (w' : Workspace) (same : w'.files = w.files) : ∀ file ∈ rest, ∃ text : String,
        w'.files.read file.path = .ok text.toUTF8 := fun other member => by
      rw [same]
      exact texts other (List.mem_cons_of_mem _ member)
    unfold readFiles
    split
    · rw [run_bind_ok (run_log _ _)]
      exact ih (others _ (by rfl)) units
    · obtain ⟨text, read⟩ := texts file List.mem_cons_self
      rw [run_bind_ok (run_textOf_ok read), run_bind_ok (run_log _ _)]
      exact ih (others _ (by rfl)) _

theorem run_filesOf_ok {entry : Entry} (exist : w.files.find root.path = .ok entry) :
    (filesOf root : Pass (StateM Workspace) _).run.run w = (.ok (mountings w.files root), w) := by
  have asks : (Host.kind? root.path : StateM Workspace _).run w =
      (Workspace.kind? w.files root.path, w) := rfl
  have kind : Workspace.kind? w.files root.path = some (Workspace.kindOf entry) := by
    rw [Workspace.kind?, exist]
  unfold filesOf mountings
  dsimp only
  rw [run_lift_bind asks, kind]
  cases entry with
  | file bytes => rfl
  | directory =>
    dsimp only [Workspace.kindOf]
    rw [run_lift_bind (run_filesBelow root.path w)]
    rfl

/-- Roots that exist and list texts only are read. -/
theorem exists_run_readRoots (exist : ∀ root ∈ roots, ∃ entry, w.files.find root.path = .ok entry)
    (texts : ∀ root ∈ roots, ∀ file ∈ mountings w.files root,
      ∃ text : String, w.files.read file.path = .ok text.toUTF8) (units : List SourceUnit) :
    ∃ units' w', (readRoots units roots : Pass (StateM Workspace) _).run.run w =
      (.ok units', w') := by
  induction roots generalizing units w with
  | nil => exact ⟨units, w, rfl⟩
  | cons root rest ih =>
    obtain ⟨entry, found⟩ := exist root List.mem_cons_self
    obtain ⟨more, between, reads⟩ :=
      exists_run_readFiles (texts root List.mem_cons_self) units
    have same := (run_readFiles reads).1
    unfold readRoots
    rw [run_bind_ok (run_filesOf_ok found), run_bind_ok reads]
    refine ih (fun other member => ?_) (fun other member => ?_) more
    · rw [same]
      exact exist other (List.mem_cons_of_mem _ member)
    · rw [same]
      exact texts other (List.mem_cons_of_mem _ member)

/-- Roots that are read exist. -/
theorem exist_of_run_readRoots
    (runs : (readRoots units roots : Pass (StateM Workspace) _).run.run w = (.ok units', w')) :
    ∀ root ∈ roots, ∃ entry, w.files.find root.path = .ok entry := by
  induction roots generalizing units w with
  | nil => nofun
  | cons root rest ih =>
    unfold readRoots at runs
    obtain ⟨listed, between, lists, further⟩ := run_bind_inv runs
    obtain ⟨rfl, rfl⟩ := run_filesOf lists
    obtain ⟨more, after, reads, last⟩ := run_bind_inv further
    rw [← (run_readFiles reads).1]
    intro other member
    rcases List.mem_cons.mp member with rfl | member
    · rw [(run_readFiles reads).1]
      cases found : between.files.find other.path with
      | ok entry => exact ⟨entry, rfl⟩
      | error error =>
        have asks : (Host.kind? other.path : StateM Workspace _).run between =
            (none, between) := by
          change (Workspace.kind? between.files other.path, between) = _
          rw [Workspace.kind?, found]
        unfold filesOf at lists
        dsimp only at lists
        rw [run_lift_bind asks] at lists
        cases lists
    · exact ih last other member

end Success

theorem SamePath.reached_iff {a b : String} (one : SamePath a b) :
    Reached files a root ↔ Reached files b root := by
  have moves {a b : String} (one : SamePath a b) (reached : Reached files a root) :
      Reached files b root := by
    obtain ⟨module, bytes, reaches⟩ := reached
    cases reaches with
    | itself held same => exact ⟨_, _, .itself held (same.trans one)⟩
    | below leads present named held same =>
      exact ⟨_, _, .below leads present named held (one.symm.trans same)⟩
  exact ⟨moves one, moves one.symm⟩

end Discovery

end Forwarding
