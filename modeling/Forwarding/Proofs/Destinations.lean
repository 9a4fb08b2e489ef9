import Forwarding.Proofs.Phases
import Mathlib.Data.List.Nodup
/-!
The places of destinations. File names that are single components, differ, and do not differ by the
ending of staged or old files alone give every destination places of its own.
-/

namespace Forwarding

/-- File names that are single components of paths, all different, and none another one with the
ending of a staged or of an old file. -/
def Separate (names : List String) : Prop :=
  (∀ name ∈ names, Path.components name = [.normal name]) ∧ names.Nodup ∧
    ∀ a ∈ names, ∀ b ∈ names, a ≠ b ++ ".tmp" ∧ a ≠ b ++ ".bak"

instance (names : List String) : Decidable (Separate names) :=
  inferInstanceAs (Decidable (_ ∧ _ ∧ _))

section Splitting

variable {α : Type} [BEq α] [LawfulBEq α] {separator : α}

theorem not_mem_of_mem_splitAtEach {l part : List α} (member : part ∈ splitAtEach separator l) :
    separator ∉ part := by
  induction l generalizing part with
  | nil =>
    rw [splitAtEach, List.mem_singleton] at member
    rw [member]
    exact List.not_mem_nil
  | cons a rest ih =>
    rw [splitAtEach] at member
    by_cases same : a = separator
    · simp only [same, beq_self_eq_true, if_true, List.mem_cons] at member
      rcases member with rfl | later
      · exact List.not_mem_nil
      · exact ih later
    · have different : (a == separator) = false := by simpa using same
      cases parts : splitAtEach separator rest with
      | nil => exact absurd parts (splitAtEach_ne_nil rest)
      | cons first more =>
        simp only [different, parts, Bool.false_eq_true, if_false, List.mem_cons] at member
        rcases member with rfl | later
        · intro inside
          rcases List.mem_cons.mp inside with here | later
          · exact same here.symm
          · exact ih (by rw [parts]; exact List.mem_cons_self) later
        · exact ih (by rw [parts]; exact List.mem_cons_of_mem _ later)

end Splitting

namespace Path

theorem single_of_components {name : String} (single : components name = [.normal name]) :
    '/' ∉ name.toList ∧ name ≠ "" ∧ name ≠ "." ∧ name ≠ ".." := by
  have member : PathComponent.normal name ∈ components name := by
    rw [single]
    exact List.mem_singleton_self _
  have found : ∃ part ∈ parts name, part = name ∧ part ≠ "" ∧ part ≠ "." ∧ part ≠ ".." := by
    unfold components at member
    simp only [List.mem_append, List.mem_filterMap] at member
    rcases member with (absolute | here) | ⟨part, inParts, gives⟩
    · split at absolute <;> simp at absolute
    · split at here <;> simp at here
    · refine ⟨part, inParts, ?_⟩
      by_cases blank : part = "" ∨ part = "."
      · simp [blank] at gives
      · by_cases parent : part = ".."
        · simp [parent] at gives
        · rw [not_or] at blank
          have same : part = name := by simpa [blank.1, blank.2, parent] using gives
          exact ⟨same, blank.1, blank.2, parent⟩
  obtain ⟨part, inParts, rfl, notEmpty, notHere, notParent⟩ := found
  refine ⟨?_, notEmpty, notHere, notParent⟩
  obtain ⟨characters, inSplit, rfl⟩ := List.mem_map.mp inParts
  rw [String.toList_ofList]
  exact not_mem_of_mem_splitAtEach inSplit

theorem join_injective {directory a b : String} (singleA : '/' ∉ a.toList)
    (singleB : '/' ∉ b.toList) (same : join directory a = join directory b) : a = b := by
  unfold join at same
  rw [head?_of_single singleA, head?_of_single singleB] at same
  simp only [Bool.false_eq_true, if_false] at same
  split at same
  · exact (String.append_right_inj _).mp same
  · exact (String.append_right_inj _).mp same

theorem endsInSlash_join {directory name : String} (given : directory ≠ "") (named : name ≠ "")
    (single : '/' ∉ name.toList) : FileTree.endsInSlash (join directory name) = false := by
  have nonempty : name.toList ≠ [] := by simpa using named
  obtain ⟨above, joined⟩ :
      ∃ above, (join directory name).toList = above ++ '/' :: name.toList := by
    rcases join_of_single given single with ⟨above, -, joined⟩ | joined
    · exact ⟨above, joined⟩
    · exact ⟨directory.toList, joined⟩
  have last : (join directory name).toList.getLast? = name.toList.getLast? := by
    rw [joined, List.append_cons, List.getLast?_append_of_ne_nil _ nonempty]
  rw [FileTree.endsInSlash, last, beq_eq_false_iff_ne]
  intro slash
  exact single (List.mem_of_getLast? slash)

end Path

namespace Output

/-- How the name of a place of a destination ends. -/
def Role.suffix : Role → String
  | own => ""
  | staging => ".tmp"
  | aside => ".bak"

theorem Role.path_eq {d : Destination} {directory name : String} (named : name ≠ "")
    (path : d.path = Path.join directory name) (role : Role) :
    role.path d = Path.join directory (name ++ role.suffix) := by
  cases role with
  | own => rw [Role.path, path, suffix, String.append_empty]
  | staging => rw [Role.path, Destination.staging, path, suffix, Path.join_append _ named]
  | aside => rw [Role.path, backup, path, suffix, Path.join_append _ named]

theorem Role.single_append {name : String} (single : Path.components name = [.normal name])
    (role : Role) :
    '/' ∉ (name ++ role.suffix).toList ∧ name ++ role.suffix ≠ "" ∧ name ++ role.suffix ≠ "." ∧
      name ++ role.suffix ≠ ".." := by
  obtain ⟨noSlash, notEmpty, notHere, notParent⟩ := Path.single_of_components single
  have longer : ∀ ending text : String, text.length < ending.length → name ++ ending ≠ text := by
    intro ending text shorter same
    have lengths := congrArg String.length same
    rw [String.length_append] at lengths
    omega
  cases role with
  | own =>
    rw [suffix, String.append_empty]
    exact ⟨noSlash, notEmpty, notHere, notParent⟩
  | staging =>
    refine ⟨?_, longer _ _ (by decide), longer _ _ (by decide), longer _ _ (by decide)⟩
    simpa [suffix] using noSlash
  | aside =>
    refine ⟨?_, longer _ _ (by decide), longer _ _ (by decide), longer _ _ (by decide)⟩
    simpa [suffix] using noSlash

theorem Role.suffix_apart {names : List String} (separate : Separate names) {a b : String}
    (inNames : a ∈ names) (inNames' : b ∈ names) {role other : Role}
    (same : a ++ role.suffix = b ++ other.suffix) : a = b ∧ role = other := by
  have forward := separate.2.2 a inNames b inNames'
  have backward := separate.2.2 b inNames' a inNames
  have crossed : ∀ x y : String, x ++ ".tmp" ≠ y ++ ".bak" := by
    intro x y equal
    have texts := congrArg String.toList equal
    rw [String.toList_append, String.toList_append] at texts
    have endings := List.append_inj_right' texts (by decide)
    revert endings
    decide
  cases role with
  | own =>
    rw [suffix, String.append_empty] at same
    cases other with
    | own => exact ⟨by rwa [suffix, String.append_empty] at same, rfl⟩
    | staging => exact absurd same forward.1
    | aside => exact absurd same forward.2
  | staging =>
    cases other with
    | own =>
      rw [suffix, suffix, String.append_empty] at same
      exact absurd same.symm backward.1
    | staging => exact ⟨(String.append_left_inj _).mp same, rfl⟩
    | aside => exact absurd same (crossed a b)
  | aside =>
    cases other with
    | own =>
      rw [suffix, suffix, String.append_empty] at same
      exact absurd same.symm backward.2
    | staging => exact absurd same.symm (crossed b a)
    | aside => exact ⟨(String.append_left_inj _).mp same, rfl⟩

section Places

variable {t : FileTree} {directory indexFile : String} {artifacts : List Artifact}

/-- The names of the files that are written. -/
def fileNames (indexFile : String) (artifacts : List Artifact) : List String :=
  artifacts.map (·.fileName) ++ [indexFile]

theorem map_path_destinations (directory indexFile : String) (artifacts : List Artifact) :
    (destinations directory indexFile artifacts).map (·.path) =
      (fileNames indexFile artifacts).map (Path.join directory) := by
  simp [destinations, fileNames]

theorem exists_name {d : Destination} (member : d ∈ destinations directory indexFile artifacts) :
    ∃ name ∈ fileNames indexFile artifacts, d.path = Path.join directory name := by
  have mapped : d.path ∈ (fileNames indexFile artifacts).map (Path.join directory) := by
    rw [← map_path_destinations]
    exact List.mem_map_of_mem member
  obtain ⟨name, inNames, path⟩ := List.mem_map.mp mapped
  exact ⟨name, inNames, path.symm⟩

variable (separate : Separate (fileNames indexFile artifacts))

include separate

theorem nodup_paths : ((destinations directory indexFile artifacts).map (·.path)).Nodup := by
  rw [map_path_destinations]
  apply List.Nodup.map_on _ separate.2.1
  intro a inNames b inNames' same
  exact Path.join_injective (Path.single_of_components (separate.1 a inNames)).1
    (Path.single_of_components (separate.1 b inNames')).1 same

theorem nodup_destinations : (destinations directory indexFile artifacts).Nodup :=
  (nodup_paths separate).of_map _

theorem locate_role {place : List String} (leads : t.locate directory = .ok place)
    (present : t.HasDirectory place) {d : Destination} {name : String}
    (inNames : name ∈ fileNames indexFile artifacts) (path : d.path = Path.join directory name)
    (role : Role) : t.locate (role.path d) = .ok (place ++ [name ++ role.suffix]) := by
  have single := separate.1 name inNames
  have named := (Path.single_of_components single).2.1
  obtain ⟨noSlash, notEmpty, notHere, notParent⟩ := Role.single_append single role
  rw [Role.path_eq named path, FileTree.locate_join t (FileTree.ne_empty_of_locate leads) noSlash,
    leads]
  show t.follow place (name ++ role.suffix) = _
  rw [FileTree.follow_eq_ok_iff]
  exact ⟨present, by simp [notEmpty, notHere, notParent]⟩

theorem locate_lost (given : directory ≠ "") (lost : ¬ t.LeadsToDirectory directory)
    {d : Destination} (member : d ∈ destinations directory indexFile artifacts) (role : Role) :
    ∃ error, t.locate (role.path d) = .error error := by
  obtain ⟨name, inNames, path⟩ := exists_name member
  have single := separate.1 name inNames
  have named := (Path.single_of_components single).2.1
  rw [Role.path_eq named path, FileTree.locate_join t given (Role.single_append single role).1]
  cases leads : t.locate directory with
  | error error => exact ⟨error, rfl⟩
  | ok place =>
    show ∃ error, t.follow place (name ++ role.suffix) = .error error
    cases followed : t.follow place (name ++ role.suffix) with
    | error error => exact ⟨error, rfl⟩
    | ok target =>
      exact absurd ⟨place, leads, (FileTree.follow_eq_ok_iff.mp followed).1⟩ lost

/-- The places of a destination in a tree. -/
def siteIn (t : FileTree) (d : Destination) (role : Role) : List String :=
  (t.locate (role.path d)).toOption.getD []

theorem sites_destinations (leads : t.LeadsToDirectory directory) :
    Sites t (destinations directory indexFile artifacts) (siteIn t) := by
  obtain ⟨place, located, present⟩ := leads
  have atPlace : ∀ d name, name ∈ fileNames indexFile artifacts →
      d.path = Path.join directory name → ∀ role : Role,
        t.locate (role.path d) = .ok (place ++ [name ++ role.suffix]) :=
    fun d name inNames path role => locate_role separate located present inNames path role
  have site : ∀ d name, name ∈ fileNames indexFile artifacts →
      d.path = Path.join directory name → ∀ role : Role,
        siteIn t d role = place ++ [name ++ role.suffix] := by
    intro d name inNames path role
    rw [siteIn, atPlace d name inNames path role]
    rfl
  refine ⟨?_, ?_, ?_⟩
  · intro d member role
    obtain ⟨name, inNames, path⟩ := exists_name member
    rw [atPlace d name inNames path role, site d name inNames path role]
  · intro d member
    obtain ⟨name, inNames, path⟩ := exists_name member
    have single := separate.1 name inNames
    have plain : ∀ role : Role, FileTree.endsInSlash (role.path d) = false := by
      intro role
      obtain ⟨noSlash, notEmpty, -, -⟩ := Role.single_append single role
      rw [Role.path_eq (Path.single_of_components single).2.1 path]
      exact Path.endsInSlash_join (FileTree.ne_empty_of_locate located) notEmpty noSlash
    exact ⟨plain .own, plain .aside⟩
  · intro d member e member' role other same
    obtain ⟨name, inNames, path⟩ := exists_name member
    obtain ⟨name', inNames', path'⟩ := exists_name member'
    rw [site d name inNames path, site e name' inNames' path'] at same
    have texts : name ++ role.suffix = name' ++ other.suffix := by simpa using same
    obtain ⟨sameName, sameRole⟩ := Role.suffix_apart separate inNames inNames' texts
    have samePath : d.path = e.path := by rw [path, path', sameName]
    exact ⟨List.inj_on_of_nodup_map (nodup_paths separate) member member' samePath, sameRole⟩

end Places

end Output

end Forwarding
