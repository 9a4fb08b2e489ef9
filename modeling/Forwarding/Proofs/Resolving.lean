import Forwarding.Proofs.Destinations
import Mathlib.Data.List.Induction
/-!
Components and places. A path leads to the place that its components spell, if it leads anywhere, so
two texts of the same path lead to the same place. The converse fails for two dots and for a single
dot at the beginning. In a proper tree the files below a directory are where their names lead to.
-/

namespace Forwarding

/-- The place that a component leads to from a place. -/
def PathComponent.resolve (place : List String) : PathComponent → List String
  | root => []
  | current => place
  | parent => place.dropLast
  | normal name => place ++ [name]

namespace Path

/-- The component that a part of a path is, if it counts. -/
def component? (part : String) : Option PathComponent :=
  if part = "" || part = "." then none
  else if part = ".." then some .parent
  else some (.normal part)

/-- The single dot at the beginning of a path that is not absolute. -/
def start (path : String) : List PathComponent :=
  if !(path.toList.head? == some '/') && (parts path).head? == some "." then [.current] else []

theorem components_eq (path : String) :
    components path = (if path.toList.head? == some '/' then [.root] else []) ++ start path ++
      (parts path).filterMap component? := rfl

theorem components_of_relative {path : String} (relative : path.toList.head? ≠ some '/') :
    components path = start path ++ (parts path).filterMap component? := by
  have notAbsolute : (path.toList.head? == some '/') = false := by
    simpa using relative
  rw [components_eq, notAbsolute]
  rfl

theorem component?_of_single {name : String} (single : components name = [.normal name]) :
    component? name = some (.normal name) := by
  obtain ⟨-, notEmpty, notHere, notParent⟩ := single_of_components single
  simp [component?, notEmpty, notHere, notParent]

theorem head?_join {directory name : String} (given : directory ≠ "") (single : '/' ∉ name.toList) :
    (join directory name).toList.head? = directory.toList.head? := by
  have nonempty : directory.toList ≠ [] := by
    simpa using given
  rcases join_of_single given single with ⟨above, ends, joined⟩ | joined
  · rw [joined, ends]
    cases above <;> rfl
  · rw [joined, List.head?_append_of_ne_nil _ nonempty]

/-- A name below a directory is one more part, after the parts of the directory or in the place of
the empty part behind its last slash. -/
theorem parts_join {directory name : String} (given : directory ≠ "")
    (single : '/' ∉ name.toList) :
    ∃ above, above ≠ [] ∧ (parts directory = above ∨ parts directory = above ++ [""]) ∧
      parts (join directory name) = above ++ [name] := by
  have named : (splitAtEach '/' name.toList).map String.ofList = [name] := by
    rw [splitAtEach_of_not_mem single]
    simp
  have someParts (l : List Char) : (splitAtEach '/' l).map String.ofList ≠ [] := by
    simpa using splitAtEach_ne_nil l
  unfold parts
  rcases join_of_single given single with ⟨above, ends, joined⟩ | joined
  · refine ⟨_, someParts above, .inr ?_, ?_⟩
    · rw [ends, splitAtEach_append, List.map_append]
      rfl
    · rw [joined, splitAtEach_append, List.map_append, named]
  · refine ⟨_, someParts directory.toList, .inl rfl, ?_⟩
    rw [joined, splitAtEach_append, List.map_append, named]

/-- A name below a directory is one more component. -/
theorem components_join {directory name : String} (given : directory ≠ "")
    (single : components name = [.normal name]) :
    components (join directory name) = components directory ++ [.normal name] := by
  have noSlash := (single_of_components single).1
  obtain ⟨above, some, own, joined⟩ := parts_join given noSlash
  have sameStart : (parts (join directory name)).head? = (parts directory).head? ∧
      (parts directory).filterMap component? = above.filterMap component? := by
    rw [joined, List.head?_append_of_ne_nil _ some]
    rcases own with own | own
    · rw [own]
      exact ⟨rfl, rfl⟩
    · rw [own, List.head?_append_of_ne_nil _ some, List.filterMap_append]
      exact ⟨rfl, List.append_nil _⟩
  rw [components_eq, components_eq, start, start, head?_join given noSlash, sameStart.1, sameStart.2,
    joined, List.filterMap_append, List.filterMap_cons_some (component?_of_single single)]
  simp

/-- Names below a directory are as many components more. -/
theorem components_foldl_join {directory : String} {names : List String} (given : directory ≠ "")
    (single : ∀ name ∈ names, components name = [.normal name]) :
    components (names.foldl join directory) = components directory ++ names.map .normal := by
  induction names generalizing directory with
  | nil => simp
  | cons name rest ih =>
    have own := single name List.mem_cons_self
    have joined : components (join directory name) ≠ [] := by
      rw [components_join given own]
      simp
    have given' : join directory name ≠ "" := by
      intro empty
      rw [empty] at joined
      exact joined rfl
    rw [List.foldl_cons, ih given' fun other member => single other (List.mem_cons_of_mem _ member),
      components_join given own]
    simp

end Path

namespace FileTree

variable {t : FileTree} {path : String} {place : List String}

theorem walk_resolves {parts : List String} {target : List String}
    (leads : parts.foldlM t.follow place = .ok target) :
    target = (parts.filterMap Path.component?).foldl PathComponent.resolve place := by
  induction parts generalizing place with
  | nil => exact (Except.ok.inj leads).symm
  | cons part rest ih =>
    rw [List.foldlM_cons] at leads
    cases first : t.follow place part with
    | error error =>
      rw [first] at leads
      cases leads
    | ok next =>
      rw [first] at leads
      rw [ih leads, (follow_eq_ok_iff.mp first).2, List.filterMap_cons, Path.component?]
      by_cases blank : part = "" ∨ part = "."
      · simp [blank]
      · by_cases parent : part = ".." <;> simp [blank, parent, PathComponent.resolve]

theorem eq_of_locate (leads : t.locate path = .ok place) :
    place = (Path.components path).foldl PathComponent.resolve [] := by
  obtain ⟨-, relative, walked⟩ := locate_eq_ok_iff.mp leads
  rw [walk_resolves walked, Path.components_of_relative relative, List.foldl_append]
  have stays : (Path.start path).foldl PathComponent.resolve [] = [] := by
    unfold Path.start
    split <;> rfl
  rw [stays]

theorem foldl_resolve_of_normal {components : List PathComponent}
    (names : ∀ component ∈ components, ∃ name, component = .normal name) :
    (components.foldl PathComponent.resolve place).map .normal = place.map .normal ++ components := by
  induction components generalizing place with
  | nil => simp
  | cons component rest ih =>
    obtain ⟨name, rfl⟩ := names component List.mem_cons_self
    rw [List.foldl_cons, ih fun other member => names other (List.mem_cons_of_mem _ member)]
    simp [PathComponent.resolve]

/-- Without two dots a path spells the place that it leads to. -/
theorem components_of_locate (leads : t.locate path = .ok place)
    (down : .parent ∉ Path.components path) :
    Path.components path = Path.start path ++ place.map .normal := by
  obtain ⟨-, relative, walked⟩ := locate_eq_ok_iff.mp leads
  have spelled := Path.components_of_relative relative
  have names : ∀ component ∈ (Path.parts path).filterMap Path.component?,
      ∃ name, component = .normal name := by
    intro component member
    obtain ⟨part, -, counts⟩ := List.mem_filterMap.mp member
    unfold Path.component? at counts
    split at counts
    · cases counts
    split at counts
    · cases counts
      exact absurd (spelled ▸ List.mem_append_right _ member) down
    · exact ⟨part, (Option.some.inj counts).symm⟩
  have reached : place.map .normal =
      ([] : List String).map .normal ++ (Path.parts path).filterMap Path.component? := by
    rw [walk_resolves walked]
    exact foldl_resolve_of_normal names
  rw [spelled, reached]
  rfl

/-- A tree as file systems have them: names are single components, everything is in a directory,
and nothing stands twice. -/
structure IsProper (t : FileTree) : Prop where
  single : ∀ entry ∈ t.entries, ∀ name ∈ entry.1, Path.components name = [.normal name]
  above : ∀ entry ∈ t.entries, t.HasDirectory entry.1.dropLast
  held : ∀ entry ∈ t.entries, t.get? entry.1 = some entry.2

instance (t : FileTree) (place : List String) : Decidable (t.HasDirectory place) :=
  inferInstanceAs (Decidable (_ = _))

instance (t : FileTree) : Decidable t.IsProper :=
  decidable_of_iff
    ((∀ entry ∈ t.entries, ∀ name ∈ entry.1, Path.components name = [.normal name]) ∧
      (∀ entry ∈ t.entries, t.HasDirectory entry.1.dropLast) ∧
      ∀ entry ∈ t.entries, t.get? entry.1 = some entry.2)
    ⟨fun ⟨single, above, held⟩ => ⟨single, above, held⟩,
      fun proper => ⟨proper.single, proper.above, proper.held⟩⟩

theorem IsProper.hasDirectory_of_above (proper : t.IsProper) {rest : List String} {entry : Entry}
    (member : (place ++ rest, entry) ∈ t.entries) (below : rest ≠ []) : t.HasDirectory place := by
  induction rest using List.reverseRecOn generalizing entry with
  | nil => exact absurd rfl below
  | append_singleton rest last ih =>
    have present := proper.above _ member
    rw [← List.append_assoc, List.dropLast_concat] at present
    by_cases direct : rest = []
    · rwa [direct, List.append_nil] at present
    · have named : place ++ rest ≠ [] := by simp [direct]
      rw [HasDirectory, get?, if_neg named] at present
      obtain ⟨before, after, all, -⟩ := List.lookup_eq_some_iff.mp present
      exact ih (all ▸ List.mem_append_right before List.mem_cons_self) direct

/-- The names of an entry below a directory lead to it. -/
theorem IsProper.locate_foldl_join (proper : t.IsProper) {names : List String} {entry : Entry}
    (leads : t.locate path = .ok place) (member : (place ++ names, entry) ∈ t.entries) :
    t.locate (names.foldl Path.join path) = .ok (place ++ names) := by
  induction names generalizing path place with
  | nil => rwa [List.append_nil]
  | cons name rest ih =>
    have single := Path.single_of_components
      (proper.single _ member name (List.mem_append_right _ List.mem_cons_self))
    have next : t.locate (Path.join path name) = .ok (place ++ [name]) := by
      rw [locate_join t (ne_empty_of_locate leads) single.1, leads]
      refine follow_eq_ok_iff.mpr ⟨proper.hasDirectory_of_above member (by simp), ?_⟩
      simp [single.2]
    rw [List.append_cons] at member ⊢
    exact ih next member

variable {names : List String} {bytes : ByteArray}

theorem IsProper.mem_entries_iff (proper : t.IsProper) :
    (place, .file bytes) ∈ t.entries ↔ t.bytes? place = some bytes := by
  rw [bytes?_eq_some_iff]
  constructor
  · exact proper.held _
  · intro held
    unfold get? at held
    split at held
    · cases held
    · obtain ⟨before, after, all, -⟩ := List.lookup_eq_some_iff.mp held
      exact all ▸ List.mem_append_right before List.mem_cons_self

theorem IsProper.mem_filesBelow_iff (proper : t.IsProper) :
    names ∈ t.filesBelow place ↔ ∃ bytes, t.bytes? (place ++ names) = some bytes := by
  simp only [← proper.mem_entries_iff]
  unfold filesBelow
  constructor
  · intro below
    obtain ⟨⟨other, entry⟩, member, given⟩ := List.mem_filterMap.mp below
    cases entry with
    | directory => cases given
    | file bytes =>
      dsimp only at given
      split at given
      · rename_i inside
        obtain ⟨rest, rfl⟩ := List.isPrefixOf_iff_prefix.mp inside
        rw [List.drop_left, Option.some.injEq] at given
        exact ⟨bytes, given ▸ member⟩
      · cases given
  · rintro ⟨bytes, member⟩
    refine List.mem_filterMap.mpr ⟨_, member, ?_⟩
    have inside : place.isPrefixOf (place ++ names) = true :=
      List.isPrefixOf_iff_prefix.mpr (List.prefix_append place names)
    dsimp only
    rw [if_pos inside, List.drop_left]

theorem IsProper.read_foldl_join (proper : t.IsProper) (leads : t.locate path = .ok place)
    (held : t.bytes? (place ++ names) = some bytes) :
    t.read (names.foldl Path.join path) = .ok bytes :=
  (read_eq_ok_iff (proper.locate_foldl_join leads (proper.mem_entries_iff.mpr held))).mpr held

theorem IsProper.components_foldl_join (proper : t.IsProper) (leads : t.locate path = .ok place)
    (held : t.bytes? (place ++ names) = some bytes) :
    Path.components (names.foldl Path.join path) =
      Path.components path ++ names.map .normal :=
  Path.components_foldl_join (ne_empty_of_locate leads) fun name inside =>
    proper.single _ (proper.mem_entries_iff.mpr held) name (List.mem_append_right _ inside)

end FileTree

end Forwarding
