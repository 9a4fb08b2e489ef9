import Forwarding.Proofs.Reaching
/-!
Mounting. The module of a file is made of its directories and, unless the file stands for its
directory or for the root, of its stem. Two files below one root are therefore mounted at one module
when one of them is the `mod.rs` in the directory that has the name of the other, when both stand for
the root, and when they differ only in how often their names repeat the extension.
-/

namespace Forwarding

namespace ModulePath

variable {directories directories' : List String} {name name' : String}

/-- Whether a file of some stem is a module of its own in the module of its directories. -/
def addsStem (directories : List String) (stem : String) : Bool :=
  !(stem == "mod" || (directories.isEmpty && (stem == "lib" || stem == "main")))

/-- The stems of the files that stand for the root when they are directly at it. -/
def topStems : List String :=
  ["lib", "main", "mod"]

theorem addsStem_eq_false_iff :
    addsStem directories name = false ↔
      name = "mod" ∨ (directories = [] ∧ name ∈ topStems) := by
  simp [addsStem, topStems]
  tauto

/-- The module of a file of some stem below the root. -/
def ofStem (directories : List String) (stem : String) : List String :=
  directories ++ if addsStem directories stem then [stem] else []

theorem ofFile_eq (base directories : List String) (fileName : String) :
    ofFile base directories fileName = base ++ ofStem directories (stem fileName) := by
  rw [ofFile, ofStem, addsStem, List.append_assoc]
  cases stem fileName == "mod" || (directories.isEmpty &&
    (stem fileName == "lib" || stem fileName == "main")) <;> rfl

/-- Files by their directories and stems that stand for one module. -/
inductive Coincide : List String × String → List String × String → Prop
  | same (file : List String × String) : Coincide file file
  | below {directories : List String} {name : String} (adds : addsStem directories name = true) :
      Coincide (directories, name) (directories ++ [name], "mod")
  | above {directories : List String} {name : String} (adds : addsStem directories name = true) :
      Coincide (directories ++ [name], "mod") (directories, name)
  | tops {name name' : String} (first : name ∈ topStems) (second : name' ∈ topStems) :
      Coincide ([], name) ([], name')

/-- A file that stands for a directory that is not the root is called `mod`. -/
theorem eq_mod_of_append (none : addsStem (directories ++ [name]) name' = false) :
    name' = "mod" := by
  rcases addsStem_eq_false_iff.mp none with same | ⟨empty, -⟩
  · exact same
  · simp at empty

theorem ofStem_eq_iff :
    ofStem directories name = ofStem directories' name' ↔
      Coincide (directories, name) (directories', name') := by
  constructor
  · intro same
    unfold ofStem at same
    cases adds : addsStem directories name <;> cases adds' : addsStem directories' name' <;>
      simp only [adds, adds', if_true, Bool.false_eq_true, if_false, List.append_nil] at same
    · subst same
      rcases addsStem_eq_false_iff.mp adds with rfl | ⟨rfl, first⟩
      · rcases addsStem_eq_false_iff.mp adds' with rfl | ⟨rfl, second⟩
        · exact .same _
        · exact .tops (by decide) second
      · refine .tops first ?_
        rcases addsStem_eq_false_iff.mp adds' with rfl | ⟨-, second⟩
        · decide
        · exact second
    · subst same
      rw [eq_mod_of_append adds]
      exact .above adds'
    · subst same
      rw [eq_mod_of_append adds']
      exact .below adds
    · obtain ⟨rfl, last⟩ := List.append_inj' same rfl
      rw [List.singleton_inj.mp last]
      exact .same _
  · have modAdds (directories : List String) : addsStem directories "mod" = false :=
      addsStem_eq_false_iff.mpr (.inl rfl)
    have topAdds {name : String} (top : name ∈ topStems) : addsStem [] name = false :=
      addsStem_eq_false_iff.mpr (.inr ⟨rfl, top⟩)
    rintro (_ | adds | adds | ⟨first, second⟩)
    · rfl
    · simp [ofStem, adds, modAdds]
    · simp [ofStem, adds, modAdds]
    · simp [ofStem, topAdds first, topAdds second]

theorem stem_append (name : String) : stem (name ++ ".rs") = stem name := by
  rw [stem, String.toList_append, List.reverse_append]
  rfl

/-- A name that does not end in the extension is its own stem. -/
theorem stem_eq_self (none : ∀ front, name ≠ front ++ ".rs") : stem name = name := by
  have kept : withoutExtensions name.toList.reverse = name.toList.reverse := by
    rw [withoutExtensions.eq_def]
    split
    · rename_i rest same
      refine absurd ?_ (none (String.ofList rest.reverse))
      rw [← String.toList_inj, String.toList_append, String.toList_ofList,
        ← List.reverse_inj, same, List.reverse_append, List.reverse_reverse]
      rfl
    · rfl
  rw [stem, kept, List.reverse_reverse, String.ofList_toList]

/-- A name without the extension of source files and the same name with it, once or more often. -/
inductive Extended : String → String → Prop
  | once (name : String) : Extended name (name ++ ".rs")
  | again {name longer : String} (given : Extended name longer) : Extended name (longer ++ ".rs")

theorem Extended.stem_eq {fileName : String} (given : Extended name fileName) :
    stem fileName = stem name := by
  induction given with
  | once => exact stem_append name
  | again _ ih => exact (stem_append _).trans ih

/-- The stem does not end in the extension, and the name is the stem with what has been removed. -/
theorem extended_stem (name : String) :
    (∀ front, stem name ≠ front ++ ".rs") ∧ (stem name = name ∨ Extended (stem name) name) := by
  induction length : name.length using Nat.strongRecOn generalizing name with
  | ind count ih =>
    by_cases ends : ∃ front, name = front ++ ".rs"
    · obtain ⟨front, rfl⟩ := ends
      have shorter : front.length < count := by
        rw [← length, String.length_append]
        exact Nat.lt_add_of_pos_right (by decide)
      obtain ⟨bare, rest⟩ := ih _ shorter front rfl
      rw [stem_append]
      refine ⟨bare, .inr ?_⟩
      rcases rest with same | extended
      · rw [same]
        exact .once front
      · exact .again extended
    · have bare := not_exists.mp ends
      rw [stem_eq_self bare]
      exact ⟨bare, .inl rfl⟩

end ModulePath

namespace Discovery

open ModulePath (stem Coincide Extended)

/-- The directories of a path and the name of its file without the extension. -/
structure IsPlaced (names directories : List String) (name : String) : Prop where
  bare : ∀ front, name ≠ front ++ ".rs"
  path : ∃ fileName, Extended name fileName ∧ names = directories ++ [fileName]

theorem isPlaced_iff {directories directories' : List String} {name stem : String} :
    IsPlaced (directories ++ [name ++ ".rs"]) directories' stem ↔
      directories' = directories ∧ stem = ModulePath.stem name := by
  constructor
  · rintro ⟨bare, fileName, extended, same⟩
    obtain ⟨rfl, last⟩ := List.append_inj' same rfl
    refine ⟨rfl, ?_⟩
    rw [← ModulePath.stem_append, List.singleton_inj.mp last, extended.stem_eq,
      ModulePath.stem_eq_self bare]
  · rintro ⟨rfl, rfl⟩
    obtain ⟨bare, rest⟩ := ModulePath.extended_stem name
    refine ⟨bare, _, ?_, rfl⟩
    rcases rest with same | extended
    · rw [same]
      exact .once name
    · exact .again extended

/-- Whether the name of the file at the end of a path repeats the extension of source files. -/
def Repeats (names : List String) : Prop :=
  ".rs.rs".toList <:+ (names.getLastD "").toList

instance (names : List String) : Decidable (Repeats names) :=
  inferInstanceAs (Decidable (_ <:+ _))

/-- Two paths that share a module in the layout of source files: a file with the `mod.rs` in the
directory of its name, or two of the files that stand for the root. -/
def LaidOutAlike (p q : List String) : Prop :=
  (∃ directories name, (p = directories ++ [name ++ ".rs"] ∧ q = directories ++ [name, "mod.rs"]) ∨
    (q = directories ++ [name ++ ".rs"] ∧ p = directories ++ [name, "mod.rs"])) ∨
  (p ∈ [["lib.rs"], ["main.rs"], ["mod.rs"]] ∧ q ∈ [["lib.rs"], ["main.rs"], ["mod.rs"]])

theorem stem_eq_of_not_repeats {directories : List String} {name : String}
    (once : ¬ Repeats (directories ++ [name ++ ".rs"])) : stem name = name := by
  refine ModulePath.stem_eq_self fun front same => once ⟨front.toList, ?_⟩
  have twice : ".rs.rs" = ".rs" ++ ".rs" := by decide
  rw [List.getLastD_concat, same, twice, String.append_assoc, ← String.toList_append]

/-- The files below a root that are mounted at one module. -/
theorem modulePath_eq_iff {top : String} {base p q : List String} {file other : Mounted}
    (first : mounted? top base p = some file) (second : mounted? top base q = some other) :
    (file.modulePath = other.modulePath ↔
      ∃ directories name directories' name', IsPlaced p directories name ∧
        IsPlaced q directories' name' ∧ Coincide (directories, name) (directories', name')) ∧
    (p ≠ q → ¬ Repeats p → ¬ Repeats q → file.modulePath = other.modulePath →
      LaidOutAlike p q) := by
  obtain ⟨directories, name, named, rfl, rfl⟩ := mounted?_eq_some_iff.mp first
  obtain ⟨directories', name', named', rfl, rfl⟩ := mounted?_eq_some_iff.mp second
  have coincide : ModulePath.ofFile base directories (name ++ ".rs") =
        ModulePath.ofFile base directories' (name' ++ ".rs") ↔
      Coincide (directories, stem name) (directories', stem name') := by
    rw [ModulePath.ofFile_eq, ModulePath.ofFile_eq, List.append_cancel_left_eq,
      ModulePath.ofStem_eq_iff, ModulePath.stem_append, ModulePath.stem_append]
  refine ⟨coincide.trans ?_, fun apart once once' same => ?_⟩
  · simp [isPlaced_iff]
  have met := coincide.mp same
  rw [stem_eq_of_not_repeats once, stem_eq_of_not_repeats once'] at met
  cases met with
  | same => exact absurd rfl apart
  | below adds => exact .inl ⟨directories, name, .inl ⟨rfl, by simp⟩⟩
  | above adds => exact .inl ⟨directories', name', .inr ⟨rfl, by simp⟩⟩
  | tops first second =>
    have listed {name : String} (top : name ∈ ModulePath.topStems) :
        [name ++ ".rs"] ∈ [["lib.rs"], ["main.rs"], ["mod.rs"]] := by
      simp only [ModulePath.topStems, List.mem_cons, List.not_mem_nil, or_false] at top
      rcases top with rfl | rfl | rfl <;> decide
    exact .inr ⟨listed first, listed second⟩

theorem modulePath_eq_directory :
    ∃ file other, mounted? "src" ["crate"] ["a", "b.rs"] = some file ∧
      mounted? "src" ["crate"] ["a", "b", "mod.rs"] = some other ∧
      file.modulePath = other.modulePath ∧
      LaidOutAlike ["a", "b.rs"] ["a", "b", "mod.rs"] := by
  let module : List String := ["crate", "a", "b"]
  have first : mounted? "src" ["crate"] ["a", "b.rs"] = some ⟨"src/a/b.rs", module⟩ := by
    decide +kernel
  have second : mounted? "src" ["crate"] ["a", "b", "mod.rs"] =
      some ⟨"src/a/b/mod.rs", module⟩ := by
    decide +kernel
  exact ⟨_, _, first, second, rfl, (modulePath_eq_iff first second).2 (by decide)
    (by decide +kernel) (by decide +kernel) rfl⟩

/-- A name that repeats the extension leads to the module of the name that does not. -/
theorem modulePath_eq_repeating :
    ∃ file other, mounted? "src" ["crate"] ["a.rs"] = some file ∧
      mounted? "src" ["crate"] ["a.rs.rs"] = some other ∧ ["a.rs"] ≠ ["a.rs.rs"] ∧
      file.modulePath = other.modulePath ∧ ¬ LaidOutAlike ["a.rs"] ["a.rs.rs"] := by
  let module : List String := ["crate", "a"]
  have first : mounted? "src" ["crate"] ["a.rs"] = some ⟨"src/a.rs", module⟩ := by decide +kernel
  have second : mounted? "src" ["crate"] ["a.rs.rs"] = some ⟨"src/a.rs.rs", module⟩ := by
    decide +kernel
  refine ⟨_, _, first, second, by decide, rfl, ?_⟩
  rintro (⟨directories, name, ⟨-, longer⟩ | ⟨-, longer⟩⟩ | ⟨top, -⟩)
  · simpa using congrArg List.length longer
  · simpa using congrArg List.length longer
  · exact absurd top (by decide)

end Discovery

end Forwarding
