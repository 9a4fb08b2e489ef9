import Forwarding.Config
import Forwarding.Proofs.ArtifactNames
/-!
The index among the artifacts. Artifacts whose names are spelled as identifiers go to different
paths, so the only destinations that can meet are the index and the artifact whose file has its
name. Nothing relates the two names.
-/

namespace Forwarding

theorem Path.getLast?_components_join (directory : String) {name : String}
    (single : components name = [.normal name]) :
    (components (join directory name)).getLast? = some (.normal name) := by
  obtain ⟨noSlash, notEmpty, notHere, notParent⟩ := single_of_components single
  by_cases given : directory = ""
  · have own : join directory name = name := by
      simp [join, given, head?_of_single noSlash]
    rw [own, single]
    rfl
  · have joined : ∃ above, (join directory name).toList = above ++ '/' :: name.toList := by
      rcases join_of_single given noSlash with ⟨above, -, joined⟩ | joined
      · exact ⟨above, joined⟩
      · exact ⟨directory.toList, joined⟩
    obtain ⟨above, joined⟩ := joined
    have split : parts (join directory name) =
        (splitAtEach '/' above).map String.ofList ++ [name] := by
      rw [parts, joined, splitAtEach_append, splitAtEach_of_not_mem noSlash, List.map_append,
        List.map_singleton, String.ofList_toList]
    unfold components
    dsimp only
    rw [split, List.filterMap_append, ← List.append_assoc]
    simp [notEmpty, notHere, notParent]

/-- Names of single files lead to different paths. -/
theorem Path.components_join_injective {directory a b : String}
    (singleA : components a = [.normal a]) (singleB : components b = [.normal b])
    (same : components (join directory a) = components (join directory b)) : a = b := by
  have last := getLast?_components_join directory singleA
  rw [same, getLast?_components_join directory singleB] at last
  cases last
  rfl

namespace Output

theorem nodup_components {directory indexFile : String} {artifacts : List Artifact}
    (named : (artifacts.map (·.name)).Nodup)
    (files : ∀ a ∈ artifacts, a.fileName = a.name ++ ".rs" ∧
      Path.components (a.name ++ ".rs") = [.normal (a.name ++ ".rs")]) :
    ((destinations directory indexFile artifacts).map fun d => Path.components d.path).Nodup ↔
      ∀ a ∈ artifacts, Path.components (Path.join directory indexFile) ≠
        Path.components (Path.join directory (a.name ++ ".rs")) := by
  have paths : (destinations directory indexFile artifacts).map (fun d => Path.components d.path) =
      artifacts.map (fun a => Path.components (Path.join directory (a.name ++ ".rs"))) ++
        [Path.components (Path.join directory indexFile)] := by
    have twice : (destinations directory indexFile artifacts).map
          (fun d => Path.components d.path) =
        ((destinations directory indexFile artifacts).map (·.path)).map Path.components := by
      rw [List.map_map]
      rfl
    rw [twice, map_path_destinations, fileNames, List.map_append, List.map_append, List.map_map,
      List.map_map]
    congr 1
    exact List.map_congr_left fun a member => by
      show Path.components (Path.join directory a.fileName) = _
      rw [(files a member).1]
  have apart : (artifacts.map fun a =>
      Path.components (Path.join directory (a.name ++ ".rs"))).Nodup := by
    have inNames := List.Nodup.map_on (f := fun name =>
      Path.components (Path.join directory (name ++ ".rs"))) ?_ named
    · rwa [List.map_map] at inNames
    · intro x xs y ys same
      obtain ⟨a, member, rfl⟩ := List.mem_map.mp xs
      obtain ⟨b, member', rfl⟩ := List.mem_map.mp ys
      exact (String.append_left_inj _).mp
        (Path.components_join_injective (files a member).2 (files b member').2 same)
  rw [paths, ← List.concat_eq_append, List.nodup_concat, and_iff_left apart]
  simp only [List.mem_map, not_exists, not_and]
  exact forall₂_congr fun a _ => ne_comm

/-- The destinations of a plan whose names are spelled as identifiers meet only where the index
has the path of an artifact. -/
theorem destinations_distinct_iff {config : Config} {units : List SourceUnit} {p : Plan}
    (planned : Plan.ofUnits config.conventions units = .ok p)
    (spelled : ∀ a ∈ p.artifacts, identifierOf? a.name = some a.name) :
    (((destinations config.outDir config.indexFile p.artifacts).map
        fun d => Path.components d.path).Nodup ↔
      ∀ a ∈ p.artifacts, Path.components (Path.join config.outDir config.indexFile) ≠
        Path.components (Path.join config.outDir (a.name ++ ".rs"))) ∧
    (Path.components config.indexFile = [.normal config.indexFile] →
      (((destinations config.outDir config.indexFile p.artifacts).map
          fun d => Path.components d.path).Nodup ↔
        ∀ a ∈ p.artifacts, config.indexFile ≠ a.name ++ ".rs")) := by
  have files : ∀ a ∈ p.artifacts, a.fileName = a.name ++ ".rs" ∧
      Path.components (a.name ++ ".rs") = [.normal (a.name ++ ".rs")] := by
    intro a member
    have parsed := identifierOf?_eq_some_iff.mp (spelled a member)
    exact ⟨(Plan.declared?_artifact planned member).1,
      Path.components_fileName (Grammar.isName_of_parseText_identifier parsed)⟩
  have distinct := @nodup_components config.outDir config.indexFile _
    (Plan.nodup_name_artifacts planned) files
  refine ⟨distinct, fun single => distinct.trans (forall₂_congr fun a member => ?_)⟩
  refine not_congr ⟨?_, fun same => by rw [same]⟩
  exact Path.components_join_injective single (files a member).2

theorem destinations_distinct_pair :
    ∃ p, Plan.ofUnits ({ outDir := "out" } : Config).conventions [Plan.pair "A" "B"] = .ok p ∧
      ((destinations "out" "variant_merge.rs" p.artifacts).map
        fun d => Path.components d.path).Nodup := by
  let config : Config := { outDir := "out" }
  obtain ⟨p, planned, named, -⟩ := Plan.exists_planned_pair
  have planned : Plan.ofUnits config.conventions [Plan.pair "A" "B"] = .ok p := planned
  have spelled : ∀ a ∈ p.artifacts, identifierOf? a.name = some a.name := by
    have each : ∀ name ∈ ["A", "B"], identifierOf? name = some name := by decide +kernel
    exact fun a member => each _ (named ▸ List.mem_map_of_mem member)
  have apart : ∀ a ∈ p.artifacts, config.indexFile ≠ a.name ++ ".rs" := by
    have each : ∀ name ∈ ["A", "B"], config.indexFile ≠ name ++ ".rs" := by decide +kernel
    exact fun a member => each _ (named ▸ List.mem_map_of_mem member)
  exact ⟨p, planned,
    ((destinations_distinct_iff planned spelled).2 (by decide +kernel)).mpr apart⟩

/-- A group of the name of the index has the path of the index. -/
theorem destinations_meet :
    ∃ p, Plan.ofUnits ({ outDir := "out" } : Config).conventions
        [Plan.pair "A" "variant_merge"] = .ok p ∧
      (destinations "out" ({ outDir := "out" } : Config).indexFile p.artifacts).map (·.path) =
        ["out/A.rs", "out/variant_merge.rs", "out/variant_merge.rs"] := by
  have computed : (Plan.ofUnits {} [Plan.pair "A" "variant_merge"]).toOption.map
      (·.artifacts.map (·.name)) = some ["A", "variant_merge"] := by
    rw [Plan.ofUnits_of_hasChars (Plan.pair "A" "variant_merge") (by repeat constructor)]
    decide +kernel
  obtain ⟨p, planned, named⟩ := Plan.exists_planned computed
  have files : p.artifacts.map (·.fileName) = ["A.rs", "variant_merge.rs"] := by
    have firsts := congrArg (List.map Prod.fst) (Plan.files_of_names planned)
    rw [named, List.map_map] at firsts
    exact firsts
  refine ⟨p, planned, ?_⟩
  rw [map_path_destinations, fileNames, files]
  decide +kernel

end Output

end Forwarding
