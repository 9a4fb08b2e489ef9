import Forwarding.Proofs.ArtifactNames
import Forwarding.Proofs.Recorded
/-!
Forwarding types beside the structs of the crate root. A struct of the crate root may not have the
name that its own group is given, so that the forwarding type of the group does not meet it there.
Nothing relates the struct to the names of other groups.
-/

namespace Forwarding

/-- The parts before and after the last of a character are determined. -/
theorem append_cons_inj_of_not_mem_right {α : Type} {a : α} {front front' back back' : List α}
    (last : a ∉ back) (last' : a ∉ back') :
    front ++ a :: back = front' ++ a :: back' ↔ front = front' ∧ back = back' := by
  refine ⟨fun same => ?_, by rintro ⟨rfl, rfl⟩; rfl⟩
  rcases List.append_eq_append_iff.mp same with ⟨between, rfl, rest⟩ | ⟨between, rfl, rest⟩
  · cases between with
    | nil => exact ⟨by simp, (List.cons.inj rest).2⟩
    | cons b between =>
      refine absurd ?_ last
      rw [(List.cons.inj rest).2]
      simp
  · cases between with
    | nil => exact ⟨by simp, (List.cons.inj rest).2.symm⟩
    | cons b between =>
      refine absurd ?_ last'
      rw [(List.cons.inj rest).2]
      simp

namespace ModulePath

theorem render_eq_crate_iff {module : List String} :
    render module = "crate" ↔ module = ["crate"] := by
  refine ⟨fun same => ?_, by rintro rfl; rfl⟩
  match module with
  | [] => exact absurd same (by decide)
  | [name] => rw [← same]; simp [render]
  | name :: next :: rest =>
    have colon : ':' ∈ (render (name :: next :: rest)).toList := by
      rw [render, String.toList_intercalate]
      simp [List.intercalate]
    rw [same] at colon
    exact absurd colon (by decide)

/-- The path of a declaration tells its module and its name apart at the last colons. -/
theorem member_eq_root_iff {module : List String} {name struct : String}
    (named : Lexer.IsName name) (declared : Lexer.IsName struct) :
    member module name = member ["crate"] struct ↔ module = ["crate"] ∧ name = struct := by
  have noColon := named.not_mem (c := ':') (by decide) (by decide) (by decide)
  have noColon' := declared.not_mem (c := ':') (by decide) (by decide) (by decide)
  refine ⟨fun same => ?_, by rintro ⟨rfl, rfl⟩; rfl⟩
  have root : (member ["crate"] struct).toList = "crate:".toList ++ ':' :: struct.toList := by
    simp [member, render]
  have chars := congrArg String.toList same
  rw [root, member] at chars
  split at chars
  · refine absurd ?_ noColon
    rw [chars]
    simp
  · have split : (render module ++ "::" ++ name).toList =
        (render module ++ ":").toList ++ ':' :: name.toList := by simp
    rw [split, append_cons_inj_of_not_mem_right noColon noColon'] at chars
    obtain ⟨path, own⟩ := chars
    have path : render module = "crate" :=
      (String.append_left_inj ":").mp (String.toList_inj.mp path)
    exact ⟨render_eq_crate_iff.mp path, String.toList_inj.mp own⟩

end ModulePath

namespace Plan

/-- An artifact declares no struct of the crate root that stands in the chain of its own group, if
the name of the group is a bare identifier. -/
theorem artifacts_apart_from_chain {c : Conventions} {units : List SourceUnit} {p : Plan}
    (planned : ofUnits c units = .ok p) {a : Artifact} (made : a ∈ p.artifacts)
    (bare : IsBare a.name) {r : Resolution} (resolved : r ∈ p.resolutions) (own : r.name = a.name)
    {d : Definition} (inside : d ∈ r.chain) {struct : String} (declared : Lexer.IsName struct)
    (root : d.typePath = ModulePath.member ["crate"] struct) :
    a.declared?.map unraw ≠ some (unraw struct) := by
  obtain ⟨definitions, collected, found, -⟩ := ofUnits_ok planned
  obtain ⟨unit, -, site, -, o, recorded, named, group⟩ :=
    exists_records collected found resolved inside
  rw [recorded.typePath, ModulePath.member_eq_root_iff named.struct.name.1 declared] at root
  obtain ⟨module, rfl⟩ := root
  rw [(declared?_artifact planned made).2.2, bare.1, Option.map_some, bare.2]
  intro same
  refine recorded.apart module ?_
  rw [group, own]
  exact (Option.some.inj same).symm

theorem artifacts_apart_from_chain_pair :
    ∃ p, ofUnits {} [pair "A" "B"] = .ok p ∧ ∃ a ∈ p.artifacts, ∃ r ∈ p.resolutions,
      ∃ d ∈ r.chain, IsBare a.name ∧ r.name = a.name ∧
        d.typePath = ModulePath.member ["crate"] "X" ∧
          a.declared?.map unraw ≠ some (unraw "X") := by
  obtain ⟨p, planned, names, chains⟩ := exists_planned_pair
  obtain ⟨a, made, named⟩ := List.mem_map.mp (names ▸ List.mem_cons_self : "A" ∈ _)
  obtain ⟨r, resolved, own⟩ := List.mem_map.mp
    (chains ▸ List.mem_cons_self : ("A", ["crate::X"]) ∈ _)
  obtain ⟨group, paths⟩ := Prod.mk.inj own
  obtain ⟨d, inside, path⟩ := List.mem_map.mp (paths ▸ List.mem_cons_self : "crate::X" ∈ _)
  have bare : IsBare a.name := by
    rw [named]
    decide +kernel
  have root : d.typePath = ModulePath.member ["crate"] "X" := by
    rw [path]
    decide +kernel
  have same : r.name = a.name := group.trans named.symm
  exact ⟨p, planned, a, made, r, resolved, d, inside, bare, same, root,
    artifacts_apart_from_chain planned made bare resolved same inside (by decide +kernel) root⟩

/-- Two structs of the crate root may each have the name of the group of the other. -/
theorem artifacts_meet_other_chain :
    ∃ p, ofUnits {} [pair "Y" "X"] = .ok p ∧
      p.artifacts.map (·.declared?) = [some "X", some "Y"] ∧
        p.resolutions.map (fun r => (r.name, r.chain.map (·.typePath))) =
          [("X", ["crate::Y"]), ("Y", ["crate::X"])] := by
  have computed : (ofUnits {} [pair "Y" "X"]).toOption.map (fun p =>
      (p.artifacts.map (·.name), p.resolutions.map fun r => (r.name, r.chain.map (·.typePath)))) =
      some (["X", "Y"], [("X", ["crate::Y"]), ("Y", ["crate::X"])]) := by
    rw [ofUnits_of_hasChars (pair "Y" "X") (by repeat constructor)]
    decide +kernel
  obtain ⟨p, planned, same⟩ := exists_planned computed
  obtain ⟨names, chains⟩ := Prod.mk.inj same
  have read : identifierOf? "X" = some "X" ∧ identifierOf? "Y" = some "Y" := by decide +kernel
  refine ⟨p, planned, ?_, chains⟩
  have declared := congrArg (List.map Prod.snd) (files_of_names planned)
  rw [names, List.map_map] at declared
  refine declared.trans ?_
  simp only [List.map_cons, List.map_nil, read]

end Plan

end Forwarding
