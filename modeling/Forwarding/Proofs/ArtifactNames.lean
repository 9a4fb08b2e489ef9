import Forwarding.Proofs.Characters
import Forwarding.Proofs.Declared
import Forwarding.Proofs.Destinations
import Forwarding.Proofs.Ranking
/-!
Names of artifacts. Every artifact has a name of its own and declares the identifier that its name
reads as. The two are the same text unless blanks or comments surround the identifier. Artifacts
whose names are bare identifiers declare different ones, and each is a single file of the output
directory.
-/

namespace Forwarding

/-- The identifier that a text reads as. -/
def identifierOf? (text : String) : Option String :=
  (Grammar.parseText (fun _ => Grammar.Parser.identifier) text).toOption

/-- A name that is the identifier it reads as, and carries no mark of a raw identifier. -/
def IsBare (name : String) : Prop :=
  identifierOf? name = some name ∧ unraw name = name

instance (name : String) : Decidable (IsBare name) :=
  inferInstanceAs (Decidable (_ ∧ _))

theorem identifierOf?_eq_some_iff {text name : String} :
    identifierOf? text = some name ↔
      Grammar.parseText (fun _ => Grammar.Parser.identifier) text = .ok name := by
  unfold identifierOf?
  cases Grammar.parseText (fun _ => Grammar.Parser.identifier) text <;> simp [Except.toOption]

theorem Path.components_eq_single {name : String} (noSlash : '/' ∉ name.toList)
    (notEmpty : name ≠ "") (notHere : name ≠ ".") (notParent : name ≠ "..") :
    components name = [.normal name] := by
  have parts : Path.parts name = [name] := by
    rw [Path.parts, splitAtEach_of_not_mem noSlash, List.map_singleton, String.ofList_toList]
  have relative : (name.toList.head? == some '/') = false := by
    rw [beq_eq_false_iff_ne]
    intro first
    exact noSlash (List.mem_of_head? first)
  simp [components, parts, relative, notEmpty, notHere, notParent]

theorem Path.components_fileName {name : String} (named : Lexer.IsName name) :
    components (name ++ ".rs") = [.normal (name ++ ".rs")] := by
  have longer : ∀ text : String, text.length < 3 → name ++ ".rs" ≠ text := by
    rintro text shorter rfl
    rw [String.length_append] at shorter
    have ending : ".rs".length = 3 := by decide
    omega
  refine components_eq_single ?_ (longer _ (by decide)) (longer _ (by decide))
    (longer _ (by decide))
  rw [String.toList_append, List.mem_append, not_or]
  exact ⟨named.not_mem (by decide) (by decide) (by decide), by decide⟩

namespace Plan

theorem ofUnits_ok {c : Conventions} {units : List SourceUnit} {p : Plan}
    (planned : ofUnits c units = .ok p) :
    ∃ definitions, Scan.collect c units = .ok definitions ∧
      resolve definitions = .ok p.resolutions ∧
        List.Forall₂ (fun r a => Artifact.ofResolution r = .ok a) p.resolutions p.artifacts := by
  unfold ofUnits at planned
  dsimp only [bind, Except.bind] at planned
  split at planned
  · cases planned
  rename_i definitions collected
  split at planned
  · cases planned
  rename_i resolutions resolved
  split at planned
  · cases planned
  rename_i artifacts made
  cases planned
  exact ⟨definitions, collected, resolved, (mapM_eq_ok_iff _ _ _).mp made⟩

theorem nodup_names {definitions : List Definition} {resolutions : List Resolution}
    (resolved : resolve definitions = .ok resolutions) : (resolutions.map (·.name)).Nodup := by
  obtain ⟨rfl, -, -⟩ := (resolve_eq_ok_iff definitions resolutions).mp resolved
  rw [List.map_map]
  have ordered : ((Group.partition definitions).map (·.name)).Pairwise (· < ·) :=
    List.pairwise_map.mpr (Group.partition_ordered definitions)
  exact ordered.imp fun {a b} below same => by
    rw [same] at below
    exact String.lt_irrefl _ below

theorem map_name_artifacts {resolutions : List Resolution} {artifacts : List Artifact}
    (made : List.Forall₂ (fun r a => Artifact.ofResolution r = .ok a) resolutions artifacts) :
    artifacts.map (·.name) = resolutions.map (·.name) := by
  induction made with
  | nil => rfl
  | cons first _ ih =>
    rw [List.map_cons, List.map_cons, ih, (Artifact.declared?_ofResolution first).1]

theorem nodup_name_artifacts {c : Conventions} {units : List SourceUnit} {p : Plan}
    (planned : ofUnits c units = .ok p) : (p.artifacts.map (·.name)).Nodup := by
  obtain ⟨definitions, -, resolved, made⟩ := ofUnits_ok planned
  rw [map_name_artifacts made]
  exact nodup_names resolved

theorem declared?_artifact {c : Conventions} {units : List SourceUnit} {p : Plan}
    (planned : ofUnits c units = .ok p) {a : Artifact} (member : a ∈ p.artifacts) :
    a.fileName = a.name ++ ".rs" ∧ (∃ name, identifierOf? a.name = some name) ∧
      a.declared? = identifierOf? a.name := by
  obtain ⟨definitions, -, -, made⟩ := ofUnits_ok planned
  obtain ⟨r, -, given⟩ := exists_of_mem_right made member
  obtain ⟨same, file, name, declared, parsed⟩ := Artifact.declared?_ofResolution given
  rw [same, declared, identifierOf?_eq_some_iff.mpr parsed]
  exact ⟨file, ⟨name, rfl⟩, rfl⟩

/-- Artifacts have different names and declare the identifiers that the names read as. -/
theorem artifacts_declare {c : Conventions} {units : List SourceUnit} {p : Plan}
    (planned : ofUnits c units = .ok p) :
    (p.artifacts.map (·.name)).Nodup ∧
      (∀ a ∈ p.artifacts, ∃ name, a.declared? = some name ∧ identifierOf? a.name = some name ∧
        (a.fileName = name ++ ".rs" ↔ a.name = name) ∧
          (a.name = name → Path.components a.fileName = [.normal a.fileName])) ∧
      ((∀ a ∈ p.artifacts, IsBare a.name) →
        (p.artifacts.map fun a => a.declared?.map unraw).Nodup) := by
  have different := nodup_name_artifacts planned
  refine ⟨different, ?_, ?_⟩
  · intro a member
    obtain ⟨file, ⟨name, read⟩, declared⟩ := declared?_artifact planned member
    refine ⟨name, declared.trans read, read, ?_, ?_⟩
    · rw [file]
      exact String.append_left_inj _
    · intro same
      rw [file, same]
      exact Path.components_fileName
        (Grammar.isName_of_parseText_identifier (identifierOf?_eq_some_iff.mp read))
  · intro bare
    have same : p.artifacts.map (fun a => a.declared?.map unraw) =
        (p.artifacts.map (·.name)).map some := by
      rw [List.map_map]
      refine List.map_congr_left fun a member => ?_
      rw [(declared?_artifact planned member).2.2, (bare a member).1, Option.map_some,
        (bare a member).2]
      rfl
    rw [same]
    exact different.map (Option.some_injective _)

theorem files_of_names {c : Conventions} {units : List SourceUnit} {p : Plan}
    (planned : ofUnits c units = .ok p) :
    p.artifacts.map (fun a => (a.fileName, a.declared?)) =
      (p.artifacts.map (·.name)).map fun name => (name ++ ".rs", identifierOf? name) := by
  rw [List.map_map]
  refine List.map_congr_left fun a member => ?_
  obtain ⟨file, -, declared⟩ := declared?_artifact planned member
  rw [file, declared]
  rfl

theorem exists_planned {c : Conventions} {units : List SourceUnit} {β : Type} {f : Plan → β}
    {value : β} (computed : (ofUnits c units).toOption.map f = some value) :
    ∃ p, ofUnits c units = .ok p ∧ f p = value := by
  obtain ⟨p, present, same⟩ := Option.map_eq_some_iff.mp computed
  cases planned : ofUnits c units with
  | error failure =>
    rw [planned] at present
    cases present
  | ok q =>
    rw [planned] at present
    exact ⟨q, rfl, Option.some.inj present ▸ same⟩

/-- A unit with two structs under two names. -/
def pair (first second : String) : SourceUnit :=
  ⟨"src/lib.rs", ["crate"],
    "#[variant_merge(name=\"" ++ first ++ "\")]pub struct X\x7bpub a:u8\x7d" ++
      "impl X\x7bpub fn new(a:u8)->Self\x7bX\x7ba\x7d\x7d\x7d" ++
    "#[variant_merge(name=\"" ++ second ++ "\")]pub struct Y\x7bpub a:u8\x7d" ++
      "impl Y\x7bpub fn new(a:u8)->Self\x7bY\x7ba\x7d\x7d\x7d"⟩

/-- The plan for two structs under the names `A` and `B`. -/
theorem exists_planned_pair :
    ∃ p, ofUnits {} [pair "A" "B"] = .ok p ∧ p.artifacts.map (·.name) = ["A", "B"] ∧
      p.resolutions.map (fun r => (r.name, r.chain.map (·.typePath))) =
        [("A", ["crate::X"]), ("B", ["crate::Y"])] := by
  have computed : (ofUnits {} [pair "A" "B"]).toOption.map (fun p =>
      (p.artifacts.map (·.name), p.resolutions.map fun r => (r.name, r.chain.map (·.typePath)))) =
      some (["A", "B"], [("A", ["crate::X"]), ("B", ["crate::Y"])]) := by
    rw [ofUnits_of_hasChars (pair "A" "B") (by repeat constructor)]
    decide +kernel
  obtain ⟨p, planned, same⟩ := exists_planned computed
  exact ⟨p, planned, Prod.mk.inj same⟩

theorem artifacts_declare_pair :
    ∃ p, ofUnits {} [pair "A" "B"] = .ok p ∧ (∀ a ∈ p.artifacts, IsBare a.name) ∧
      (p.artifacts.map fun a => a.declared?.map unraw).Nodup := by
  obtain ⟨p, planned, named, -⟩ := exists_planned_pair
  have bare : ∀ name ∈ ["A", "B"], IsBare name := by decide +kernel
  have each : ∀ a ∈ p.artifacts, IsBare a.name :=
    fun a member => bare _ (named ▸ List.mem_map_of_mem member)
  exact ⟨p, planned, each, (artifacts_declare planned).2.2 each⟩

/-- Blanks around a name are no part of the identifier but make another group and another file. -/
theorem artifacts_declare_twice :
    ∃ p, ofUnits {} [pair " A " "A"] = .ok p ∧
      p.artifacts.map (fun a => (a.fileName, a.declared?)) =
        [(" A .rs", some "A"), ("A.rs", some "A")] := by
  have computed : (ofUnits {} [pair " A " "A"]).toOption.map (·.artifacts.map (·.name)) =
      some [" A ", "A"] := by
    rw [ofUnits_of_hasChars (pair " A " "A") (by repeat constructor)]
    decide +kernel
  obtain ⟨p, planned, named⟩ := exists_planned computed
  have read : identifierOf? " A " = some "A" ∧ identifierOf? "A" = some "A" := by decide +kernel
  refine ⟨p, planned, ?_⟩
  rw [files_of_names planned, named]
  simp only [List.map_cons, List.map_nil, read]
  rfl

end Plan

end Forwarding
