import Forwarding.Proofs.Location
import Forwarding.Proofs.Misplacement
import Forwarding.Proofs.Standing
/-!
The definitions of a unit. When a scan succeeds, the definitions it returns are those of the structs
that carry the mark, one for each of them and in the order of the text, wherever the structs stand.
-/

namespace Forwarding

/-- The line and the column of a location. -/
def Location.position (location : Location) : Position :=
  ⟨location.line, location.column⟩

namespace Scan

variable {c : Conventions} {unit : SourceUnit} {site : Site}

/-- A struct among some declarations or in the inline modules among them: with the names of the
modules around it, outermost first, and the declarations beside it. -/
inductive Stands : List Item → List String → List Item → StructItem → Prop
  | here {items : List Item} {struct : StructItem} (member : .struct struct ∈ items) :
    Stands items [] items struct
  | inside {items content beside : List Item} {attributes : List Attribute} {before : List Tree}
      {name : String} {modules : List String} {struct : StructItem}
      (member : .module attributes before name (some content) ∈ items)
      (within : Stands content modules beside struct) :
    Stands items (unraw name :: modules) beside struct

/-- A site among the declarations of a module. -/
def Site.StandsIn (site : Site) (module : List String) (items : List Item) : Prop :=
  ∃ modules beside, site = ⟨module ++ modules, blocksOf beside, site.struct⟩ ∧
    Stands items modules beside site.struct

theorem mem_sitesOfItems {module : List String} {blocks : List ImplItem} {items : List Item} :
    site ∈ sitesOfItems module blocks items ↔
      ∃ item ∈ items, site ∈ sitesOfItem module blocks item := by
  induction items with
  | nil => simp [sitesOfItems]
  | cons item rest ih => simp [sitesOfItems, ih]

mutual

theorem standsIn_of_mem_item {module : List String} {items : List Item} {item : Item}
    (member : site ∈ sitesOfItem module (blocksOf items) item) (inside : item ∈ items) :
    site.StandsIn module items := by
  cases item with
  | struct struct =>
    obtain rfl := List.mem_singleton.mp member
    exact ⟨[], items, by rw [List.append_nil], .here inside⟩
  | implementation block => cases member
  | other kind attributes tree => cases member
  | module attributes before name content =>
    cases content with
    | none => cases member
    | some content =>
      rw [sitesOfItem] at member
      obtain ⟨modules, beside, same, stands⟩ :=
        standsIn_of_mem_items member fun item member => member
      exact ⟨unraw name :: modules, beside, by rw [same]; simp, .inside inside stands⟩

theorem standsIn_of_mem_items {module : List String} {items rest : List Item}
    (member : site ∈ sitesOfItems module (blocksOf items) rest)
    (inside : ∀ item ∈ rest, item ∈ items) : site.StandsIn module items := by
  cases rest with
  | nil => cases member
  | cons item more =>
    rw [sitesOfItems] at member
    rcases List.mem_append.mp member with member | member
    · exact standsIn_of_mem_item member (inside item List.mem_cons_self)
    · exact standsIn_of_mem_items member fun other member =>
        inside other (List.mem_cons_of_mem item member)

end

theorem mem_of_stands {module modules : List String} {items beside : List Item} {struct : StructItem}
    (stands : Stands items modules beside struct) :
    ⟨module ++ modules, blocksOf beside, struct⟩ ∈ sitesOfItems module (blocksOf items) items := by
  induction stands generalizing module with
  | here member =>
    rw [List.append_nil]
    exact mem_sitesOfItems.mpr ⟨_, member, List.mem_singleton_self _⟩
  | @inside items content beside attributes before name modules struct member within ih =>
    refine mem_sitesOfItems.mpr ⟨_, member, ?_⟩
    rw [List.append_cons]
    exact ih

theorem mem_sitesOfItems_iff {module : List String} {items : List Item} :
    site ∈ sitesOfItems module (blocksOf items) items ↔ site.StandsIn module items := by
  constructor
  · intro member
    exact standsIn_of_mem_items member fun item member => member
  · rintro ⟨modules, beside, same, stands⟩
    rw [same]
    exact mem_of_stands stands

/-- What is found of a struct where it stands. -/
def Site.findings (c : Conventions) (unit : SourceUnit) (site : Site) : List Finding :=
  findingsOfStruct c unit site.module site.blocks site.struct

/-- Whether the struct of a site carries the mark. -/
def Site.isMarked (c : Conventions) (site : Site) : Bool :=
  site.struct.attributes.any c.marks

theorem failureFound_eq_nil {found : Option Failure}
    (none : ∀ failure, .error failure ∉ failureFound found) : failureFound found = [] := by
  cases found with
  | none => rfl
  | some failure => exact absurd (List.mem_singleton_self _) (none failure)

mutual

theorem findingsOfItem_eq {module : List String} {blocks : List ImplItem} {item : Item}
    (none : ∀ failure, .error failure ∉ findingsOfItem c unit module blocks item) :
    findingsOfItem c unit module blocks item =
      (sitesOfItem module blocks item).flatMap (Site.findings c unit) := by
  cases item with
  | struct struct =>
    rw [findingsOfItem]
    exact (List.append_nil _).symm
  | implementation block =>
    rw [findingsOfItem] at none ⊢
    exact failureFound_eq_nil none
  | other kind attributes tree =>
    rw [findingsOfItem.eq_def] at none ⊢
    dsimp only at none ⊢
    split at none
    · exact failureFound_eq_nil none
    · rfl
  | module attributes before name content =>
    rw [findingsOfItem.eq_def] at none ⊢
    dsimp only at none ⊢
    split at none
    · exact absurd (List.mem_singleton_self _) (none _)
    · cases content with
      | none => rfl
      | some items => exact findingsOfItems_eq none

theorem findingsOfItems_eq {module : List String} {blocks : List ImplItem} {items : List Item}
    (none : ∀ failure, .error failure ∉ findingsOfItems c unit module blocks items) :
    findingsOfItems c unit module blocks items =
      (sitesOfItems module blocks items).flatMap (Site.findings c unit) := by
  cases items with
  | nil => rfl
  | cons item rest =>
    rw [findingsOfItems] at none ⊢
    rw [sitesOfItems, List.flatMap_append,
      findingsOfItem_eq fun failure member => none failure (List.mem_append_left _ member),
      findingsOfItems_eq fun failure member => none failure (List.mem_append_right _ member)]

end

/-- A definition is what is found of a struct where it stands. -/
structure Site.Defines (c : Conventions) (unit : SourceUnit) (site : Site) (d : Definition) :
    Prop where
  found : site.findings c unit = [.ok d]
  typePath : d.typePath = ModulePath.member site.module site.struct.name
  location : d.location = unit.location site.struct.nameStart

theorem Site.defines_of_found {d : Definition} (found : site.findings c unit = [.ok d]) :
    site.Defines c unit d := by
  have member : .ok d ∈ site.findings c unit := found ▸ List.mem_singleton_self _
  obtain ⟨mark, arguments, -, -, described⟩ := findingsOfStruct_ok member
  obtain ⟨-, -, -, -, -, -, -, typePath, -, -, -, -, location⟩ := describe_ok described
  exact ⟨found, typePath, location⟩

theorem Site.Defines.position {d : Definition} (defined : site.Defines c unit d) :
    d.location.position = site.struct.nameStart := by
  rw [defined.location]
  rfl

/-- A struct that carries the mark gives one finding, and another one gives none. -/
theorem Site.findings_eq (c : Conventions) (unit : SourceUnit) (site : Site) :
    (site.isMarked c = true ∧ ∃ finding, site.findings c unit = [finding]) ∨
      (site.isMarked c = false ∧ site.findings c unit = []) := by
  cases marked : site.isMarked c with
  | false =>
    refine .inr ⟨rfl, findingsOfStruct_unmarked (fun a member marks => ?_) _ _⟩
    rw [isMarked, List.any_eq_false] at marked
    exact marked a member marks
  | true =>
    refine .inl ⟨rfl, ?_⟩
    obtain ⟨mark, member, marks⟩ := List.any_eq_true.mp marked
    have filled := List.mem_filter.mpr ⟨member, marks⟩
    unfold findings findingsOfStruct
    generalize site.struct.attributes.filter c.marks = kept at filled ⊢
    rcases kept with _ | ⟨first, _ | ⟨second, more⟩⟩
    · cases filled
    · exact ⟨_, rfl⟩
    · exact ⟨_, rfl⟩

theorem defines_of_findings {sites : List Site} {definitions : List Definition}
    (found : sites.flatMap (Site.findings c unit) = definitions.map .ok) :
    List.Forall₂ (Site.Defines c unit) (sites.filter (Site.isMarked c)) definitions := by
  induction sites generalizing definitions with
  | nil =>
    obtain rfl := List.map_eq_nil_iff.mp found.symm
    exact .nil
  | cons site rest ih =>
    rw [List.flatMap_cons] at found
    rcases site.findings_eq c unit with ⟨marked, finding, own⟩ | ⟨unmarked, own⟩
    · rw [List.filter_cons_of_pos marked]
      rw [own, List.singleton_append] at found
      cases definitions with
      | nil => cases found
      | cons d more =>
        obtain ⟨rfl, others⟩ := List.cons.inj found
        exact .cons (Site.defines_of_found own) (ih others)
    · rw [List.filter_cons_of_neg (by simp [unmarked])]
      rw [own, List.nil_append] at found
      exact ih found

theorem findings_eq_of_scan {definitions : List Definition}
    (scanned : scan c unit = .ok definitions) : findings c unit = definitions.map .ok := by
  have related := (mapM_eq_ok_iff id _ definitions).mp scanned
  have same := map_eq_map_of_forall₂ (f := Except.ok) (g := id) (related.imp fun _ _ own => own.symm)
  rw [same, List.map_id]

theorem file_of_scan {definitions : List Definition} {d : Definition}
    (scanned : scan c unit = .ok definitions) (member : d ∈ definitions) :
    d.location.file = unit.path := by
  obtain ⟨site, -, found⟩ := exists_site scanned member
  obtain ⟨mark, arguments, -, -, described⟩ := findingsOfStruct_ok found
  obtain ⟨-, -, -, -, -, -, -, -, -, -, -, -, location⟩ := describe_ok described
  rw [location]
  rfl

/-- The definitions of a unit are those of the structs that carry the mark, one for each of them and in
the order of the text. Their places are strictly increasing, and no other file has one of them. -/
theorem scan_enumerates {definitions : List Definition} (scanned : scan c unit = .ok definitions) :
    ∃ items sites, Grammar.parseFile unit.text = .ok items ∧
      (∀ site, site ∈ sites ↔ site.StandsIn unit.modulePath items ∧ site.isMarked c = true) ∧
      List.Forall₂ (Site.Defines c unit) sites definitions ∧
      (sites.map (·.struct.nameStart)).Pairwise (· < ·) ∧
      (definitions.map (·.location.position)).Pairwise (· < ·) ∧
      ∀ c' other others, scan c' other = .ok others → Path.same unit.path other.path = false →
        ∀ d ∈ definitions, ∀ d' ∈ others, ¬ d.location.Same d'.location := by
  have found := findings_eq_of_scan scanned
  cases parsed : Grammar.parseFile unit.text with
  | error failure =>
    rw [findings_eq, parsed, findingsOfRead] at found
    cases definitions <;> cases found
  | ok items =>
    rw [findings_of_parseFile parsed] at found
    have listed : findingsOfItems c unit unit.modulePath (blocksOf items) items =
        (sitesOfItems unit.modulePath (blocksOf items) items).flatMap (Site.findings c unit) := by
      refine findingsOfItems_eq fun failure member => ?_
      rw [found] at member
      obtain ⟨d, -, same⟩ := List.mem_map.mp member
      cases same
    have defined := defines_of_findings (listed.symm.trans found)
    have ordered := (sites_advance parsed unit.modulePath (blocksOf items)).sublist
      ((List.filter_sublist (p := Site.isMarked c)).map _)
    have positions := map_eq_map_of_forall₂ (defined.imp fun _ _ own => own.position)
    refine ⟨items, _, rfl, fun site => ?_, defined, ordered, positions ▸ ordered, ?_⟩
    · rw [List.mem_filter, mem_sitesOfItems_iff]
    · intro c' other others scanned' apart d member d' member' same
      have both := same.1
      rw [file_of_scan scanned member, file_of_scan scanned' member', apart] at both
      cases both

/-- A file with a struct at its top and another one in a module with a raw name, over several
lines. -/
def layered (path : String) : SourceUnit :=
  ⟨path, ["crate"],
    "#!/usr/bin/env run\n/*\n*/#[variant_merge(name=\"G\")]pub struct A;" ++
      "impl A\x7bpub fn new()->A\x7bA\x7d\x7d\n" ++
      "mod r#in\x7bpub struct C;#[x::variant_merge(name=\"G\",priority=1)]\npub struct B;" ++
      "impl B\x7bpub fn new()->Self\x7bB\x7d\x7d\x7d"⟩

theorem scan_enumerates_layered :
    ∃ definitions others, scan {} (layered "src/a.rs") = .ok definitions ∧
      scan {} (layered "src/b.rs") = .ok others ∧
      definitions.map (·.typePath) = ["crate::A", "crate::in::B"] ∧
      (definitions.map (·.location.position)).Pairwise (· < ·) ∧
      ∀ d ∈ definitions, ∀ d' ∈ others, ¬ d.location.Same d'.location := by
  have computed : (scan {} (layered "src/a.rs")).toOption.map (·.map (·.typePath)) =
      some ["crate::A", "crate::in::B"] ∧
      (scan {} (layered "src/b.rs")).toOption.map (·.length) = some 2 := by
    rw [scan_of_hasChars (layered "src/a.rs") (by repeat constructor),
      scan_of_hasChars (layered "src/b.rs") (by repeat constructor)]
    decide +kernel
  obtain ⟨computed, computed'⟩ := computed
  obtain ⟨definitions, scanned, listed⟩ := exists_scanned computed
  obtain ⟨others, scanned', -⟩ := exists_scanned computed'
  obtain ⟨items, sites, -, -, -, -, advancing, apart⟩ := scan_enumerates scanned
  exact ⟨definitions, others, scanned, scanned', listed, advancing,
    apart _ _ _ scanned' (by decide +kernel)⟩

end Scan

end Forwarding
