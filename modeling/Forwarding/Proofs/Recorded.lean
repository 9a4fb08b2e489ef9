import Forwarding.Proofs.Origin
import Forwarding.Proofs.Ranking
import Forwarding.Proofs.Wording
/-!
What definitions record. A definition that a scan returns records the names of a struct, of the
constructor beside it and of the modules around it. All of them are identifiers of the text; at a
few places a word of the language may stand instead.
-/

namespace Forwarding

namespace Scan

/-- What a definition records of a site and the constructor beside it. -/
structure Site.Records (c : Conventions) (site : Site) (o : Origin) (d : Definition) : Prop where
  name : Grammar.isIdentifierText d.name = true
  origin : site.origin? c = some o
  described : o.Describes d
  typePath : d.typePath = ModulePath.member site.module site.struct.name
  constructor : d.constructor = o.constructor.method.signature.name
  properties : d.properties = site.struct.properties (o.constructor.values site.struct)
  apart : site.module = ["crate"] → unraw site.struct.name ≠ d.name
  free : reservedAccessor? c.constructor d.properties = none

theorem Site.Records.struct_eq {c : Conventions} {site : Site} {o : Origin} {d : Definition}
    (recorded : site.Records c o d) : o.struct = site.struct :=
  (Site.origin?_eq_some recorded.origin).1

theorem isIdentifierText_of_ofAttribute {mark : Attribute} {arguments : Annotation}
    (given : Annotation.ofAttribute mark = .ok arguments) :
    Grammar.isIdentifierText arguments.name = true := by
  unfold Annotation.ofAttribute at given
  split at given
  · cases given
  · cases given
  · obtain ⟨j, read, -⟩ := Grammar.Parser.runAll_eq_ok_iff.mp given
    unfold Annotation.arguments at read
    simp only [Grammar.Parser.reads_bind] at read
    obtain ⟨_, _, -, ⟨name, priority⟩, k, -, read⟩ := read
    split at read
    · exact absurd read Grammar.Parser.reads_fail
    · rename_i name start priority same
      cases same
      rw [Grammar.Parser.reads_ite] at read
      rcases read with ⟨allowed, read⟩ | ⟨-, read⟩
      · rw [Grammar.Parser.reads_pure] at read
        rw [read.2]
        exact allowed
      · exact absurd read Grammar.Parser.reads_failAt

theorem exists_records {c : Conventions} {unit : SourceUnit} {definitions : List Definition}
    {d : Definition} (scanned : scan c unit = .ok definitions) (member : d ∈ definitions) :
    ∃ site ∈ sites unit, ∃ o, site.Records c o d := by
  obtain ⟨site, inside, found⟩ := exists_site scanned member
  obtain ⟨mark, arguments, marked, given, described⟩ := findingsOfStruct_ok found
  obtain ⟨k, names, found, named, listed, required, name, typePath, constructor, properties, apart,
    free, -⟩ := describe_ok described
  rw [← name] at apart
  have origin : site.origin? c = some ⟨site.struct, k, names⟩ := by
    simp only [Site.origin?, marked, found, named]
  exact ⟨site, inside, _, name ▸ isIdentifierText_of_ofAttribute given, origin,
    ⟨named, listed, required⟩, typePath, constructor, properties, apart, free⟩

/-- The names of a site in a module: those of its struct and of the impl blocks beside it, and the
names of the modules between, which are written without the mark of a raw identifier. -/
structure Site.IsNamed (module : List String) (site : Site) : Prop where
  struct : site.struct.IsNamed
  blocks : ∀ block ∈ site.blocks, block.IsNamed
  module : ∃ between : List String, site.module = module ++ between.map unraw ∧
    ∀ name ∈ between, IsIdentifier name ∨ name = "try"

theorem isNamed_of_blocksOf {items : List Item} (named : Item.AreNamed items) :
    ∀ block ∈ blocksOf items, block.IsNamed := by
  intro block member
  obtain ⟨item, declared, same⟩ := List.mem_filterMap.mp member
  have own := Item.areNamed_iff.mp named item declared
  cases item <;> cases same
  exact own

mutual

theorem isNamed_of_sitesOfItem {module : List String} {blocks : List ImplItem} {item : Item}
    (named : item.IsNamed) (beside : ∀ block ∈ blocks, block.IsNamed) :
    ∀ site ∈ sitesOfItem module blocks item, site.IsNamed module := by
  cases item with
  | struct declaration =>
    intro site member
    rw [sitesOfItem, List.mem_singleton] at member
    subst member
    exact ⟨named, beside, [], by simp, by simp⟩
  | module attributes before name content =>
    cases content with
    | none =>
      intro site member
      cases member
    | some items =>
      intro site member
      rw [sitesOfItem] at member
      rw [Item.IsNamed] at named
      obtain ⟨struct, blocks, between, path, each⟩ := isNamed_of_sitesOfItems named.2
        (isNamed_of_blocksOf named.2) site member
      refine ⟨struct, blocks, name :: between, by rw [path]; simp, ?_⟩
      intro other present
      rcases List.mem_cons.mp present with rfl | present
      · exact named.1
      · exact each other present
  | _ =>
    intro site member
    cases member

theorem isNamed_of_sitesOfItems {module : List String} {blocks : List ImplItem} {items : List Item}
    (named : Item.AreNamed items) (beside : ∀ block ∈ blocks, block.IsNamed) :
    ∀ site ∈ sitesOfItems module blocks items, site.IsNamed module := by
  cases items with
  | nil =>
    intro site member
    cases member
  | cons item rest =>
    intro site member
    rw [sitesOfItems] at member
    rcases List.mem_append.mp member with member | member
    · exact isNamed_of_sitesOfItem named.1 beside site member
    · exact isNamed_of_sitesOfItems named.2 beside site member

end

/-- The sites of a unit have names. -/
theorem isNamed_of_sites {unit : SourceUnit} {site : Site} (member : site ∈ sites unit) :
    site.IsNamed unit.modulePath := by
  rw [sites_eq] at member
  cases parsed : Grammar.parseFile unit.text with
  | error error =>
    rw [parsed] at member
    cases member
  | ok items =>
    rw [parsed] at member
    have named := Grammar.areNamed_of_parseFile parsed
    exact isNamed_of_sitesOfItems named (isNamed_of_blocksOf named) site member

theorem exists_unit {c : Conventions} {units : List SourceUnit} {definitions : List Definition}
    {d : Definition} (collected : collect c units = .ok definitions) (member : d ∈ definitions) :
    ∃ unit ∈ units, ∃ found, scan c unit = .ok found ∧ d ∈ found := by
  unfold collect at collected
  dsimp only [bind, Except.bind] at collected
  split at collected
  · cases collected
  rename_i lists scanned
  cases collected
  obtain ⟨found, listed, inside⟩ := List.mem_flatten.mp member
  obtain ⟨unit, given, same⟩ := exists_of_mem_right ((mapM_eq_ok_iff _ _ _).mp scanned) listed
  exact ⟨unit, given, found, same, inside⟩

end Scan

namespace Plan

/-- Every definition of a resolved chain is one of those that were resolved, and it has the name of
the group. -/
theorem mem_of_mem_chain {definitions : List Definition} {resolutions : List Resolution}
    (resolved : resolve definitions = .ok resolutions) {r : Resolution} (member : r ∈ resolutions)
    {d : Definition} (inside : d ∈ r.chain) : d ∈ definitions ∧ d.name = r.name := by
  obtain ⟨rfl, -, -⟩ := (resolve_eq_ok_iff definitions resolutions).mp resolved
  obtain ⟨g, grouped, rfl⟩ := List.mem_map.mp member
  have listed := (Resolution.chain_rank_perm g).mem_iff.mp inside
  rw [Group.members_eq_filter grouped, List.mem_filter] at listed
  exact ⟨listed.1, of_decide_eq_true listed.2⟩

/-- Every definition of a resolved chain records a site of one of the units. -/
theorem exists_records {c : Conventions} {units : List SourceUnit} {definitions : List Definition}
    {resolutions : List Resolution} (collected : Scan.collect c units = .ok definitions)
    (resolved : resolve definitions = .ok resolutions) {r : Resolution} (member : r ∈ resolutions)
    {d : Definition} (inside : d ∈ r.chain) :
    ∃ unit ∈ units, ∃ site ∈ Scan.sites unit, ∃ o, Scan.Site.Records c site o d ∧
      site.IsNamed unit.modulePath ∧ d.name = r.name := by
  obtain ⟨listed, named⟩ := mem_of_mem_chain resolved member inside
  obtain ⟨unit, given, found, scanned, present⟩ := Scan.exists_unit collected listed
  obtain ⟨site, stands, o, recorded⟩ := Scan.exists_records scanned present
  exact ⟨unit, given, site, stands, o, recorded, Scan.isNamed_of_sites stands, named⟩

end Plan

end Forwarding
