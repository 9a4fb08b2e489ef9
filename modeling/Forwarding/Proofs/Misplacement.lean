import Forwarding.Expansion
import Forwarding.Proofs.Characters
import Forwarding.Proofs.Traversal
/-!
Misplaced attributes. Where no struct carries the merge attribute, a unit is scanned without failure
exactly when no declaration of a kind that has a name in messages carries it, at the top or in inline
modules at any depth; the failure is the one for which an expansion stops the build there.
-/

namespace Forwarding

namespace Item

/-- Whether a declaration is a struct. -/
def isStruct : Item → Bool
  | struct _ => true
  | _ => false

/-- The attributes of a declaration. -/
def attributes : Item → List Attribute
  | struct declaration => declaration.attributes
  | implementation block => block.attributes
  | module attributes _ _ _ => attributes
  | other _ attributes _ => attributes

/-- How a misplaced attribute's declaration is called. A struct may carry the attribute, and some
declarations have no name. -/
def phrase? : Item → Option String
  | struct _ => none
  | implementation _ => some "an impl block"
  | module .. => some "a module"
  | other kind _ _ => kind.phrase?

mutual

/-- A declaration with all those in it, when it is an inline module. -/
def withInner : Item → List Item
  | module attributes before name (some items) =>
    module attributes before name (some items) :: allOf items
  | item => [item]

/-- Some declarations and those of the inline modules among them, at any depth. -/
def allOf : List Item → List Item
  | [] => []
  | item :: rest => item.withInner ++ allOf rest

end

variable {c : Conventions}

/-- Whether a declaration that has a name in messages and is no struct carries the attribute. -/
def IsMisplaced (c : Conventions) (item : Item) : Prop :=
  item.phrase?.isSome ∧ ∃ mark ∈ item.attributes, c.marks mark = true

instance (c : Conventions) (item : Item) : Decidable (item.IsMisplaced c) :=
  inferInstanceAs (Decidable (_ ∧ _))

end Item

namespace Expansion

/-- An expansion refuses whatever is no struct, and calls it by its name if it has one. -/
theorem defect?_of_not_struct (mark : String) {item : Item} (other : item.isStruct = false) :
    defect? mark item =
      some (.notAStruct mark (item.phrase?.getD "an unsupported item")) := by
  cases item with
  | struct declaration => cases other
  | implementation block => rfl
  | module attributes before name content => rfl
  | other kind attributes tree => rfl

end Expansion

namespace Scan

variable {c : Conventions} {unit : SourceUnit}

/-- A failure of an attribute on a declaration: it is at the attribute, and for the same defect an
expansion there stops the build. -/
def FailsFor (c : Conventions) (unit : SourceUnit) (item : Item) (failure : Failure) : Prop :=
  ∃ mark ∈ item.attributes, c.marks mark = true ∧ ∃ defect,
    Expansion.defect? c.mark item = some defect ∧
      failure = .scan (unit.location mark.start) defect

theorem misplaced?_eq_none_iff {attributes : List Attribute} {phrase : String} :
    misplaced? c unit attributes phrase = none ↔ ∀ a ∈ attributes, c.marks a ≠ true := by
  rw [misplaced?, Option.map_eq_none_iff, List.find?_eq_none]

theorem misplaced?_eq_some {attributes : List Attribute} {phrase : String} {failure : Failure}
    (found : misplaced? c unit attributes phrase = some failure) :
    ∃ mark ∈ attributes, c.marks mark = true ∧
      failure = .scan (unit.location mark.start) (.notAStruct c.mark phrase) := by
  obtain ⟨mark, first, rfl⟩ := Option.map_eq_some_iff.mp found
  exact ⟨mark, List.mem_of_find?_eq_some first, List.find?_some first, rfl⟩

theorem exists_misplaced? {attributes : List Attribute} (phrase : String)
    (marked : ∃ mark ∈ attributes, c.marks mark = true) :
    ∃ failure, misplaced? c unit attributes phrase = some failure := by
  rw [← Option.isSome_iff_exists, Option.isSome_iff_ne_none, ne_eq, misplaced?_eq_none_iff]
  obtain ⟨mark, member, marks⟩ := marked
  exact fun none => none mark member marks

/-- A misplaced attribute is all that is found of a declaration with a name in messages. -/
theorem findingsOfItem_of_misplaced? {item : Item} {phrase : String} {failure : Failure}
    (called : item.phrase? = some phrase)
    (found : misplaced? c unit item.attributes phrase = some failure) (module : List String)
    (blocks : List ImplItem) :
    findingsOfItem c unit module blocks item = [.error failure] := by
  rw [findingsOfItem.eq_def]
  cases item with
  | struct declaration => cases called
  | implementation block =>
    cases called
    exact congrArg failureFound found
  | module attributes before name content =>
    cases called
    change misplaced? c unit attributes "a module" = some failure at found
    dsimp only
    rw [found]
  | other kind attributes tree =>
    change kind.phrase? = some phrase at called
    dsimp only
    rw [called]
    exact congrArg failureFound found

theorem exists_error_of_isMisplaced {item : Item} (misplaced : item.IsMisplaced c)
    (module : List String) (blocks : List ImplItem) :
    ∃ failure, .error failure ∈ findingsOfItem c unit module blocks item := by
  obtain ⟨named, marked⟩ := misplaced
  obtain ⟨phrase, called⟩ := Option.isSome_iff_exists.mp named
  obtain ⟨failure, found⟩ := exists_misplaced? phrase marked
  rw [findingsOfItem_of_misplaced? called found]
  exact ⟨failure, List.mem_singleton_self _⟩

mutual

theorem exists_error_of_mem_withInner {item inner : Item} (member : inner ∈ item.withInner)
    (misplaced : inner.IsMisplaced c) (module : List String) (blocks : List ImplItem) :
    ∃ failure, .error failure ∈ findingsOfItem c unit module blocks item := by
  cases item with
  | struct declaration =>
    rw [List.mem_singleton.mp member] at misplaced
    exact exists_error_of_isMisplaced misplaced module blocks
  | implementation block =>
    rw [List.mem_singleton.mp member] at misplaced
    exact exists_error_of_isMisplaced misplaced module blocks
  | other kind attributes tree =>
    rw [List.mem_singleton.mp member] at misplaced
    exact exists_error_of_isMisplaced misplaced module blocks
  | module attributes before name content =>
    cases content with
    | none =>
      rw [List.mem_singleton.mp member] at misplaced
      exact exists_error_of_isMisplaced misplaced module blocks
    | some items =>
      rw [Item.withInner] at member
      rcases List.mem_cons.mp member with rfl | below
      · exact exists_error_of_isMisplaced misplaced module blocks
      · obtain ⟨failure, found⟩ := exists_error_of_mem_allOf below misplaced
          (module ++ [unraw name]) (blocksOf items)
        rw [findingsOfItem.eq_def]
        dsimp only
        -- a mark of the module itself hides what is found in it and is a failure as well
        split
        · exact ⟨_, List.mem_singleton_self _⟩
        · exact ⟨failure, found⟩

theorem exists_error_of_mem_allOf {items : List Item} {inner : Item}
    (member : inner ∈ Item.allOf items) (misplaced : inner.IsMisplaced c) (module : List String)
    (blocks : List ImplItem) :
    ∃ failure, .error failure ∈ findingsOfItems c unit module blocks items := by
  cases items with
  | nil => cases member
  | cons item rest =>
    rw [findingsOfItems]
    rw [Item.allOf] at member
    rcases List.mem_append.mp member with here | later
    · obtain ⟨failure, found⟩ := exists_error_of_mem_withInner here misplaced module blocks
      exact ⟨failure, List.mem_append_left _ found⟩
    · obtain ⟨failure, found⟩ := exists_error_of_mem_allOf later misplaced module blocks
      exact ⟨failure, List.mem_append_right _ found⟩

end

/-- A failure for one of some declarations. -/
def FailsWithin (c : Conventions) (unit : SourceUnit) (items : List Item) (failure : Failure) :
    Prop :=
  ∃ item ∈ items, item.IsMisplaced c ∧ FailsFor c unit item failure

theorem FailsWithin.mono {items others : List Item} {failure : Failure}
    (fails : FailsWithin c unit items failure) (included : items ⊆ others) :
    FailsWithin c unit others failure := by
  obtain ⟨item, member, misplaced⟩ := fails
  exact ⟨item, included member, misplaced⟩

theorem failsWithin_of_misplaced? {item : Item} {phrase : String} {failure : Failure}
    (called : item.phrase? = some phrase)
    (found : misplaced? c unit item.attributes phrase = some failure) :
    FailsWithin c unit [item] failure := by
  obtain ⟨mark, member, marks, same⟩ := misplaced?_eq_some found
  have other : item.isStruct = false := by cases item <;> first | rfl | cases called
  refine ⟨item, List.mem_singleton_self _,
    ⟨Option.isSome_of_eq_some called, mark, member, marks⟩, mark, member, marks, _,
    Expansion.defect?_of_not_struct c.mark other, ?_⟩
  rw [called]
  exact same

theorem failsWithin_of_mem_failureFound {item : Item} {phrase : String} {finding : Finding}
    (called : item.phrase? = some phrase)
    (member : finding ∈ failureFound (misplaced? c unit item.attributes phrase)) :
    ∃ failure, finding = .error failure ∧ FailsWithin c unit [item] failure := by
  cases found : misplaced? c unit item.attributes phrase with
  | none =>
    rw [found] at member
    cases member
  | some failure =>
    rw [found] at member
    exact ⟨failure, List.mem_singleton.mp member, failsWithin_of_misplaced? called found⟩

theorem findingsOfStruct_unmarked {struct : StructItem}
    (unmarked : ∀ a ∈ struct.attributes, c.marks a ≠ true) (module : List String)
    (blocks : List ImplItem) : findingsOfStruct c unit module blocks struct = [] := by
  have none : struct.attributes.filter c.marks = [] :=
    List.filter_eq_nil_iff.mpr unmarked
  rw [findingsOfStruct, none]

/-- Among some declarations no struct carries the attribute. -/
def StructsUnmarked (c : Conventions) (items : List Item) : Prop :=
  ∀ struct, .struct struct ∈ items → ∀ a ∈ struct.attributes, c.marks a ≠ true

mutual

theorem failsWithin_of_mem_findingsOfItem {item : Item}
    (unmarked : StructsUnmarked c item.withInner) {module : List String} {blocks : List ImplItem}
    {finding : Finding} (member : finding ∈ findingsOfItem c unit module blocks item) :
    ∃ failure, finding = .error failure ∧ FailsWithin c unit item.withInner failure := by
  cases item with
  | struct declaration =>
    rw [findingsOfItem,
      findingsOfStruct_unmarked (unmarked declaration (List.mem_singleton_self _))] at member
    cases member
  | implementation block =>
    rw [findingsOfItem] at member
    have called : (Item.implementation block).phrase? = some "an impl block" := rfl
    exact failsWithin_of_mem_failureFound called member
  | other kind attributes tree =>
    rw [findingsOfItem.eq_def] at member
    dsimp only at member
    split at member
    · rename_i phrase called
      have called : (Item.other kind attributes tree).phrase? = some phrase := called
      exact failsWithin_of_mem_failureFound called member
    · cases member
  | module attributes before name content =>
    rw [findingsOfItem.eq_def] at member
    dsimp only at member
    split at member
    · rename_i failure found
      have called : (Item.module attributes before name content).phrase? = some "a module" := rfl
      obtain ⟨item, single, misplaced⟩ := failsWithin_of_misplaced? called found
      refine ⟨failure, List.mem_singleton.mp member, item, ?_, misplaced⟩
      rw [List.mem_singleton.mp single]
      cases content <;> exact List.mem_cons_self
    · cases content with
      | none => cases member
      | some items =>
        rw [Item.withInner] at unmarked ⊢
        obtain ⟨failure, same, fails⟩ := failsWithin_of_mem_findingsOfItems
          (fun struct inside => unmarked struct (List.mem_cons_of_mem _ inside)) member
        exact ⟨failure, same, fails.mono (List.subset_cons_self _ _)⟩

theorem failsWithin_of_mem_findingsOfItems {items : List Item}
    (unmarked : StructsUnmarked c (Item.allOf items)) {module : List String}
    {blocks : List ImplItem} {finding : Finding}
    (member : finding ∈ findingsOfItems c unit module blocks items) :
    ∃ failure, finding = .error failure ∧ FailsWithin c unit (Item.allOf items) failure := by
  cases items with
  | nil =>
    rw [findingsOfItems] at member
    cases member
  | cons item rest =>
    rw [findingsOfItems] at member
    rw [Item.allOf] at unmarked ⊢
    rcases List.mem_append.mp member with here | later
    · obtain ⟨failure, same, fails⟩ := failsWithin_of_mem_findingsOfItem
        (fun struct inside => unmarked struct (List.mem_append_left _ inside)) here
      exact ⟨failure, same, fails.mono (List.subset_append_left _ _)⟩
    · obtain ⟨failure, same, fails⟩ := failsWithin_of_mem_findingsOfItems
        (fun struct inside => unmarked struct (List.mem_append_right _ inside)) later
      exact ⟨failure, same, fails.mono (List.subset_append_right _ _)⟩

end

theorem findings_of_parseFile {items : List Item}
    (parsed : Grammar.parseFile unit.text = .ok items) :
    findings c unit = findingsOfItems c unit unit.modulePath (blocksOf items) items := by
  rw [findings_eq, parsed, findingsOfRead]

theorem exists_failure_of_mem_findings {failure : Failure}
    (member : .error failure ∈ findings c unit) : ∃ first, scan c unit = .error first := by
  cases scanned : scan c unit with
  | error first => exact ⟨first, rfl⟩
  | ok definitions =>
    obtain ⟨d, same⟩ := (mapM_isOk_iff id _).mp ⟨definitions, scanned⟩ _ member
    cases same

/-- The attribute is not ignored on a declaration that has a name in messages and is no struct: an
expansion refuses it and the scan fails. Where no struct carries the attribute, the scan fails for
nothing else, and for the same defect as the expansion. -/
theorem scan_misplaced {items : List Item} (parsed : Grammar.parseFile unit.text = .ok items) :
    (∀ item ∈ Item.allOf items, item.IsMisplaced c →
      (∃ defect, Expansion.defect? c.mark item = some defect) ∧
        ∃ failure, scan c unit = .error failure) ∧
    (StructsUnmarked c (Item.allOf items) →
      (∀ failure, scan c unit = .error failure → FailsWithin c unit (Item.allOf items) failure) ∧
      ((∀ item ∈ Item.allOf items, ¬ item.IsMisplaced c) → scan c unit = .ok [])) := by
  have found := findings_of_parseFile (c := c) parsed
  refine ⟨fun item member misplaced => ⟨?_, ?_⟩, fun unmarked => ⟨fun failure failed => ?_, ?_⟩⟩
  · have other : item.isStruct = false := by
      cases item <;> first | rfl | cases misplaced.1
    exact ⟨_, Expansion.defect?_of_not_struct c.mark other⟩
  · obtain ⟨failure, inside⟩ := exists_error_of_mem_allOf member misplaced unit.modulePath
      (blocksOf items)
    rw [← found] at inside
    exact exists_failure_of_mem_findings inside
  · obtain ⟨before, finding, after, all, -, same⟩ := (mapM_eq_error_iff id _ failure).mp failed
    have inside : finding ∈ findings c unit := by
      rw [all]
      simp
    rw [found] at inside
    obtain ⟨_, rfl, fails⟩ := failsWithin_of_mem_findingsOfItems unmarked inside
    cases same
    exact fails
  · intro placed
    have none : findings c unit = [] := by
      rw [List.eq_nil_iff_forall_not_mem]
      intro finding inside
      rw [found] at inside
      obtain ⟨_, -, item, member, misplaced, -⟩ := failsWithin_of_mem_findingsOfItems unmarked inside
      exact placed item member misplaced
    rw [scan, none]
    rfl

/-- A unit in which an enumeration two modules down carries the attribute. -/
def nested : SourceUnit :=
  ⟨"src/lib.rs", ["crate"],
    "pub mod a\x7bpub mod b\x7b#[variant_merge(name=\"G\")]pub enum E\x7b\x7d\x7d\x7d"⟩

theorem scan_misplaced_nested :
    ∃ items, Grammar.parseFile nested.text = .ok items ∧
      (∃ item ∈ Item.allOf items, item.IsMisplaced {}) ∧
      ∃ failure, scan {} nested = .error failure := by
  have computed : ((Grammar.parseFile nested.text).toOption.map fun items =>
      (Item.allOf items).any fun item => decide (item.IsMisplaced {})) = some true := by
    rw [Grammar.parseFile_of_hasChars nested.text .literal]
    decide +kernel
  cases parsed : Grammar.parseFile nested.text with
  | error error =>
    rw [parsed] at computed
    cases computed
  | ok items =>
    rw [parsed] at computed
    obtain ⟨item, member, misplaced⟩ := List.any_eq_true.mp (Option.some.inj computed)
    have misplaced := of_decide_eq_true misplaced
    exact ⟨items, rfl, ⟨item, member, misplaced⟩, ((scan_misplaced parsed).1 item member misplaced).2⟩

/-- A unit in which an import carries the attribute. -/
def imported : SourceUnit :=
  ⟨"src/lib.rs", ["crate"], "#[variant_merge(name=\"G\",priority=1)]use std::fmt;"⟩

/-- An import that carries the attribute is refused by an expansion and ignored by the scan. -/
theorem scan_ignores_import :
    ((Grammar.parseFile imported.text).toOption.map fun items =>
        (Item.allOf items).map fun item => (item.isStruct, item.attributes.any ({} : Conventions).marks,
          Expansion.defect? "variant_merge" item)) =
      some [(false, true, some (.notAStruct "variant_merge" "an unsupported item"))] ∧
    scan {} imported = .ok [] := by
  rw [Grammar.parseFile_of_hasChars imported.text .literal, scan_of_hasChars imported .literal]
  decide +kernel

end Scan

end Forwarding
