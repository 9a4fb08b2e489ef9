import Forwarding.Proofs.Misplacement
/-!
Relevance. The scan of a module looks at the declarations that carry the merge attribute, at the
inline modules and at the inherent impl blocks. Whatever else stands between them, and in which order
the impl blocks without the attribute stand, makes no difference to what is found.
-/

namespace Forwarding

/-- Whether a scan looks at a declaration where it stands: it carries the attribute or is an inline
module. -/
def Item.isScanned (c : Conventions) : Item → Bool
  | .module attributes _ _ content => attributes.any c.marks || content.isSome
  | item => item.attributes.any c.marks

namespace ImplItem

/-- Whether a block is inherent. -/
def isInherent (block : ImplItem) : Bool :=
  block.ofTrait.isNone

/-- Whether a block carries the attribute. -/
def isMarked (c : Conventions) (block : ImplItem) : Bool :=
  block.attributes.any c.marks

theorem isInherent_of_inherentName? {block : ImplItem} {type : String}
    (named : (block.inherentName? == some type) = true) : block.isInherent = true := by
  rw [beq_iff_eq, inherentName?] at named
  split at named
  · rename_i inherent _
    rw [isInherent, inherent]
    rfl
  · cases named

end ImplItem

namespace Constructor

/-- The constructor of a type is found among the inherent blocks, whatever their order: with one
candidate it is that one, and with none or several the defect does not say which. -/
theorem find_of_perm {blocks blocks' : List ImplItem}
    (same : (blocks.filter ImplItem.isInherent).Perm (blocks'.filter ImplItem.isInherent))
    (type name : String) : find type name blocks = find type name blocks' := by
  have inherent (l : List ImplItem) : l.filter (fun block => block.inherentName? == some type) =
      (l.filter ImplItem.isInherent).filter fun block => block.inherentName? == some type := by
    rw [List.filter_filter]
    refine List.filter_congr fun block _ => ?_
    rw [Bool.eq_self_and]
    exact ImplItem.isInherent_of_inherentName?
  have candidates := (same.filter fun block => block.inherentName? == some type).flatMap_right
    (ImplItem.exported name)
  rw [← inherent, ← inherent] at candidates
  unfold find
  dsimp only
  generalize (blocks.filter _).flatMap _ = found at candidates ⊢
  generalize (blocks'.filter _).flatMap _ = found' at candidates ⊢
  match found with
  | [] => rw [candidates.nil_eq]
  | [only] => rw [candidates.singleton_eq]
  | first :: second :: rest =>
    match found', candidates.length_eq with
    | _ :: _ :: _, _ => rfl

end Constructor

namespace Scan

variable {c : Conventions} {unit : SourceUnit}

/-- The definitions of a module's declarations, or the first failure among them. -/
def scanItems (c : Conventions) (unit : SourceUnit) (module : List String) (items : List Item) :
    Except Failure (List Definition) :=
  (findingsOfItems c unit module (blocksOf items) items).mapM id

theorem scan_eq_scanItems {items : List Item} (parsed : Grammar.parseFile unit.text = .ok items) :
    scan c unit = scanItems c unit unit.modulePath items := by
  rw [scan, findings_of_parseFile parsed, scanItems]

/-- The inherent impl blocks that do not carry the attribute. -/
def plainBlocks (c : Conventions) (items : List Item) : List ImplItem :=
  (blocksOf items).filter fun block => block.isInherent && !block.isMarked c

mutual

/-- Two declarations that a scan cannot tell apart: the same one, or inline modules with the same
attributes and name whose contents it cannot tell apart. -/
inductive Alike (c : Conventions) : Item → Item → Prop
  | same (item : Item) : Alike c item item
  | module (attributes : List Attribute) (before before' : List Tree) (name : String)
      {items items' : List Item}
      (scanned : AlikeAll c (items.filter (Item.isScanned c)) (items'.filter (Item.isScanned c)))
      (plain : (plainBlocks c items).Perm (plainBlocks c items')) :
      Alike c (.module attributes before name (some items))
        (.module attributes before' name (some items'))

/-- Declarations that a scan cannot tell apart, one by one. -/
inductive AlikeAll (c : Conventions) : List Item → List Item → Prop
  | nil : AlikeAll c [] []
  | cons {item item' : Item} {rest rest' : List Item} (first : Alike c item item')
      (others : AlikeAll c rest rest') : AlikeAll c (item :: rest) (item' :: rest')

end

theorem AlikeAll.refl (items : List Item) : AlikeAll c items items := by
  induction items with
  | nil => exact .nil
  | cons item rest ih => exact .cons (.same item) ih

theorem blocksOf_cons (item : Item) (rest : List Item) :
    blocksOf (item :: rest) = blocksOf [item] ++ blocksOf rest := by
  rw [← List.singleton_append, blocksOf, List.filterMap_append]
  rfl

theorem Alike.blocksOf_eq {item item' : Item} (alike : Alike c item item') :
    blocksOf [item] = blocksOf [item'] := by
  cases alike with
  | same => rfl
  | module => rfl

theorem AlikeAll.blocksOf_eq {items items' : List Item} (alike : AlikeAll c items items') :
    blocksOf items = blocksOf items' := by
  induction items generalizing items' with
  | nil =>
    cases alike
    rfl
  | cons item rest ih =>
    cases alike with
    | cons first others =>
      rw [blocksOf_cons, first.blocksOf_eq, ih others, ← blocksOf_cons]

/-- A scan looks at the impl blocks that carry the attribute. -/
theorem blocksOf_filter_isScanned (items : List Item) :
    blocksOf (items.filter (Item.isScanned c)) = (blocksOf items).filter (ImplItem.isMarked c) := by
  unfold blocksOf
  rw [List.filterMap_filter, List.filter_filterMap]
  refine List.filterMap_congr fun item _ => ?_
  cases item with
  | implementation block =>
    change (if block.isMarked c = true then some block else none) = _
    rw [Option.filter_some]
  | struct | module | other => split <;> rfl

/-- What a module looks like to a scan decides its inherent impl blocks up to their order. -/
theorem inherent_perm {items items' : List Item}
    (scanned : AlikeAll c (items.filter (Item.isScanned c)) (items'.filter (Item.isScanned c)))
    (plain : (plainBlocks c items).Perm (plainBlocks c items')) :
    ((blocksOf items).filter ImplItem.isInherent).Perm
      ((blocksOf items').filter ImplItem.isInherent) := by
  have marked : ((blocksOf items).filter ImplItem.isInherent).filter (ImplItem.isMarked c) =
      ((blocksOf items').filter ImplItem.isInherent).filter (ImplItem.isMarked c) := by
    rw [List.filter_comm, List.filter_comm _ _ (blocksOf items'), ← blocksOf_filter_isScanned,
      ← blocksOf_filter_isScanned, scanned.blocksOf_eq]
  have split (l : List Item) :
      (plainBlocks c l ++ ((blocksOf l).filter ImplItem.isInherent).filter (ImplItem.isMarked c)).Perm
        ((blocksOf l).filter ImplItem.isInherent) := by
    have plainly : plainBlocks c l =
        ((blocksOf l).filter ImplItem.isInherent).filter fun block => !block.isMarked c := by
      rw [List.filter_filter, plainBlocks]
      exact List.filter_congr fun block _ => Bool.and_comm _ _
    rw [plainly]
    exact List.perm_append_comm.trans (List.filter_append_perm _ _)
  have joined := plain.append_right
    (((blocksOf items').filter ImplItem.isInherent).filter (ImplItem.isMarked c))
  exact ((split items).symm.trans (marked ▸ joined)).trans (split items')

theorem findingsOfStruct_of_find {module : List String} {blocks blocks' : List ImplItem}
    (found : ∀ type name, Constructor.find type name blocks = Constructor.find type name blocks')
    (struct : StructItem) :
    findingsOfStruct c unit module blocks struct = findingsOfStruct c unit module blocks' struct := by
  have described (arguments : Annotation) (location : Location) :
      describe c module blocks struct arguments location =
        describe c module blocks' struct arguments location := by
    unfold describe
    dsimp only
    rw [found]
  unfold findingsOfStruct ofStruct
  simp only [described]

theorem findingsOfItem_not_isScanned {item : Item} (other : item.isScanned c = false)
    (module : List String) (blocks : List ImplItem) :
    findingsOfItem c unit module blocks item = [] := by
  have unmarked : ∀ a ∈ item.attributes, c.marks a ≠ true := by
    have none : item.attributes.any c.marks = false := by
      cases item with
      | struct | implementation | other => exact other
      | module => exact (Bool.or_eq_false_iff.mp other).1
    exact List.any_eq_false.mp none
  have nowhere (phrase : String) : misplaced? c unit item.attributes phrase = none :=
    misplaced?_eq_none_iff.mpr unmarked
  rw [findingsOfItem.eq_def]
  cases item with
  | struct declaration => exact findingsOfStruct_unmarked unmarked module blocks
  | implementation block => exact congrArg failureFound (nowhere _)
  | other kind attributes tree =>
    dsimp only
    split
    · exact congrArg failureFound (nowhere _)
    · rfl
  | module attributes before name content =>
    cases content with
    | some items => cases (Bool.or_eq_false_iff.mp other).2
    | none =>
      have unplaced : misplaced? c unit attributes "a module" = none := nowhere _
      dsimp only
      rw [unplaced]

theorem findingsOfItems_filter_isScanned (module : List String) (blocks : List ImplItem)
    (items : List Item) :
    findingsOfItems c unit module blocks (items.filter (Item.isScanned c)) =
      findingsOfItems c unit module blocks items := by
  induction items with
  | nil => rfl
  | cons item rest ih =>
    rw [List.filter_cons, findingsOfItems]
    split
    · rw [findingsOfItems, ih]
    · rename_i other
      rw [ih, findingsOfItem_not_isScanned (Bool.not_eq_true _ ▸ other), List.nil_append]

theorem findingsOfItem_of_perm {module : List String} {blocks blocks' : List ImplItem}
    (inherent : (blocks.filter ImplItem.isInherent).Perm (blocks'.filter ImplItem.isInherent))
    (item : Item) :
    findingsOfItem c unit module blocks item = findingsOfItem c unit module blocks' item := by
  rw [findingsOfItem.eq_def, findingsOfItem.eq_def]
  cases item with
  | struct declaration =>
    exact findingsOfStruct_of_find (Constructor.find_of_perm inherent) declaration
  | implementation | module | other => rfl

theorem sizeOf_filter_le (p : Item → Bool) (items : List Item) :
    sizeOf (items.filter p) ≤ sizeOf items := by
  induction items with
  | nil => exact Nat.le_refl _
  | cons item rest ih =>
    rw [List.filter_cons]
    split
    · exact Nat.add_le_add_left ih _
    · exact Nat.le_add_left_of_le ih

mutual

theorem Alike.findingsOfItem_eq {item item' : Item} (alike : Alike c item item')
    {unit : SourceUnit} {module : List String} {blocks blocks' : List ImplItem}
    (inherent : (blocks.filter ImplItem.isInherent).Perm (blocks'.filter ImplItem.isInherent)) :
    findingsOfItem c unit module blocks item = findingsOfItem c unit module blocks' item' := by
  cases alike with
  | same => exact findingsOfItem_of_perm inherent item
  | @module attributes before before' name items items' scanned plain =>
    -- the relation descends to the scanned part of the contents, which is no larger than they are
    have smaller := sizeOf_filter_le (Item.isScanned c) items
    rw [findingsOfItem.eq_def, findingsOfItem.eq_def]
    dsimp only
    have inner : findingsOfItems c unit (module ++ [unraw name]) (blocksOf items) items =
        findingsOfItems c unit (module ++ [unraw name]) (blocksOf items') items' := by
      rw [← findingsOfItems_filter_isScanned, scanned.findingsOfItems_eq (inherent_perm scanned plain),
        findingsOfItems_filter_isScanned]
    rw [inner]
termination_by sizeOf item
decreasing_by
  simp +arith
  omega

theorem AlikeAll.findingsOfItems_eq {items items' : List Item} (alike : AlikeAll c items items')
    {unit : SourceUnit} {module : List String} {blocks blocks' : List ImplItem}
    (inherent : (blocks.filter ImplItem.isInherent).Perm (blocks'.filter ImplItem.isInherent)) :
    findingsOfItems c unit module blocks items = findingsOfItems c unit module blocks' items' := by
  cases alike with
  | nil => rfl
  | cons first others =>
    rw [findingsOfItems, findingsOfItems, first.findingsOfItem_eq inherent,
      others.findingsOfItems_eq inherent]
termination_by sizeOf items
decreasing_by
  all_goals simp +arith

end

/-- The scan of a module depends on the declarations that carry the attribute, on the inline modules,
each by what its own scan depends on, and on which inherent impl blocks without the attribute there
are. Modules that agree in this much have the same definitions in the same order or the same
failure, and the scan of a unit may read either of them. -/
theorem scanItems_eq_of_alike {items items' : List Item}
    (scanned : AlikeAll c (items.filter (Item.isScanned c)) (items'.filter (Item.isScanned c)))
    (plain : (plainBlocks c items).Perm (plainBlocks c items')) (unit : SourceUnit) :
    (∀ module, scanItems c unit module items = scanItems c unit module items') ∧
      (Grammar.parseFile unit.text = .ok items →
        scan c unit = scanItems c unit unit.modulePath items') := by
  have same (module : List String) :
      findingsOfItems c unit module (blocksOf items) items =
        findingsOfItems c unit module (blocksOf items') items' := by
    rw [← findingsOfItems_filter_isScanned module (blocksOf items),
      scanned.findingsOfItems_eq (inherent_perm scanned plain), findingsOfItems_filter_isScanned]
  have result (module : List String) :
      scanItems c unit module items = scanItems c unit module items' := by
    rw [scanItems, same, scanItems]
  exact ⟨result, fun parsed => (scan_eq_scanItems parsed).trans (result _)⟩

/-- A struct that carries the attribute. -/
def carrier : Item :=
  .struct ⟨[⟨⟨1, 0⟩, false, false, ["variant_merge"], ⟨1, 2⟩, .list .parenthesis
    [.leaf (.ident "name") ⟨1, 16⟩, .leaf (.punct '=' false) ⟨1, 20⟩,
      .leaf (.literal "\"G\"") ⟨1, 21⟩] ⟨1, 24⟩⟩],
    .everywhere, "S", ⟨1, 37⟩, ⟨[], false, [], false⟩, .unit⟩

/-- An inherent impl block of that struct with one function. -/
def blockWith (function : String) : ImplItem :=
  ⟨[], false, false, ⟨[], false, [], false⟩, none, .path false [.segment "S" []],
    [.method ⟨[], .everywhere, false, ⟨false, false, false, none, function,
      ⟨[], false, [], false⟩, [], false, none, some (.path false [.segment "Self" []])⟩, []⟩]⟩

/-- A module with the struct before its impl blocks, and the same once more inside. -/
def tidy : List Item :=
  [carrier, .implementation (blockWith "new"), .implementation (blockWith "help"),
    .module [] [] "inner"
      (some [carrier, .implementation (blockWith "new"), .implementation (blockWith "help")])]

/-- The same module with the impl blocks elsewhere and a function between them. -/
def scattered : List Item :=
  [.implementation (blockWith "help"), carrier, .other .function [] (.seq []),
    .module [] [] "inner"
      (some [.implementation (blockWith "help"), .implementation (blockWith "new"), carrier]),
    .implementation (blockWith "new")]

theorem scanItems_eq_scattered :
    scanItems {} ⟨"src/lib.rs", ["crate"], ""⟩ ["crate"] tidy =
        scanItems {} ⟨"src/lib.rs", ["crate"], ""⟩ ["crate"] scattered ∧
      (scanItems {} ⟨"src/lib.rs", ["crate"], ""⟩ ["crate"] tidy).toOption.map
        (·.map Definition.typePath) = some ["crate::S", "crate::inner::S"] := by
  have swapped : (plainBlocks {} tidy).Perm (plainBlocks {} scattered) := .swap _ _ []
  have inner : Alike {} tidy[3] scattered[3] :=
    .module [] [] [] "inner" (.refl [carrier]) (.swap _ _ [])
  have scanned : AlikeAll {} (tidy.filter (Item.isScanned {}))
      (scattered.filter (Item.isScanned {})) :=
    .cons (.same carrier) (.cons inner .nil)
  exact ⟨(scanItems_eq_of_alike scanned swapped _).1 _, by decide +kernel⟩

end Scan

end Forwarding
