import Forwarding.Proofs.LiteralMarks
import Forwarding.Proofs.Origin
/-!
The literal that gives values to fields. A struct literal is found before the literals inside it, and
parts of a tree are looked at in the order of the text, with two exceptions: the attributes inside
braces come before the head in front of the braces, and a where clause before the parameters in front
of it. Where neither order matters, the values that a constructor gives to fields are those of the
literal that starts first in the text of its body.
-/

namespace Forwarding

namespace Tree

/-- The initializers of the accepted struct literals in some trees, in the order in which the
literals start. -/
def acceptedOf (accepts : String → Bool) (trees : List Tree) : List (List Tree) :=
  (markedOf trees).flatMap (Mark.accepted accepts)

variable {accepts : String → Bool}

theorem acceptedOf_cons (tree : Tree) (rest : List Tree) :
    acceptedOf accepts (tree :: rest) =
      tree.marked.flatMap (Mark.accepted accepts) ++ acceptedOf accepts rest := by
  rw [acceptedOf, markedOf, List.flatMap_append, acceptedOf]

theorem flatten_map_markedEach (trees : List Tree) :
    ((markedEach trees).map (·.flatMap (Mark.accepted accepts))).flatten =
      acceptedOf accepts trees := by
  induction trees with
  | nil => rfl
  | cons tree rest ih => rw [markedEach, List.map_cons, List.flatten_cons, ih, acceptedOf_cons]

theorem accepted_lifetime {tree : Tree} (isLifetime : tree.isLifetime = true) :
    tree.marked.flatMap (Mark.accepted accepts) = [] := by
  cases tree with
  | lifetime name => exact Mark.flatMap_accepted_plain _ _
  | _ => cases isLifetime

theorem accepted_items (items : List Tree) (trailing : Bool) :
    arranged [] ((markedItems items).map (Prod.map id (·.flatMap (Mark.accepted accepts)))) trailing =
      acceptedOf accepts items := by
  rw [markedItems_eq_map, List.map_map, arranged_nil]
  · rw [List.flatMap_map]
    induction items with
    | nil => rfl
    | cons tree rest ih => rw [List.flatMap_cons, ih, acceptedOf_cons]; rfl
  · intro item member first
    obtain ⟨tree, -, rfl⟩ := List.mem_map.mp member
    exact accepted_lifetime first

mutual

/-- Whether no accepted literal stands where the attributes inside braces or a where clause are looked
at before a literal in front of them. -/
def isOrdered (accepts : String → Bool) : Tree → Bool
  | token _ => true
  | lifetime _ => true
  | group _ children => areOrdered accepts children
  | seq children => areOrdered accepts children
  | path _ segments => areOrdered accepts segments
  | segment _ args => areOrdered accepts args
  | arguments _ items _ => areOrdered accepts items
  | qualified selfType traitPath rest =>
    isOrdered accepts selfType && areOrdered accepts traitPath && areOrdered accepts rest
  | record target body => isOrdered accepts target && areOrdered accepts body
  | initializer attributes _ value => areOrdered accepts attributes && areOrdered accepts value
  | constrained head between clause =>
    ((acceptedOf accepts between).isEmpty || (acceptedOf accepts clause).isEmpty)
      && areOrdered accepts head && areOrdered accepts between && areOrdered accepts clause
  | block head attributes body =>
    ((acceptedOf accepts head).isEmpty || (acceptedOf accepts attributes).isEmpty)
      && areOrdered accepts head && areOrdered accepts attributes && areOrdered accepts body

/-- The same for each of some trees. -/
def areOrdered (accepts : String → Bool) : List Tree → Bool
  | [] => true
  | tree :: rest => isOrdered accepts tree && areOrdered accepts rest

end

theorem or_head?_comm {α : Type} {first second : List α} (apart : first = [] ∨ second = []) :
    second.head?.or first.head? = first.head?.or second.head? := by
  rcases apart with rfl | rfl <;> simp

mutual

/-- The first literal on the way through a tree is the one that starts first in its text. -/
theorem firstRecord_eq_head? {tree : Tree} (ordered : isOrdered accepts tree = true) :
    firstRecord accepts tree = (tree.marked.flatMap (Mark.accepted accepts)).head? := by
  cases tree with
  | token t => rfl
  | lifetime name =>
    rw [marked, Mark.flatMap_accepted_plain]
    rfl
  | group delimiter children =>
    rw [firstRecord, firstRecordOf_eq_head? ordered]
    simp [marked, Mark.accepted, acceptedOf]
  | seq children =>
    rw [firstRecord, firstRecordOf_eq_head? ordered, marked, acceptedOf]
  | path isGlobal segments =>
    rw [firstRecord, firstRecordOf_eq_head? ordered, ← flatten_map_markedEach]
    cases isGlobal <;> simp [marked, flatMap_joined, joined_nil]
  | segment name args =>
    rw [firstRecord, firstRecordOf_eq_head? ordered]
    simp [marked, Mark.accepted, acceptedOf]
  | arguments turbofish items trailing =>
    rw [firstRecord, firstRecordOf_eq_head? ordered, ← accepted_items items trailing]
    cases turbofish <;> simp [marked, flatMap_arranged]
  | qualified selfType traitPath rest =>
    simp only [isOrdered, Bool.and_eq_true] at ordered
    obtain ⟨⟨inType, inTrait⟩, inRest⟩ := ordered
    rw [firstRecord, firstRecord_eq_head? inType, firstRecordOf_eq_head? inTrait,
      firstRecordOf_eq_head? inRest, ← flatten_map_markedEach rest, ← List.head?_append,
      ← List.head?_append]
    cases traitPath <;>
      simp [marked, Mark.accepted, acceptedOf, flatMap_joined, joined_nil, markedOf]
  | record target body =>
    simp only [isOrdered, Bool.and_eq_true] at ordered
    obtain ⟨inTarget, inBody⟩ := ordered
    rw [firstRecord]
    split
    · rename_i builds
      simp [marked, Mark.accepted, builds]
    · rename_i builds
      rw [firstRecord_eq_head? inTarget, firstRecordOf_eq_head? inBody, ← List.head?_append]
      simp [marked, Mark.accepted, builds, acceptedOf]
  | initializer attributes member value =>
    simp only [isOrdered, Bool.and_eq_true] at ordered
    obtain ⟨inAttributes, inValue⟩ := ordered
    rw [firstRecord, firstRecordOf_eq_head? inAttributes, firstRecordOf_eq_head? inValue,
      ← List.head?_append]
    cases value <;> simp [marked, Mark.accepted, acceptedOf, markedOf]
  | constrained head between clause =>
    simp only [isOrdered, Bool.and_eq_true, Bool.or_eq_true, List.isEmpty_iff] at ordered
    obtain ⟨⟨⟨apart, inHead⟩, inBetween⟩, inClause⟩ := ordered
    rw [firstRecord, firstRecordOf_eq_head? inHead, firstRecordOf_eq_head? inClause,
      firstRecordOf_eq_head? inBetween, or_head?_comm apart, ← List.head?_append,
      ← List.head?_append]
    simp [marked, acceptedOf]
  | block head attributes body =>
    simp only [isOrdered, Bool.and_eq_true, Bool.or_eq_true, List.isEmpty_iff] at ordered
    obtain ⟨⟨⟨apart, inHead⟩, inAttributes⟩, inBody⟩ := ordered
    rw [firstRecord, firstRecordOf_eq_head? inAttributes, firstRecordOf_eq_head? inHead,
      firstRecordOf_eq_head? inBody, ← Option.or_assoc, or_head?_comm apart, ← List.head?_append,
      ← List.head?_append]
    simp [marked, Mark.accepted, acceptedOf]

theorem firstRecordOf_eq_head? {trees : List Tree} (ordered : areOrdered accepts trees = true) :
    firstRecordOf accepts trees = (acceptedOf accepts trees).head? := by
  cases trees with
  | nil => rfl
  | cons tree rest =>
    simp only [areOrdered, Bool.and_eq_true] at ordered
    rw [firstRecordOf, firstRecord_eq_head? ordered.1, firstRecordOf_eq_head? ordered.2,
      acceptedOf_cons, List.head?_append]

end

/-- An initializer that gives a text to a field: that of its value, or the name of a field that stands
for itself. -/
inductive Assigns : Tree → String → String → Prop
  | itself (attributes : List Tree) (name : String) :
      Assigns (.initializer attributes (.ident name) []) (unraw name) name
  | value (attributes : List Tree) (name : String) {value : List Tree} (some : value ≠ []) :
      Assigns (.initializer attributes (.ident name) value) (unraw name) (seq value).render

theorem assignment?_eq_some_iff {tree : Tree} {key text : String} :
    tree.assignment? = some (key, text) ↔ tree.Assigns key text := by
  constructor
  · intro found
    rw [assignment?.eq_def] at found
    split at found
    · cases found
      exact .itself _ _
    · rename_i some
      cases found
      exact .value _ _ some
    · cases found
  · rintro (⟨attributes, name⟩ | ⟨attributes, name, some⟩)
    · rfl
    · exact assignment?.eq_2 _ _ _ some

end Tree

theorem lookup_reverse_eq_some_iff {l : List (String × String)} {key text : String} :
    l.reverse.lookup key = some text ↔
      ∃ earlier later, l = earlier ++ (key, text) :: later ∧ ∀ p ∈ later, p.1 ≠ key := by
  rw [List.lookup_eq_some_iff]
  constructor
  · rintro ⟨first, last, same, apart⟩
    refine ⟨last.reverse, first.reverse, ?_, fun p member => ?_⟩
    · rw [← List.reverse_reverse l, same]
      simp
    · simpa using Ne.symm (by simpa using apart p (List.mem_reverse.mp member))
  · rintro ⟨earlier, later, rfl, apart⟩
    refine ⟨later.reverse, earlier.reverse, by simp, fun p member => ?_⟩
    simpa using Ne.symm (apart p (List.mem_reverse.mp member))

/-- The last one of some initializers that gives a text to a field. -/
theorem lookup_assignments_eq_some_iff {body : List Tree} {key text : String} :
    (body.filterMap Tree.assignment?).reverse.lookup key = some text ↔
      ∃ earlier tree later, body = earlier ++ tree :: later ∧ tree.Assigns key text ∧
        ∀ other ∈ later, ∀ said, ¬ other.Assigns key said := by
  rw [lookup_reverse_eq_some_iff]
  constructor
  · rintro ⟨first, last, same, apart⟩
    obtain ⟨earlier, rest, rfl, rfl, found⟩ := List.filterMap_eq_append_iff.mp same
    obtain ⟨silent, tree, later, rfl, none, assigned, rfl⟩ := List.filterMap_eq_cons_iff.mp found
    refine ⟨earlier ++ silent, tree, later, by simp, Tree.assignment?_eq_some_iff.mp assigned, ?_⟩
    intro other member said assigns
    exact apart (key, said) (List.mem_filterMap.mpr
      ⟨other, member, Tree.assignment?_eq_some_iff.mpr assigns⟩) rfl
  · rintro ⟨earlier, tree, later, rfl, assigned, apart⟩
    refine ⟨earlier.filterMap Tree.assignment?, later.filterMap Tree.assignment?, ?_, ?_⟩
    · rw [List.filterMap_append, List.filterMap_cons, Tree.assignment?_eq_some_iff.mpr assigned]
    · rintro ⟨name, said⟩ member rfl
      obtain ⟨other, inside, found⟩ := List.mem_filterMap.mp member
      exact apart other inside said (Tree.assignment?_eq_some_iff.mp found)

theorem isSome_lookup_assignments {body : List Tree} {key : String} :
    ((body.filterMap Tree.assignment?).reverse.lookup key).isSome = true ↔
      ∃ tree ∈ body, ∃ text, tree.Assigns key text := by
  rw [← Option.ne_none_iff_isSome, Ne, List.lookup_eq_none_iff]
  simp only [List.mem_reverse, List.mem_filterMap, not_forall, bne_iff_ne, ne_eq, not_not]
  constructor
  · rintro ⟨⟨name, text⟩, ⟨tree, inside, found⟩, rfl⟩
    exact ⟨tree, inside, text, Tree.assignment?_eq_some_iff.mp found⟩
  · rintro ⟨tree, inside, text, assigns⟩
    exact ⟨(key, text), ⟨tree, inside, Tree.assignment?_eq_some_iff.mpr assigns⟩, rfl⟩

theorem putKey_forall {α : Type} {holds : String × α → Prop} {key : String} {value : α}
    {entries : List (String × α)} (each : ∀ p ∈ entries, holds p) (own : holds (key, value)) :
    ∀ p ∈ putKey key value entries, holds p := by
  induction entries with
  | nil => simpa [putKey] using own
  | cons entry rest ih =>
    rw [putKey]
    rw [List.forall_mem_cons] at each
    split
    · exact List.forall_mem_cons.mpr ⟨own, each.2⟩
    · exact List.forall_mem_cons.mpr ⟨each.1, ih each.2⟩

namespace StructItem

/-- Whether a struct literal of a name is one of the struct. -/
def isBuiltBy (struct : StructItem) (name : String) : Bool :=
  name == "Self" || name == struct.name

/-- The value of a property is looked up by its key. -/
theorem value_of_mem_properties {struct : StructItem} {values : List (String × String)}
    {key : String} {property : Property} (member : (key, property) ∈ struct.properties values) :
    property.value = values.lookup key := by
  unfold properties at member
  split at member
  · rename_i fields trailing named
    revert member
    suffices each : ∀ p ∈ fields.foldl _ [], (p : String × Property).2.value = values.lookup p.1 from
      each (key, property)
    refine List.foldlRecOn (motive := fun entries : List (String × Property) =>
      ∀ p ∈ entries, p.2.value = values.lookup p.1) fields _ (by simp) ?_
    intro entries each field _
    dsimp only
    split
    · split
      · exact putKey_forall each rfl
      · exact each
    · exact each
  · cases member

end StructItem

namespace Constructor

variable {struct : StructItem} {c : Constructor}

/-- The values that a constructor gives to fields are those of the struct literal that starts first in
the text of its body. -/
theorem values_of_first (ordered : Tree.areOrdered struct.isBuiltBy c.method.body = true) :
    (∀ before target body after,
      Tree.markedOf c.method.body = before ++ .literal target body :: after →
      target.builds struct.isBuiltBy = true →
      (∀ mark ∈ before, mark.accepted struct.isBuiltBy = []) →
        Tree.tokensOf c.method.body = before.flatMap Mark.printed ++ after.flatMap Mark.printed ∧
        (Tree.record target body).tokens <+: after.flatMap Mark.printed ∧
        (∀ key text, (c.values struct).lookup key = some text ↔
          ∃ earlier tree later, body = earlier ++ tree :: later ∧ tree.Assigns key text ∧
            ∀ other ∈ later, ∀ said, ¬ other.Assigns key said) ∧
        ∀ key property, (key, property) ∈ struct.properties (c.values struct) →
          (property.value.isSome = true ↔ ∃ tree ∈ body, ∃ text, tree.Assigns key text)) ∧
    ((∀ mark ∈ Tree.markedOf c.method.body, mark.accepted struct.isBuiltBy = []) →
      c.values struct = [] ∧
        ∀ key property, (key, property) ∈ struct.properties (c.values struct) →
          property.value = none) := by
  have first : c.values struct = (Tree.acceptedOf struct.isBuiltBy c.method.body).head?.elim []
      fun body => (body.filterMap Tree.assignment?).reverse := by
    rw [← Tree.firstRecordOf_eq_head? ordered]
    unfold values StructItem.isBuiltBy
    dsimp only
    cases Tree.firstRecordOf (fun name => name == "Self" || name == struct.name) c.method.body <;> rfl
  constructor
  · intro before target body after split builds none
    have printed := Tree.printed_markedOf c.method.body
    have found : Tree.acceptedOf struct.isBuiltBy c.method.body =
        body :: after.flatMap (Mark.accepted struct.isBuiltBy) := by
      rw [Tree.acceptedOf, split, List.flatMap_append, List.flatMap_eq_nil_iff.mpr none]
      simp [Mark.accepted, builds]
    rw [found] at first
    refine ⟨?_, Tree.placed_markedOf _ before target body after split, ?_, ?_⟩
    · rw [← printed, split]
      simp [Mark.printed]
    · intro key text
      rw [first]
      exact lookup_assignments_eq_some_iff
    · intro key property member
      rw [StructItem.value_of_mem_properties member, first]
      exact isSome_lookup_assignments
  · intro none
    have nothing : Tree.acceptedOf struct.isBuiltBy c.method.body = [] :=
      List.flatMap_eq_nil_iff.mpr none
    rw [nothing] at first
    refine ⟨first, fun key property member => ?_⟩
    rw [StructItem.value_of_mem_properties member, first]
    rfl

end Constructor

/-- Of the accepted literals in a text one starts first. -/
theorem Tree.exists_first {accepts : String → Bool} {trees body : List Tree} {rest : List (List Tree)}
    (found : acceptedOf accepts trees = body :: rest) :
    ∃ (before : List Mark) (target : Tree) (after : List Mark),
      markedOf trees = before ++ Mark.literal target body :: after ∧
      target.builds accepts = true ∧ ∀ mark ∈ before, mark.accepted accepts = [] := by
  unfold acceptedOf at found
  generalize markedOf trees = marks at found ⊢
  induction marks with
  | nil => cases found
  | cons mark marks ih =>
    rw [List.flatMap_cons] at found
    cases mark with
    | token t =>
      obtain ⟨before, target, after, rfl, builds, none⟩ := ih found
      exact ⟨.token t :: before, target, after, rfl, builds, List.forall_mem_cons.mpr ⟨rfl, none⟩⟩
    | literal target fields =>
      cases builds : target.builds accepts with
      | true =>
        simp only [Mark.accepted, builds, if_true, List.singleton_append, List.cons.injEq] at found
        exact ⟨[], target, marks, by rw [found.1]; rfl, builds, by simp⟩
      | false =>
        have own : (Mark.literal target fields).accepted accepts = [] := by
          simp [Mark.accepted, builds]
        rw [own, List.nil_append] at found
        obtain ⟨before, target', after, rfl, builds', none⟩ := ih found
        exact ⟨_, target', after, rfl, builds', List.forall_mem_cons.mpr ⟨own, none⟩⟩

namespace Scan

/-- A unit whose constructor builds its struct in a closure, with another literal in a field, before it
builds the one that it returns. -/
def building : SourceUnit :=
  ⟨"src/lib.rs", ["crate"],
    "#[variant_merge(name=\"G\",priority=1)]pub struct H\x7bpub a:u8,pub b:u8,pub c:u8\x7d" ++
      "impl H\x7bpub fn new(b:u8)->Self\x7bf(||Self\x7ba:1,b,a:H\x7bc:3\x7d.c\x7d);" ++
        "Self\x7ba:4,b:5,c:6\x7d\x7d\x7d"⟩

theorem values_of_first_building :
    ∃ o ∈ origins {} building,
      Tree.areOrdered o.struct.isBuiltBy o.constructor.method.body = true ∧
      ∃ before target body after,
        Tree.markedOf o.constructor.method.body = before ++ .literal target body :: after ∧
        target.builds o.struct.isBuiltBy = true ∧
        (∀ mark ∈ before, mark.accepted o.struct.isBuiltBy = []) ∧
        body.filterMap Tree.assignment? =
          [("a", "1"), ("b", "b"), ("a", "H \x7b c : 3 \x7d . c")] ∧
        ∀ key text, (o.constructor.values o.struct).lookup key = some text ↔
          ∃ earlier tree later, body = earlier ++ tree :: later ∧ tree.Assigns key text ∧
            ∀ other ∈ later, ∀ said, ¬ other.Assigns key said := by
  have computed : (origins {} building).map (fun o =>
      (Tree.areOrdered o.struct.isBuiltBy o.constructor.method.body,
        (Tree.acceptedOf o.struct.isBuiltBy o.constructor.method.body).map
          (·.filterMap Tree.assignment?))) =
      [(true, [[("a", "1"), ("b", "b"), ("a", "H \x7b c : 3 \x7d . c")], [("c", "3")],
        [("a", "4"), ("b", "5"), ("c", "6")]])] := by
    rw [origins_of_hasChars building (by repeat constructor)]
    decide +kernel
  obtain ⟨o, single, same⟩ := List.map_eq_singleton_iff.mp computed
  obtain ⟨ordered, literals⟩ := Prod.mk.inj same
  obtain ⟨body, rest, found, assigned, -⟩ := List.map_eq_cons_iff.mp literals
  obtain ⟨before, target, after, split, builds, none⟩ := Tree.exists_first found
  obtain ⟨-, -, said, -⟩ :=
    (Constructor.values_of_first ordered).1 before target body after split builds none
  exact ⟨o, single ▸ List.mem_singleton_self o, ordered, before, target, body, after, split, builds,
    none, assigned, said⟩

/-- A unit whose constructor matches on its struct, with another literal in an attribute inside the
braces of the match. -/
def distracting : SourceUnit :=
  ⟨"src/lib.rs", ["crate"],
    "#[variant_merge(name=\"G\",priority=1)]pub struct H\x7bpub a:u8\x7d" ++
      "impl H\x7bpub fn new()->Self\x7b" ++
        "match (Self\x7ba:1\x7d) \x7b#![k = Self\x7ba:2\x7d] h=>h\x7d\x7d\x7d"⟩

/-- The literal of the attribute gives the value, and the other one starts first. -/
theorem values_of_later_distracting :
    ∃ o ∈ origins {} distracting, ∃ before target body after,
      Tree.markedOf o.constructor.method.body = before ++ .literal target body :: after ∧
      target.builds o.struct.isBuiltBy = true ∧
      (∀ mark ∈ before, mark.accepted o.struct.isBuiltBy = []) ∧
      body.filterMap Tree.assignment? = [("a", "1")] ∧
      o.constructor.values o.struct = [("a", "2")] := by
  have computed : (origins {} distracting).map (fun o =>
      ((Tree.acceptedOf o.struct.isBuiltBy o.constructor.method.body).map
          (·.filterMap Tree.assignment?), o.constructor.values o.struct)) =
      [([[("a", "1")], [("a", "2")]], [("a", "2")])] := by
    rw [origins_of_hasChars distracting (by repeat constructor)]
    decide +kernel
  obtain ⟨o, single, same⟩ := List.map_eq_singleton_iff.mp computed
  obtain ⟨literals, values⟩ := Prod.mk.inj same
  obtain ⟨body, rest, found, assigned, -⟩ := List.map_eq_cons_iff.mp literals
  obtain ⟨before, target, after, split, builds, none⟩ := Tree.exists_first found
  exact ⟨o, single ▸ List.mem_singleton_self o, before, target, body, after, split, builds, none,
    assigned, values⟩

end Scan

end Forwarding
