import Forwarding.Proofs.Advancing
import Forwarding.Proofs.KeepingItems
import Forwarding.Proofs.Origin
/-!
Where structs stand. The names of the structs of a text, at file level and in inline modules at any
depth, are words of the text: as the structs are listed, each name is placed behind those before it.
-/

set_option mvcgen.warning false

open Std.Do

namespace Forwarding

namespace Lexeme

variable {ahead rest body : List Lexeme}

theorem placedOf_sublist (suffix : rest <:+ ahead) : (placedOf rest).Sublist (placedOf ahead) := by
  obtain ⟨before, rfl⟩ := suffix
  rw [placedOf_append]
  exact List.sublist_append_right _ _

theorem placedOf_group {delimiter : Delimiter} {start stop : Position} :
    placedOf (.group delimiter body start stop :: rest) = (.opening delimiter, start) ::
      (placedOf body ++ (.closing delimiter, stop) :: placedOf rest) := by
  simp [placedOf, placed]

end Lexeme

/-- The name of a struct, where it stands. -/
def StructItem.placedName (struct : StructItem) : Token × Position :=
  (.ident struct.name, struct.nameStart)

namespace Scan

/-- The names of the structs in a declaration, at every depth. -/
def namesOf (item : Item) : List (Token × Position) :=
  (sitesOfItem [] [] item).map (·.struct.placedName)

mutual

theorem names_sitesOfItem (module : List String) (blocks : List ImplItem) (item : Item) :
    (sitesOfItem module blocks item).map (·.struct.placedName) = namesOf item := by
  cases item with
  | struct struct => rfl
  | implementation block => rfl
  | other kind attributes tree => rfl
  | module attributes before name content =>
    cases content with
    | none => rfl
    | some items =>
      exact (names_sitesOfItems _ _ items).trans (names_sitesOfItems _ _ items).symm

theorem names_sitesOfItems (module : List String) (blocks : List ImplItem) (items : List Item) :
    (sitesOfItems module blocks items).map (·.struct.placedName) = items.flatMap namesOf := by
  cases items with
  | nil => rfl
  | cons item rest =>
    rw [sitesOfItems, List.map_append, names_sitesOfItem module blocks item,
      names_sitesOfItems module blocks rest, List.flatMap_cons]

end

end Scan

namespace Grammar

open Forwarding.Grammar.Parser
open Scan (namesOf)
open Invariant (Holds)
open Lexeme (placedOf placedOf_group)

variable {α β : Type}

/-- The lexemes ahead have their tokens among some tokens. -/
@[reducible]
def among (tokens : List (Token × Position)) : Invasive :=
  .ofSuffix (fun lexemes => (placedOf lexemes).Sublist tokens)
    (fun known suffix => (Lexeme.placedOf_sublist suffix).trans known)
    fun known => by
      rw [placedOf_group] at known
      exact ((List.sublist_append_left _ _).trans (List.sublist_cons_self _ _)).trans known

/-- What a reader names, and then what it leaves, stands among the tokens ahead in this order. -/
def Names (p : Parser α) (names : α → List (Token × Position)) : Prop :=
  ∀ i a j, p.Reads i a j → (names a ++ placedOf j.rest).Sublist (placedOf i.rest)

variable {p : Parser α} {names : α → List (Token × Position)}

theorem names_of_keeps (keeps : ∀ [Invariant], Keeps p) : Names p fun _ => [] :=
  fun i a j ran =>
    triple_iff.mp (@keeps (among (placedOf i.rest)).toInvariant) i a j (List.Sublist.refl _) ran

theorem names_iff : Names p names ↔ ∀ tokens, ⦃fun i => ⌜(placedOf i.rest).Sublist tokens⌝⦄ p
    ⦃⇓? a j => ⌜(names a ++ placedOf j.rest).Sublist tokens⌝⦄ := by
  constructor
  · intro named tokens
    exact triple_iff.mpr fun i a j known ran => (named i a j ran).trans known
  · intro each i a j ran
    exact triple_iff.mp (each (placedOf i.rest)) i a j (List.Sublist.refl _) ran

theorem names_pure {a : α} (none : names a = []) : Names (pure a) names := by
  intro i b j ran
  obtain ⟨rfl, rfl⟩ := reads_pure.mp ran
  rw [none]
  exact List.Sublist.refl _

theorem Names.bind {q : α → Parser β} {names : β → List (Token × Position)}
    (first : Names p fun _ => []) (next : ∀ a, Names (q a) names) : Names (p >>= q) names := by
  intro i b j ran
  obtain ⟨a, k, before, after⟩ := reads_bind.mp ran
  exact (next a k b j after).trans (first i a k before)

theorem Names.map {f : α → β} {names : β → List (Token × Position)}
    (named : Names p fun a => names (f a)) : Names (f <$> p) names := by
  intro i b j ran
  obtain ⟨a, own, rfl⟩ := reads_map.mp ran
  exact named i a j own

theorem Names.grouped {delimiter : Delimiter} (named : Names p names) :
    Names (Parser.grouped delimiter p) names := by
  intro i a j ran
  obtain ⟨body, start, stop, rest, m, ahead, read, rfl⟩ := reads_grouped.mp ran
  rw [ahead, placedOf_group]
  have inside := (List.sublist_append_left _ _).trans (named _ _ _ read)
  exact (inside.append (List.sublist_cons_self _ _)).trans (List.sublist_cons_self _ _)

theorem Names.repeatUpTo {step : Parser (Option α)} (count : Nat)
    (named : Names step fun found => found.toList.flatMap names) :
    Names (Parser.repeatUpTo step count) (List.flatMap names) := by
  induction count with
  | zero => exact names_pure rfl
  | succ count ih =>
    intro i found j ran
    obtain ⟨first, k, own, next⟩ := reads_bind.mp ran
    have here := named i first k own
    cases first with
    | none => exact (names_pure rfl k found j next).trans here
    | some value =>
      obtain ⟨more, l, later, last⟩ := reads_bind.mp next
      obtain ⟨rfl, rfl⟩ := reads_pure.mp last
      have further := (ih k more _ later).append_left (names value)
      rw [List.flatMap_cons, List.append_assoc]
      exact further.trans (by simpa using here)

theorem Names.untilEnd (named : Names p names) :
    Names (Parser.untilEnd p) (List.flatMap names) := by
  have step : Names (do
      if ← atEnd then return none
      some <$> p) fun found => found.toList.flatMap names := by
    refine Names.bind (names_of_keeps fun {_} => by mvcgen) fun ended => ?_
    cases ended with
    | true => exact names_pure rfl
    | false => exact Names.map (by simpa using named)
  intro i found j ran
  simp only [Parser.untilEnd, repeated, reads_bind, reads_get, existsAndEq] at ran
  exact step.repeatUpTo _ i found j ran.2

section Declarations

variable [Invariant] {g : Grammar} (post : Item → List Lexeme → Prop)
  (struct : ∀ attributes, ⦃fun i => ⌜Holds i.rest⌝⦄ structItem g attributes
    ⦃⇓? struct j => ⌜post (.struct struct) j.rest⌝⦄)
  (inside : ⦃fun i => ⌜Holds i.rest⌝⦄ braced g (Parser.untilEnd g.item)
    ⦃⇓? found j => ⌜∀ attributes before name,
      post (.module attributes before name (some found.2)) j.rest⌝⦄)
  (outside : ∀ attributes before name rest,
    Holds rest → post (.module attributes before name none) rest)
  (block : ∀ block rest, Holds rest → post (.implementation block) rest)
  (other : ∀ kind attributes tree rest, Holds rest → post (.other kind attributes tree) rest)

include inside outside in
theorem declares_module (attributes : List Attribute) :
    ⦃fun i => ⌜Holds i.rest⌝⦄ moduleItem g attributes ⦃⇓? item j => ⌜post item j.rest⌝⦄ := by
  unfold moduleItem
  mvcgen [inside] <;> simp_all

include struct inside outside block other in
/-- What is known of a declaration follows from what is known of a struct, of the content of a module
and of the lexemes ahead. -/
theorem declares [Steady g] :
    ⦃fun i => ⌜Holds i.rest⌝⦄ itemOf g ⦃⇓? item j => ⌜post item j.rest⌝⦄ := by
  have module := declares_module post inside outside
  unfold itemOf
  mvcgen [struct, module, readSince] <;> simp_all

end Declarations

variable {g : Grammar} [∀ [Invariant], Steady g]

theorem names_structItem {attributes : List Attribute} :
    Names (structItem g attributes) fun struct => [struct.placedName] := by
  unfold structItem
  refine Names.bind (names_of_keeps keeps_visibility) fun visibility => ?_
  refine Names.bind (names_of_keeps keeps_word) fun _ => ?_
  intro i struct j ran
  simp only [reads_bind, reads_place, existsAndEq, true_and, reads_pure] at ran
  obtain ⟨name, k, named, generics, l, listed, ⟨full, fields⟩, body, rfl⟩ := ran
  obtain ⟨place, rest, ahead, rfl, -⟩ := reads_identifier.mp named
  have further := (names_of_keeps keeps_structBody l _ j body).trans
    (names_of_keeps keeps_genericParameters _ _ l listed)
  rw [ahead]
  exact further.cons_cons (.ident name, place)

omit [∀ [Invariant], Steady g] in
theorem Names.braced (named : Names p names) :
    Names (Grammar.braced g p) fun found => names found.2 := by
  refine Names.grouped (Names.bind (names_of_keeps keeps_innerAttributes) fun attributes => ?_)
  exact Names.map named

theorem names_itemOf (item : Names g.item namesOf) : Names (itemOf g) namesOf := by
  refine names_iff.mpr fun tokens => ?_
  refine @declares (among tokens).toInvariant g
    (fun item rest => (namesOf item ++ placedOf rest).Sublist tokens)
    (fun attributes => names_iff.mp names_structItem tokens) ?_
    (fun attributes before name rest known => known) (fun block rest known => known)
    (fun kind attributes tree rest known => known) _
  refine triple_iff.mpr fun i found j known ran attributes before name => ?_
  have same : namesOf (.module attributes before name (some found.2)) = found.2.flatMap namesOf :=
    Scan.names_sitesOfItems _ _ found.2
  rw [same]
  exact (Names.braced item.untilEnd i found j ran).trans known

/-- The names of the structs of a declaration stand in its text. -/
theorem names_item (depth : Nat) : Names (ofDepth depth).item namesOf := by
  induction depth with
  | zero => exact fun i item j ran => absurd ran reads_fail
  | succ depth ih => exact names_itemOf ih

theorem names_file (depth : Nat) : Names (file (ofDepth depth)) (List.flatMap namesOf) :=
  Names.bind (names_of_keeps keeps_innerAttributes) fun _ => (names_item depth).untilEnd

end Grammar

namespace Scan

theorem isWord_names {items : List Item} {found : Token × Position}
    (member : found ∈ items.flatMap namesOf) : found.1.isWord = true := by
  obtain ⟨item, -, inside⟩ := List.mem_flatMap.mp member
  obtain ⟨site, -, rfl⟩ := List.mem_map.mp inside
  rfl

/-- The structs of a text are listed in the order in which their names stand there. -/
theorem sites_advance {text : String} {items : List Item}
    (parsed : Grammar.parseFile text = .ok items) (module : List String) (blocks : List ImplItem) :
    ((sitesOfItems module blocks items).map (·.struct.nameStart)).Pairwise (· < ·) := by
  unfold Grammar.parseFile Grammar.parseChars at parsed
  split at parsed
  · cases parsed
  rename_i lexemes lexed
  obtain ⟨j, read, -⟩ := Grammar.Parser.runAll_eq_ok_iff.mp parsed
  have inside := (List.sublist_append_left _ _).trans (Grammar.names_file _ _ _ _ read)
  have words := (Lexer.words_advance lexed).sublist (inside.filter (·.1.isWord))
  rw [List.filter_eq_self.mpr fun found => isWord_names, ← names_sitesOfItems module blocks,
    List.pairwise_map] at words
  exact List.pairwise_map.mpr words

end Scan

end Forwarding
