import Forwarding.Grammar.Text
import Forwarding.Proofs.FollowingItems
/-!
Declarations of every kind on the same tokens, below a grammar and below a deeper one.
-/

namespace Forwarding.Grammar.Parser

variable {g g' : Grammar}

section Others

theorem same_variant (deeper : Deeper g g') : Follows .bare Eq (variant g) (variant g') := by
  refine same_bind (follows_outerAttributes deeper) fun _ _ same => same_visibility.bind fun _ =>
    follows_identifier.bind fun name => ?_
  rw [Attribute.Alike.outer_eq same]
  have valued {fields fields' : Fields} (alike : Fields.Alike fields fields')
      (attributes : List Tree) : Follows .bare Eq
      (do
        let value ←
          if ← seesOperator "=" then
            let sign ← operator "="
            pure [sign, ← g.expression]
          else pure []
        return Tree.seq (attributes ++ .word name :: (fieldsTree fields ++ value)))
      (do
        let value ←
          if ← seesOperator "=" then
            let sign ← operator "="
            pure [sign, ← g'.expression]
          else pure []
        return Tree.seq (attributes ++ .word name :: (fieldsTree fields' ++ value))) := by
    rw [alike.fieldsTree_eq]
    refine same_seesOperator.bind fun _ => .ite ?_ (follows_pure_bind (follows_pure rfl))
    exact follows_operator.bind fun _ => (same_expression deeper).bind fun _ =>
      follows_pure_bind (follows_pure rfl)
  refine same_peek.bind fun _ => same_peek.bind fun _ => .ite ?_ (.ite ?_ ?_)
  · exact same_bind (same_namedFields deeper) fun _ _ alike => valued alike _
  · exact same_bind (same_positionalFields deeper) fun _ _ alike => valued alike _
  · exact follows_pure_bind (valued .unit _)

theorem same_enumeration (deeper : Deeper g g') :
    Follows .bare Eq (enumeration g) (enumeration g') := by
  refine same_visibility.bind fun _ => follows_word.bind fun _ => follows_identifier.bind fun _ =>
    same_bind (same_genericParameters deeper) fun _ _ same => same_bind (same_withWhere deeper same)
    fun _ _ full => (follows_groupedTree (same_commaList (same_variant deeper))).bind fun _ =>
    follows_pure ?_
  rw [full.paramsTree_eq, full.whereTree_eq]

theorem same_unionItem (deeper : Deeper g g') : Follows .bare Eq (unionItem g) (unionItem g') := by
  refine same_visibility.bind fun _ => follows_word.bind fun _ => follows_identifier.bind fun _ =>
    same_bind (same_genericParameters deeper) fun _ _ same => same_bind (same_withWhere deeper same)
    fun _ _ full => same_bind (same_namedFields deeper) fun _ _ fields => follows_pure ?_
  rw [full.paramsTree_eq, full.whereTree_eq, fields.fieldsTree_eq]

theorem same_constantName : Follows .bare Eq constantName constantName :=
  same_peekAny.bind fun _ => .ite follows_anyWord follows_failExpecting

theorem same_constantBody (deeper : Deeper g g') :
    Follows .bare Eq (constantBody g) (constantBody g') := by
  refine same_constantName.bind fun name => same_seesOperator.bind fun angled =>
    same_bind (same_genericParameters deeper) fun generics generics' same =>
    follows_operator.bind fun _ => (deeper.type _ true).bind fun type => ?_
  have closed (value : List Tree) : Follows .bare Eq
      (do
        let clause ← seesWord "where"
        let generics ← withWhere g generics
        let _ ← operator ";"
        return (Tree.seq (.word "const" :: .word name :: (generics.paramsTree ++ .operator ":" :: type
          :: (value ++ generics.whereTree ++ [Tree.operator ";"]))),
          angled || clause, value.isEmpty))
      (do
        let clause ← seesWord "where"
        let generics ← withWhere g' generics'
        let _ ← operator ";"
        return (Tree.seq (.word "const" :: .word name :: (generics.paramsTree ++ .operator ":" :: type
          :: (value ++ generics.whereTree ++ [Tree.operator ";"]))),
          angled || clause, value.isEmpty)) := by
    refine follows_seesWord.bind fun _ => same_bind (same_withWhere deeper same) fun _ _ full =>
      follows_operator.bind fun _ => follows_pure ?_
    rw [full.paramsTree_eq, full.whereTree_eq]
  refine same_seesOperator.bind fun _ => .ite ?_ (follows_pure_bind (closed _))
  exact follows_operator.bind fun _ => (same_expression deeper).bind fun _ =>
    follows_pure_bind (closed _)

theorem same_typeAlias (deeper : Deeper g g') (canDefault : Bool) (clause : ClausePlace) :
    Follows .bare Eq (typeAlias g canDefault clause) (typeAlias g' canDefault clause) := by
  refine same_visibility.bind fun visibility => follows_choose follows_word? (follows_pure rfl)
    fun byDefault => follows_word.bind fun _ => follows_identifier.bind fun name =>
    same_bind (same_genericParameters deeper) fun generics generics' same =>
    same_operator?.bind fun colon => follows_choose (same_boundsUntil deeper _) (follows_pure rfl)
    fun bounds => same_choose (follows_pure same) (same_withWhere deeper same)
    fun early early' alike => ?_
  have closed (value : List Tree) : Follows .bare Eq
      (do
        let late := clause == .afterValue || (clause == .either && early.predicates.isEmpty)
        let full ← if late then withWhere g early else pure early
        let _ ← operator ";"
        let head := visibility.tree ++ byDefault.toList ++ [Tree.word "type", .word name]
          ++ generics.paramsTree
        let bounded := if bounds.isEmpty then [] else Tree.operator ":" :: bounds
        let tree :=
          if late then [Tree.constrained head (bounded ++ value) full.whereTree]
          else Tree.constrained head bounded full.whereTree :: value
        return (⟨Tree.seq (tree ++ [Tree.operator ";"]), colon.isSome, !value.isEmpty⟩ : TypeAlias))
      (do
        let late := clause == .afterValue || (clause == .either && early'.predicates.isEmpty)
        let full ← if late then withWhere g' early' else pure early'
        let _ ← operator ";"
        let head := visibility.tree ++ byDefault.toList ++ [Tree.word "type", .word name]
          ++ generics'.paramsTree
        let bounded := if bounds.isEmpty then [] else Tree.operator ":" :: bounds
        let tree :=
          if late then [Tree.constrained head (bounded ++ value) full.whereTree]
          else Tree.constrained head bounded full.whereTree :: value
        return (⟨Tree.seq (tree ++ [Tree.operator ";"]), colon.isSome,
          !value.isEmpty⟩ : TypeAlias)) := by
    rw [alike.predicates, same.paramsTree_eq]
    refine same_choose (same_withWhere deeper alike) (follows_pure alike) fun full full' whole =>
      follows_operator.bind fun _ => follows_pure ?_
    rw [whole.whereTree_eq]
  refine same_seesOperator.bind fun _ => .ite ?_ (follows_pure_bind (closed _))
  exact follows_operator.bind fun _ => (deeper.type _ true).bind fun _ =>
    follows_pure_bind (closed _)

theorem same_method? (deeper : Deeper g g') {attributes attributes' : List Attribute}
    (same : List.Forall₂ Attribute.Alike attributes attributes') :
    Follows .bare (Option.Rel fun a b => a.tree = b.tree ∧
        List.Forall₂ Attribute.Alike a.attributes b.attributes)
      (method? g attributes) (method? g' attributes') := by
  refine same_visibility.bind fun _ => follows_word?.bind fun _ =>
    same_bind (same_signature deeper) fun _ _ signature => same_seesOperator.bind fun _ => .ite
    (follows_operator.bind fun _ => follows_pure .none) ?_
  refine same_bind (follows_braced deeper (same_statements deeper)) fun ⟨_, _⟩ ⟨_, _⟩ body =>
    follows_pure (.some ?_)
  obtain ⟨inner, rfl⟩ := body
  have whole := List.rel_append same inner
  exact ⟨by simp only [Method.tree, Attribute.Alike.outer_eq whole, Attribute.Alike.inner_eq whole,
    signature], whole⟩

theorem same_implMember (deeper : Deeper g g') :
    Follows .bare (fun a b => a.tree = b.tree) (implMember g) (implMember g') := by
  have other {p q : Parser Tree} (same : Follows .bare Eq p q) :
      Follows .bare (fun a b => a.tree = b.tree) (p >>= fun tree => pure (ImplMember.other tree))
        (q >>= fun tree => pure (ImplMember.other tree)) :=
    same.bind fun _ => follows_pure rfl
  refine same_get_bind fun i j before => same_bind (follows_outerAttributes deeper)
    fun attributes attributes' attributed => same_get_bind fun start start' here =>
    same_visibility.bind fun visibility => same_get_bind fun first first' ahead =>
    follows_seesWord.bind fun _ => same_peek2.bind fun _ => follows_choose follows_word?
    (follows_pure rfl) fun byDefault => (same_beginsSignature false).bind fun _ => .ite ?_
    (follows_seesWord.bind fun _ => .ite ?_ (follows_seesWord.bind fun _ => .ite ?_
    (same_peekAny.bind fun _ => .ite ?_ ?_)))
  · refine same_bind (same_set here) fun _ _ _ => same_bind (same_method? deeper attributed)
      fun found found' same => ?_
    cases same with
    | none => exact other (same_readSince before)
    | some same => exact follows_pure same.1
  · refine follows_word.bind fun _ => (same_constantBody deeper).bind fun ⟨_, _, _⟩ => .ite
      (other (same_readSince before)) (follows_pure ?_)
    simp only [ImplMember.tree, Attribute.Alike.outer_eq attributed]
  · refine same_bind (same_set here) fun _ _ _ => (same_typeAlias deeper _ _).bind fun _ => .ite
      (other (same_readSince before)) (follows_pure ?_)
    simp only [ImplMember.tree, Attribute.Alike.outer_eq attributed]
  · refine same_memberMacro.bind fun _ => follows_pure ?_
    simp only [ImplMember.tree, Attribute.Alike.outer_eq attributed]
  · exact same_get_bind fun _ _ _ => follows_fail

theorem same_or {p q p' q' : Parser Bool} (first : Follows .bare Eq p p')
    (second : Follows .bare Eq q q') : Follows .bare Eq (p <||> q) (p' <||> q') := by
  refine first.bind fun found => ?_
  cases found with
  | true => exact follows_pure rfl
  | false => exact second

theorem same_beginsImplGenerics : Follows .bare Eq beginsImplGenerics beginsImplGenerics := by
  refine same_seesOperator.bind fun _ => .ite (follows_pure rfl) ?_
  refine (same_or same_peek2 (same_or same_peek2 same_peek2)).bind fun _ => .ite (follows_pure rfl) ?_
  refine same_peek2.bind fun _ => same_peek2.bind fun _ => .ite (follows_pure rfl) ?_
  exact same_peek3.bind fun _ => same_peek3.bind fun _ => same_peek3.bind fun _ =>
    same_peek3.bind fun _ => same_peek3.bind fun _ => follows_pure rfl

theorem same_implItem (deeper : Deeper g g') {attributes attributes' : List Attribute}
    (same : List.Forall₂ Attribute.Alike attributes attributes') :
    Follows .bare (Option.Rel fun a b => a.tree = b.tree) (implItem g attributes)
      (implItem g' attributes') := by
  refine same_visibility.bind fun _ => follows_word?.bind fun _ => follows_word?.bind fun _ =>
    follows_word.bind fun _ => same_beginsImplGenerics.bind fun _ => same_choose
    (same_genericParameters deeper) (follows_pure (.refl _)) fun _ _ generics =>
    follows_seesWord.bind fun _ => same_seesOperator.bind fun _ => same_peek2.bind fun _ => ?_
  extract_lets isConst typed signed typed' signed'
  have typed_same (polarity : Option Tree) :
      Follows .bare (Option.Rel fun a b => a.tree = b.tree) (typed polarity) (typed' polarity) := by
    refine (deeper.type _ true).bind fun first => follows_seesWord.bind fun isFor => ?_
    extract_lets isPath named named'
    have named_same (subject : Option Tree × Tree) :
        Follows .bare (Option.Rel fun a b => a.tree = b.tree) (named subject) (named' subject) := by
      obtain ⟨ofTrait, selfType⟩ := subject
      refine same_bind (same_withWhere deeper generics) fun _ _ full => same_bind (follows_braced deeper
        (same_untilEndOf (same_implMember deeper))) fun ⟨_, _⟩ ⟨_, _⟩ body => .ite (follows_pure .none)
        (follows_pure (.some ?_))
      obtain ⟨inner, members⟩ := body
      have whole := List.rel_append same inner
      simp only [ImplItem.tree, Attribute.Alike.outer_eq whole, Attribute.Alike.inner_eq whole,
        full.paramsTree_eq, full.whereTree_eq, map_eq_of_forall₂ members fun _ _ => id]
    refine .ite (follows_word.bind fun _ => (deeper.type _ true).bind fun _ => ?_) ?_
    · exact follows_pure_bind (named_same (_, _))
    · exact follows_pure_bind (named_same (_, _))
  have signed_same : Follows .bare (Option.Rel fun a b => a.tree = b.tree) (signed ⟨⟩) (signed' ⟨⟩) :=
    same_seesOperator.bind fun _ => same_peek2.bind fun _ => follows_choose follows_operator.map
      (follows_pure rfl) typed_same
  exact .ite (same_operator?.bind fun _ => follows_word.bind fun _ => signed_same) signed_same

theorem same_traitFunction (deeper : Deeper g g') {attributes attributes' : List Attribute}
    (same : List.Forall₂ Attribute.Alike attributes attributes') :
    Follows .bare Eq (traitFunction g attributes) (traitFunction g' attributes') := by
  refine same_bind (same_signature deeper) fun _ _ signature => same_peek.bind fun _ => .ite ?_
    (same_seesOperator.bind fun _ => .ite ?_ follows_failExpecting)
  · refine same_bind (follows_braced deeper (same_statements deeper)) fun ⟨_, _⟩ ⟨_, _⟩ body =>
      follows_pure ?_
    obtain ⟨inner, rfl⟩ := body
    rw [Attribute.Alike.outer_eq same, Attribute.Alike.inner_eq inner, signature]
  · exact follows_operator.bind fun _ => follows_pure (by rw [Attribute.Alike.outer_eq same, signature])

theorem same_traitMember (deeper : Deeper g g') :
    Follows .bare Eq (traitMember g) (traitMember g') := by
  refine same_get_bind fun i j before => same_bind (follows_outerAttributes deeper)
    fun attributes attributes' same => same_visibility.bind fun visibility =>
    follows_word?.bind fun byDefault => (same_beginsSignature false).bind fun _ =>
    follows_seesWord.bind fun _ => follows_seesWord.bind fun _ => same_peekAny.bind fun _ => ?_
  rw [Attribute.Alike.outer_eq same]
  extract_lets ended ended'
  have ended_same (tree : Tree) : Follows .bare Eq (ended tree) (ended' tree) :=
    .ite (follows_pure rfl) (same_readSince before)
  have function := same_traitFunction deeper same
  refine .ite (function.bind ended_same) (.ite ?_ (.ite ?_ (.ite ?_ follows_failExpecting_bind)))
  · refine same_get_bind fun _ _ here => follows_word.bind fun _ => same_peekAny.bind fun _ => .ite ?_
      (same_peekAny.bind fun _ => .ite ?_ follows_failExpecting_bind)
    · exact (same_constantBody deeper).bind fun ⟨_, _, _⟩ => .ite (same_readSince before)
        (follows_pure_bind (ended_same _))
    · exact same_bind (same_set here) fun _ _ _ => function.bind ended_same
  · exact (same_typeAlias deeper _ _).bind fun _ => follows_pure_bind (ended_same _)
  · exact same_memberMacro.bind fun _ => follows_pure_bind (ended_same _)

theorem same_traitBody (deeper : Deeper g g') (head : List Tree) {generics generics' : Generics}
    (same : Generics.Alike generics generics') :
    Follows .bare (fun a b => List.Forall₂ Attribute.Alike a.1 b.1 ∧ a.2 = b.2)
      (traitBody g head generics) (traitBody g' head generics') := by
  refine same_operator?.bind fun _ => follows_choose (same_boundsUntil deeper _) (follows_pure rfl)
    fun _ => same_bind (same_withWhere deeper same) fun _ _ full => same_bind (follows_braced deeper
    (same_untilEnd (same_traitMember deeper))) fun ⟨_, _⟩ ⟨_, _⟩ body => follows_pure ?_
  obtain ⟨inner, rfl⟩ := body
  exact ⟨inner, by rw [same.paramsTree_eq, full.whereTree_eq, Attribute.Alike.inner_eq inner]⟩

theorem same_traitItem (deeper : Deeper g g') :
    Follows .bare (fun a b => a.1 = b.1 ∧ List.Forall₂ Attribute.Alike a.2.1 b.2.1 ∧ a.2.2 = b.2.2)
      (traitItem g) (traitItem g') := by
  refine same_visibility.bind fun _ => follows_word?.bind fun _ => follows_seesWord.bind fun _ =>
    follows_choose follows_word? (follows_pure rfl) fun _ => follows_word.bind fun _ =>
    follows_identifier.bind fun _ => same_bind (same_genericParameters deeper) fun _ _ same =>
    same_seesOperator.bind fun _ => .ite ?_ (same_peekAny.bind fun _ => .ite
    follows_failExpecting_bind ?_)
  · refine follows_operator.bind fun _ => (same_boundsUntil deeper _).bind fun _ =>
      same_bind (same_withWhere deeper same) fun _ _ full => follows_operator.bind fun _ =>
      follows_pure ⟨rfl, .nil, ?_⟩
    rw [same.paramsTree_eq, full.whereTree_eq]
  · exact same_bind (same_traitBody deeper _ same) fun ⟨_, _⟩ ⟨_, _⟩ body =>
      follows_pure ⟨rfl, body⟩

theorem same_foreignMember (deeper : Deeper g g') :
    Follows .bare Eq (foreignMember g) (foreignMember g') := by
  refine same_get_bind fun i j before => same_bind (follows_outerAttributes deeper)
    fun attributes attributes' same => same_get_bind fun start start' here =>
    same_visibility.bind fun visibility => follows_seesWord.bind fun _ => follows_seesWord.bind
    fun _ => (same_beginsSignature true).bind fun _ => .ite ?_
    (follows_seesWord.bind fun _ => same_peek2.bind fun _ => .ite ?_ (follows_seesWord.bind fun _ => .ite
    ?_ (same_peekAny.bind fun _ => .ite ?_ follows_failExpecting)))
  · refine follows_seesWord.bind fun _ => follows_choose follows_word? (follows_pure rfl) fun _ =>
      same_bind (same_signature deeper) fun _ _ signature => same_peek.bind fun _ => .ite ?_
      (follows_operator.bind fun _ => .ite (same_readSince before) (follows_pure ?_))
    · exact same_bind (follows_braced deeper (same_statements deeper)) fun _ _ _ => same_readSince before
    · rw [Attribute.Alike.outer_eq same, signature]
  · extract_lets static static'
    have static_same : Follows .bare Eq (static ⟨⟩) (static' ⟨⟩) := by
      refine follows_word.bind fun _ => follows_word?.bind fun _ => follows_identifier.bind fun _ =>
        follows_operator.bind fun _ => (deeper.type _ true).bind fun _ => same_seesOperator.bind
        fun _ => ?_
      extract_lets closed closed'
      have closed_same : Follows .bare Eq (closed ⟨⟩) (closed' ⟨⟩) :=
        follows_operator.bind fun _ => .ite (same_readSince before) (follows_pure (by
          rw [Attribute.Alike.outer_eq same]))
      exact .ite (follows_operator.bind fun _ => (same_expression deeper).bind fun _ => closed_same)
        closed_same
    exact .ite (follows_anyWord.bind fun _ => static_same) static_same
  · refine same_bind (same_set here) fun _ _ _ => (same_typeAlias deeper _ _).bind fun _ => .ite
      (same_readSince before) (follows_pure ?_)
    rw [Attribute.Alike.outer_eq same]
  · exact same_memberMacro.bind fun _ => follows_pure (by rw [Attribute.Alike.outer_eq same])

theorem same_foreignBlock (deeper : Deeper g g') :
    Follows .bare (fun a b => List.Forall₂ Attribute.Alike a.1 b.1 ∧ a.2 = b.2) (foreignBlock g)
      (foreignBlock g') := by
  refine follows_word?.bind fun _ => follows_convention.bind fun _ => same_bind (follows_braced deeper
    (same_untilEnd (same_foreignMember deeper))) fun ⟨_, _⟩ ⟨_, _⟩ body => follows_pure ?_
  obtain ⟨inner, rfl⟩ := body
  exact ⟨inner, by rw [Attribute.Alike.inner_eq inner]⟩

theorem same_imports (deeper : Deeper g g') (rooted : Bool) :
    Follows .bare Eq (g.imports rooted) (g'.imports rooted) :=
  deeper.parse (.imports rooted)

theorem same_importList (deeper : Deeper g g') (rooted : Bool) (n : Nat) :
    Follows .bare Eq (importList g rooted n) (importList g' rooted n) := by
  induction n with
  | zero => exact follows_pure rfl
  | succ n ih =>
    refine same_atEnd.bind fun _ => .ite (follows_pure rfl) (follows_choose same_operator?
      (follows_pure rfl) fun _ => (same_imports deeper _).bind fun _ => same_atEnd.bind fun _ => .ite
      (follows_pure rfl) (follows_operator.bind fun _ => ih.bind fun ⟨_, _⟩ => follows_pure rfl))

theorem same_importsOf (deeper : Deeper g g') (rooted : Bool) :
    Follows .bare Eq (importsOf g rooted) (importsOf g' rooted) := by
  refine same_peekAny.bind fun _ => .ite ?_ (same_seesOperator.bind fun _ => .ite ?_
    (same_peek.bind fun _ => .ite ?_ follows_failExpecting))
  · refine follows_anyWord.bind fun _ => same_seesOperator.bind fun _ => .ite
      (follows_operator.bind fun _ => (same_imports deeper _).bind fun _ => follows_pure rfl)
      (follows_seesWord.bind fun _ => .ite ?_ (follows_pure rfl))
    refine follows_word.bind fun _ => same_peek.bind fun _ => follows_seesWord.bind fun _ => .ite
      (follows_identifier.bind fun _ => follows_pure rfl) (.ite
      (follows_anyWord.bind fun _ => follows_pure rfl) follows_fail_bind)
  · exact follows_operator.bind fun _ => follows_pure rfl
  · exact (follows_grouped (follows_bare_fuel fun n => same_importList deeper rooted n)).bind
      fun ⟨_, _⟩ => follows_pure rfl

theorem same_useItem (deeper : Deeper g g') : Follows .bare Eq (useItem g) (useItem g') :=
  same_visibility.bind fun _ => follows_word.bind fun _ => same_operator?.bind fun _ =>
    (same_imports deeper _).bind fun _ => follows_operator.bind fun _ => follows_pure rfl

theorem same_externCrate : Follows .bare Eq externCrate externCrate := by
  refine same_visibility.bind fun _ => follows_word.bind fun _ => follows_word.bind fun _ =>
    follows_seesWord.bind fun _ => follows_choose follows_anyWord follows_identifier fun _ =>
    follows_seesWord.bind fun _ => ?_
  extract_lets closed
  have closed_same (rename : List Tree) : Follows .bare Eq (closed rename) (closed rename) :=
    follows_operator.bind fun _ => follows_pure rfl
  refine .ite (follows_word.bind fun _ => follows_seesWord.bind fun _ => ?_)
    (follows_pure_bind (closed_same _))
  exact follows_choose follows_anyWord follows_identifier fun _ => follows_pure_bind (closed_same _)

theorem treesOf_eq {items items' : List Item}
    (same : List.Forall₂ (fun a b : Item => a.tree = b.tree) items items') :
    Item.treesOf items = Item.treesOf items' := by
  induction same with
  | nil => rfl
  | cons first _ ih => rw [Item.treesOf, Item.treesOf, first, ih]

theorem same_moduleItem (deeper : Deeper g g') {attributes attributes' : List Attribute}
    (same : List.Forall₂ Attribute.Alike attributes attributes') :
    Follows .bare (fun a b => a.tree = b.tree) (moduleItem g attributes)
      (moduleItem g' attributes') := by
  have whole (before : List Tree) (name : String) {all all' : List Attribute}
      (alike : List.Forall₂ Attribute.Alike all all') {content content' : Option (List Item)}
      (contents : Option.Rel (List.Forall₂ fun a b : Item => a.tree = b.tree) content content') :
      (Item.module all before name content).tree = (Item.module all' before name content').tree := by
    cases contents with
    | none => simp only [Item.tree, Attribute.Alike.outer_eq alike]
    | some items =>
      simp only [Item.tree, Attribute.Alike.outer_eq alike, Attribute.Alike.inner_eq alike,
        treesOf_eq items]
  refine same_visibility.bind fun _ => follows_word?.bind fun _ => follows_word.bind fun _ =>
    follows_seesWord.bind fun _ => follows_choose follows_anyWord follows_identifier fun _ =>
    same_seesOperator.bind fun _ => .ite ?_ (same_peek.bind fun _ => .ite ?_ follows_failExpecting)
  · exact follows_operator.bind fun _ => follows_pure (whole _ _ same .none)
  · exact same_bind (follows_braced deeper (same_untilEndOf (same_item deeper)))
      fun ⟨_, _⟩ ⟨_, _⟩ body => follows_pure (whole _ _ (List.rel_append same body.1) (.some body.2))

theorem same_macroItem : Follows .bare Eq macroItem macroItem := by
  refine same_bind same_plainPath fun _ _ same => follows_operator.bind fun bang => ?_
  rw [same.tree_eq]
  refine follows_seesWord.bind fun _ => same_peek.bind fun _ => ?_
  extract_lets invoked
  have invoked_same (defined : List Tree) : Follows .bare Eq (invoked defined) (invoked defined) :=
    follows_anyGroup.bind fun ⟨_, _⟩ => .ite (follows_pure rfl)
      (follows_operator.bind fun _ => follows_pure rfl)
  refine .ite ?_ (.ite ?_ (follows_pure_bind (invoked_same _)))
  · exact follows_anyWord.bind fun _ => follows_pure_bind (invoked_same _)
  · exact follows_identifier.bind fun _ => follows_pure_bind (invoked_same _)

theorem same_macroDefinition : Follows .bare Eq macroDefinition macroDefinition := by
  refine follows_word.bind fun _ => follows_identifier.bind fun _ => same_peek.bind fun _ => ?_
  extract_lets bodied
  have bodied_same : Follows .bare Eq (bodied ⟨⟩) (bodied ⟨⟩) :=
    same_peek.bind fun _ => .ite ((follows_grouped same_remaining).bind fun _ => follows_pure rfl)
      follows_failExpecting
  exact .ite ((follows_grouped same_remaining).bind fun _ => bodied_same) bodied_same

theorem same_staticItem (deeper : Deeper g g') : Follows .bare Eq (staticItem g) (staticItem g') := by
  refine same_visibility.bind fun _ => follows_word.bind fun _ => follows_word?.bind fun _ =>
    follows_identifier.bind fun _ => same_seesOperator.bind fun _ => .ite ?_ ?_
  · exact follows_operator.bind fun _ => (same_expression deeper).bind fun _ =>
      follows_operator.bind fun _ => follows_pure rfl
  · exact follows_operator.bind fun _ => (deeper.type _ true).bind fun _ => same_seesOperator.bind
      fun _ => .ite (follows_operator.bind fun _ => follows_pure rfl) (follows_operator.bind fun _ =>
      (same_expression deeper).bind fun _ => follows_operator.bind fun _ => follows_pure rfl)

theorem same_itemOf (deeper : Deeper g g') :
    Follows .bare (fun a b => a.tree = b.tree) (itemOf g) (itemOf g') := by
  refine same_get_bind fun i j before => same_bind (follows_outerAttributes deeper)
    fun attributes attributes' same => ?_
  rw [Attribute.Alike.outer_eq same]
  refine same_get_bind fun start start' here => same_visibility.bind fun visibility =>
    same_get_bind fun ahead ahead' behind => ?_
  extract_lets plain orSource withInner implementation plain' orSource' withInner' implementation'
  have source : Follows .bare (fun a b => a.tree = b.tree)
      (readSince i.rest >>= fun tree => pure (Item.other .unspecified [] tree))
      (readSince j.rest >>= fun tree => pure (Item.other .unspecified [] tree)) :=
    (same_readSince before).bind fun _ => follows_pure rfl
  have plain_same (kind : OtherKind) {p q : Parser Tree} (first : Follows .bare Eq p q) :
      Follows .bare (fun a b => a.tree = b.tree) (plain kind p) (plain' kind q) :=
    same_bind (same_set here) fun _ _ _ => first.bind fun _ => follows_pure rfl
  have orSource_same (kind : OtherKind) {p q : Parser (Option Tree)} (first : Follows .bare Eq p q) :
      Follows .bare (fun a b => a.tree = b.tree) (orSource kind p) (orSource' kind q) := by
    refine same_bind (same_set here) fun _ _ _ => first.bind fun found => ?_
    cases found with
    | none => exact source
    | some tree => exact follows_pure rfl
  have withInner_same {p q : Parser (OtherKind × List Attribute × Tree)}
      (first : Follows .bare
        (fun a b => a.1 = b.1 ∧ List.Forall₂ Attribute.Alike a.2.1 b.2.1 ∧ a.2.2 = b.2.2) p q) :
      Follows .bare (fun a b => a.tree = b.tree) (withInner p) (withInner' q) := by
    refine same_bind (same_set here) fun _ _ _ => same_bind first fun ⟨_, _, _⟩ ⟨_, _, _⟩ found =>
      follows_pure ?_
    exact congrArg (fun tree => Tree.seq (_ ++ [tree])) found.2.2
  have implementation_same : Follows .bare (fun a b => a.tree = b.tree) implementation
      implementation' := by
    refine same_bind (same_set here) fun _ _ _ => same_bind (same_implItem deeper same)
      fun found found' alike => ?_
    cases alike with
    | none => exact source
    | some alike => exact follows_pure alike
  have foreign_same : Follows .bare (fun a b => a.tree = b.tree)
      (withInner do return (.unspecified, ← foreignBlock g))
      (withInner' do return (.unspecified, ← foreignBlock g')) :=
    withInner_same (same_bind (same_foreignBlock deeper) fun _ _ found => follows_pure ⟨rfl, found⟩)
  have module_same : Follows .bare (fun a b => a.tree = b.tree)
      (set start >>= fun _ => moduleItem g attributes)
      (set start' >>= fun _ => moduleItem g' attributes') :=
    same_bind (same_set here) fun _ _ _ => same_moduleItem deeper same
  have trait_same := withInner_same (same_traitItem deeper)
  refine (same_beginsSignature false).bind fun _ => .ite ?function
    (follows_seesWord.bind fun _ => .ite ?foreign
    (follows_seesWord.bind fun _ => .ite (orSource_same _ (same_useItem deeper))
    (follows_seesWord.bind fun _ => .ite (orSource_same _ (same_staticItem deeper))
    (follows_seesWord.bind fun _ => .ite (orSource_same _ ?constant)
    (follows_seesWord.bind fun _ => .ite ?unsafety
    (follows_seesWord.bind fun _ => .ite module_same
    (follows_seesWord.bind fun _ => .ite (orSource_same _ ?typeAlias)
    (follows_seesWord.bind fun _ => .ite ?struct
    (follows_seesWord.bind fun _ => .ite (plain_same _ (same_enumeration deeper)) ?rest)))))))))
  case function =>
    refine same_bind (same_set here) fun _ _ _ => same_bind (same_method? deeper same)
      fun found found' alike => ?_
    cases alike with
    | none => exact source
    | some alike => exact follows_pure alike.1
  case foreign =>
    refine follows_word.bind fun _ => follows_seesWord.bind fun _ => .ite
      (plain_same _ same_externCrate) (same_peek.bind fun _ => .ite foreign_same
      (same_peek.bind fun _ => .ite ?_ follows_failExpecting))
    exact follows_stringLiteral.bind fun ⟨_, _⟩ => same_peek.bind fun _ =>
      .ite foreign_same follows_failExpecting
  case constant =>
    exact same_visibility.bind fun _ => follows_word.bind fun _ =>
      (same_constantBody deeper).bind fun ⟨_, _, _⟩ => follows_pure rfl
  case unsafety =>
    exact follows_word.bind fun _ => follows_seesWord.bind fun _ => follows_seesWord.bind fun _ =>
      same_peek2.bind fun _ => .ite trait_same (follows_seesWord.bind fun _ => .ite
      implementation_same (follows_seesWord.bind fun _ => .ite foreign_same
      (follows_seesWord.bind fun _ => .ite module_same follows_failExpecting)))
  case typeAlias => exact (same_typeAlias deeper _ _).bind fun _ => follows_pure rfl
  case struct =>
    exact same_bind (same_set here) fun _ _ _ => same_bind (same_structItem deeper same)
      fun _ _ alike => follows_pure alike
  case rest =>
    refine follows_seesWord.bind fun _ => same_peek2.bind fun _ => .ite
      (plain_same _ (same_unionItem deeper)) (follows_seesWord.bind fun _ => follows_seesWord.bind
      fun _ => same_peek2.bind fun _ => .ite trait_same (follows_seesWord.bind fun _ =>
      follows_seesWord.bind fun _ => same_peek2.bind fun _ => .ite implementation_same
      (follows_seesWord.bind fun _ => .ite ?_ (same_peekAny.bind fun _ => .ite
      (plain_same _ same_macroItem) ?_))))
    · exact same_macroDefinition.bind fun _ => source
    · exact same_bind (same_set behind) fun _ _ _ => follows_failExpecting

end Others

section Depths

theorem deeper_rule (deeper : Deeper g g') (n : Nonterminal) :
    Follows .bare n.Alike (rule g n) (rule g' n) := by
  cases n with
  | type plus => exact follows_typeOf deeper plus
  | bound captures constant => exact follows_boundOf deeper captures constant
  | expression braces => exact same_expressionOf deeper braces
  | operand braces => exact same_operandOf deeper braces
  | standalone => exact same_standaloneOf deeper
  | pattern => exact same_patternOf deeper
  | statements => exact same_statementsOf deeper
  | item => exact same_itemOf deeper
  | imports rooted => exact same_importsOf deeper rooted

/-- What is read below some depth is read below a greater one. -/
theorem deeper_ofDepth {depth deep : Nat} (below : depth ≤ deep) :
    Deeper (ofDepth depth) (ofDepth deep) := by
  induction depth generalizing deep with
  | zero =>
    refine ⟨fun _ => follows_fail, fun _ _ => follows_fail, fun _ _ _ => follows_fail,
      fun ran => absurd ran reads_fail, fun ran => ?_⟩
    cases deep with
    | zero => exact absurd ran reads_fail
    | succ deep => exact ⟨ofDepth deep, ran⟩
  | succ depth ih =>
    obtain ⟨deep, rfl⟩ : ∃ n, deep = n + 1 := ⟨deep - 1, by omega⟩
    have deeper := ih (Nat.le_of_succ_le_succ below)
    exact ⟨deeper_rule deeper, fun _ => follows_typeOf deeper, fun _ => follows_boundOf deeper,
      fun ran => ⟨_, ran⟩, fun ran => ⟨_, ran⟩⟩

end Depths

end Forwarding.Grammar.Parser
