import Forwarding.Scan.Names
/-!
Renaming is a map of names. A tree mentions names at the places that renaming looks at, and it is
determined by what becomes of these: two renamings agree on a tree exactly when they agree on every
name that the tree mentions, and one renaming after another is the renaming by both.
-/

namespace Forwarding

/-- A name where renaming looks: the first one of a path that is not global, or a lifetime. -/
inductive Mention where
  | value (name : String)
  | lifetime (name : String)
  deriving Repr, DecidableEq

namespace Mention

def name : Mention → String
  | value name => name
  | lifetime name => name

/-- The mention of the new name at the same place. -/
def renamed (f : Mention → String) : Mention → Mention
  | value name => value (f (value name))
  | lifetime name => lifetime (f (lifetime name))

theorem name_renamed (f : Mention → String) (m : Mention) : (m.renamed f).name = f m := by
  cases m <;> rfl

end Mention

namespace Tree

def mapHead (f : Mention → String) : List Tree → List Tree
  | segment name args :: rest => segment (f (.value name)) args :: rest
  | segments => segments

/-- What the first of the segments of a path mentions. -/
def headMentions : List Tree → List Mention
  | segment name _ :: _ => [.value name]
  | _ => []

mutual

/-- The tree in which every mentioned name is replaced. -/
def mapNames (f : Mention → String) : Tree → Tree
  | token t => token t
  | lifetime name => lifetime (f (.lifetime name))
  | group delimiter children => group delimiter (mapNamesAll f children)
  | seq children => seq (mapNamesAll f children)
  -- no parameter is named by a global path, nor by a segment after the first
  | path isGlobal segments =>
    path isGlobal (if isGlobal then mapNamesAll f segments else mapHead f (mapNamesAll f segments))
  | segment name args => segment name (mapNamesAll f args)
  | arguments turbofish items trailing => arguments turbofish (mapNamesAll f items) trailing
  | qualified selfType traitPath rest =>
    qualified (mapNames f selfType) (mapNamesAll f traitPath) (mapNamesAll f rest)
  | record target body => record (mapNames f target) (mapNamesAll f body)
  | initializer attributes member value =>
    initializer (mapNamesAll f attributes) member (mapNamesAll f value)
  | constrained head between clause =>
    constrained (mapNamesAll f head) (mapNamesAll f between) (mapNamesAll f clause)
  | block head attributes body =>
    block (mapNamesAll f head) (mapNamesAll f attributes) (mapNamesAll f body)

def mapNamesAll (f : Mention → String) : List Tree → List Tree
  | [] => []
  | tree :: rest => mapNames f tree :: mapNamesAll f rest

end

mutual

/-- The names that a tree mentions. -/
def mentions : Tree → List Mention
  | token _ => []
  | lifetime name => [.lifetime name]
  | group _ children => mentionsOf children
  | seq children => mentionsOf children
  | path isGlobal segments =>
    (if isGlobal then [] else headMentions segments) ++ mentionsOf segments
  | segment _ args => mentionsOf args
  | arguments _ items _ => mentionsOf items
  | qualified selfType traitPath rest =>
    mentions selfType ++ mentionsOf traitPath ++ mentionsOf rest
  | record target body => mentions target ++ mentionsOf body
  | initializer attributes _ value => mentionsOf attributes ++ mentionsOf value
  | constrained head between clause => mentionsOf head ++ mentionsOf between ++ mentionsOf clause
  | block head attributes body => mentionsOf head ++ mentionsOf attributes ++ mentionsOf body

def mentionsOf : List Tree → List Mention
  | [] => []
  | tree :: rest => mentions tree ++ mentionsOf rest

end

theorem mapNamesAll_eq_map (f : Mention → String) (trees : List Tree) :
    mapNamesAll f trees = trees.map (mapNames f) := by
  induction trees with
  | nil => rfl
  | cons tree rest ih => exact congrArg (mapNames f tree :: ·) ih

theorem mem_mentionsOf {m : Mention} {trees : List Tree} :
    m ∈ mentionsOf trees ↔ ∃ tree ∈ trees, m ∈ tree.mentions := by
  induction trees with
  | nil => simp [mentionsOf]
  | cons tree rest ih => simp [mentionsOf, ih]

theorem mapNames_operator (f : Mention → String) (symbols : String) :
    (operator symbols).mapNames f = operator symbols := by
  rw [operator, ofTokens, mapNames, mapNamesAll_eq_map, List.map_map]
  rfl

theorem isLifetime_mapNames (f : Mention → String) (tree : Tree) :
    (tree.mapNames f).isLifetime = tree.isLifetime := by
  cases tree <;> rfl

theorem map_separated (f : Tree → Tree) {separator : Tree} (kept : f separator = separator)
    (trees : List Tree) :
    (separated separator trees).map f = separated separator (trees.map f) := by
  fun_induction separated separator trees with
  | case1 => rfl
  | case2 => rfl
  | case3 tree rest some ih =>
    rw [List.map_cons, List.map_cons, List.map_cons, ih, kept,
      separated.eq_3 _ _ _ fun none => some (List.map_eq_nil_iff.mp none)]

theorem mapHead_name (segments : List Tree) : mapHead Mention.name segments = segments := by
  cases segments with
  | nil => rfl
  | cons tree rest => cases tree <;> rfl

theorem mapHead_mapHead (f g : Mention → String) (segments : List Tree) :
    mapHead g (mapNamesAll g (mapHead f (mapNamesAll f segments))) =
      mapHead (fun m => g (m.renamed f)) (mapNamesAll g (mapNamesAll f segments)) := by
  cases segments with
  | nil => rfl
  | cons tree rest => cases tree <;> rfl

mutual

theorem mapNames_mapNames (f g : Mention → String) (tree : Tree) :
    mapNames g (mapNames f tree) = mapNames (fun m => g (m.renamed f)) tree := by
  cases tree with
  | token t => rfl
  | lifetime name => rfl
  | group delimiter children => simp only [mapNames, mapNamesAll_mapNamesAll f g children]
  | seq children => simp only [mapNames, mapNamesAll_mapNamesAll f g children]
  | path isGlobal segments =>
    have inside := mapNamesAll_mapNamesAll f g segments
    cases isGlobal with
    | true => simp only [mapNames, if_true, inside]
    | false =>
      simp only [mapNames, Bool.false_eq_true, if_false, mapHead_mapHead, inside]
  | segment name args => simp only [mapNames, mapNamesAll_mapNamesAll f g args]
  | arguments turbofish items trailing =>
    simp only [mapNames, mapNamesAll_mapNamesAll f g items]
  | qualified selfType traitPath rest =>
    simp only [mapNames, mapNames_mapNames f g selfType, mapNamesAll_mapNamesAll f g traitPath,
      mapNamesAll_mapNamesAll f g rest]
  | record target body =>
    simp only [mapNames, mapNames_mapNames f g target, mapNamesAll_mapNamesAll f g body]
  | initializer attributes member value =>
    simp only [mapNames, mapNamesAll_mapNamesAll f g attributes, mapNamesAll_mapNamesAll f g value]
  | constrained head between clause =>
    simp only [mapNames, mapNamesAll_mapNamesAll f g head, mapNamesAll_mapNamesAll f g between,
      mapNamesAll_mapNamesAll f g clause]
  | block head attributes body =>
    simp only [mapNames, mapNamesAll_mapNamesAll f g head, mapNamesAll_mapNamesAll f g attributes,
      mapNamesAll_mapNamesAll f g body]

theorem mapNamesAll_mapNamesAll (f g : Mention → String) (trees : List Tree) :
    mapNamesAll g (mapNamesAll f trees) = mapNamesAll (fun m => g (m.renamed f)) trees := by
  cases trees with
  | nil => rfl
  | cons tree rest =>
    simp only [mapNamesAll, mapNames_mapNames f g tree, mapNamesAll_mapNamesAll f g rest]

end

mutual

theorem mapNames_name (tree : Tree) : mapNames Mention.name tree = tree := by
  cases tree with
  | token t => rfl
  | lifetime name => rfl
  | group delimiter children => simp only [mapNames, mapNamesAll_name children]
  | seq children => simp only [mapNames, mapNamesAll_name children]
  | path isGlobal segments =>
    simp only [mapNames, mapNamesAll_name segments, mapHead_name, ite_self]
  | segment name args => simp only [mapNames, mapNamesAll_name args]
  | arguments turbofish items trailing => simp only [mapNames, mapNamesAll_name items]
  | qualified selfType traitPath rest =>
    simp only [mapNames, mapNames_name selfType, mapNamesAll_name traitPath, mapNamesAll_name rest]
  | record target body => simp only [mapNames, mapNames_name target, mapNamesAll_name body]
  | initializer attributes member value =>
    simp only [mapNames, mapNamesAll_name attributes, mapNamesAll_name value]
  | constrained head between clause =>
    simp only [mapNames, mapNamesAll_name head, mapNamesAll_name between, mapNamesAll_name clause]
  | block head attributes body =>
    simp only [mapNames, mapNamesAll_name head, mapNamesAll_name attributes, mapNamesAll_name body]

theorem mapNamesAll_name (trees : List Tree) : mapNamesAll Mention.name trees = trees := by
  cases trees with
  | nil => rfl
  | cons tree rest => simp only [mapNamesAll, mapNames_name tree, mapNamesAll_name rest]

end

theorem mapHead_eq_iff (f g : Mention → String) (segments : List Tree) :
    mapHead f (mapNamesAll f segments) = mapHead g (mapNamesAll g segments) ↔
      (∀ m ∈ headMentions segments, f m = g m) ∧
        mapNamesAll f segments = mapNamesAll g segments := by
  cases segments with
  | nil => simp [headMentions, mapHead, mapNamesAll]
  | cons tree rest => cases tree <;> simp [headMentions, mapHead, mapNamesAll, mapNames, and_assoc]

mutual

/-- Renamings agree on a tree exactly when they agree on what it mentions. -/
theorem mapNames_eq_iff (f g : Mention → String) (tree : Tree) :
    mapNames f tree = mapNames g tree ↔ ∀ m ∈ tree.mentions, f m = g m := by
  cases tree with
  | token t => simp [mapNames, mentions]
  | lifetime name => simp [mapNames, mentions]
  | group delimiter children => simp [mapNames, mentions, mapNamesAll_eq_iff f g children]
  | seq children => simp [mapNames, mentions, mapNamesAll_eq_iff f g children]
  | path isGlobal segments =>
    have inside := mapNamesAll_eq_iff f g segments
    cases isGlobal with
    | true => simp [mapNames, mentions, inside]
    | false => simp [mapNames, mentions, mapHead_eq_iff, inside, or_imp, forall_and]
  | segment name args => simp [mapNames, mentions, mapNamesAll_eq_iff f g args]
  | arguments turbofish items trailing => simp [mapNames, mentions, mapNamesAll_eq_iff f g items]
  | qualified selfType traitPath rest =>
    simp [mapNames, mentions, mapNames_eq_iff f g selfType, mapNamesAll_eq_iff f g traitPath,
      mapNamesAll_eq_iff f g rest, or_imp, forall_and]
  | record target body =>
    simp [mapNames, mentions, mapNames_eq_iff f g target, mapNamesAll_eq_iff f g body, or_imp,
      forall_and]
  | initializer attributes member value =>
    simp [mapNames, mentions, mapNamesAll_eq_iff f g attributes, mapNamesAll_eq_iff f g value,
      or_imp, forall_and]
  | constrained head between clause =>
    simp [mapNames, mentions, mapNamesAll_eq_iff f g head, mapNamesAll_eq_iff f g between,
      mapNamesAll_eq_iff f g clause, or_imp, forall_and]
  | block head attributes body =>
    simp [mapNames, mentions, mapNamesAll_eq_iff f g head, mapNamesAll_eq_iff f g attributes,
      mapNamesAll_eq_iff f g body, or_imp, forall_and]

theorem mapNamesAll_eq_iff (f g : Mention → String) (trees : List Tree) :
    mapNamesAll f trees = mapNamesAll g trees ↔ ∀ m ∈ mentionsOf trees, f m = g m := by
  cases trees with
  | nil => simp [mapNamesAll, mentionsOf]
  | cons tree rest =>
    simp [mapNamesAll, mentionsOf, mapNames_eq_iff f g tree, mapNamesAll_eq_iff f g rest, or_imp,
      forall_and]

end

end Tree

namespace Renaming

def ofMention (r : Renaming) (names : GenericNames) : Mention → String
  | .value name => r.ofValue names name
  | .lifetime name => r.ofLifetime names name

theorem head_eq_mapHead (r : Renaming) (names : GenericNames) (segments : List Tree) :
    r.head names segments = Tree.mapHead (r.ofMention names) segments := by
  cases segments with
  | nil => rfl
  | cons tree rest => cases tree <;> rfl

mutual

theorem apply_eq_mapNames (r : Renaming) (names : GenericNames) (tree : Tree) :
    r.apply names tree = tree.mapNames (r.ofMention names) := by
  cases tree with
  | token t => rfl
  | lifetime name => rfl
  | group delimiter children =>
    simp only [apply, Tree.mapNames, applyAll_eq_mapNamesAll r names children]
  | seq children => simp only [apply, Tree.mapNames, applyAll_eq_mapNamesAll r names children]
  | path isGlobal segments =>
    simp only [apply, Tree.mapNames, applyAll_eq_mapNamesAll r names segments, head_eq_mapHead]
  | segment name args => simp only [apply, Tree.mapNames, applyAll_eq_mapNamesAll r names args]
  | arguments turbofish items trailing =>
    simp only [apply, Tree.mapNames, applyAll_eq_mapNamesAll r names items]
  | qualified selfType traitPath rest =>
    simp only [apply, Tree.mapNames, apply_eq_mapNames r names selfType,
      applyAll_eq_mapNamesAll r names traitPath, applyAll_eq_mapNamesAll r names rest]
  | record target body =>
    simp only [apply, Tree.mapNames, apply_eq_mapNames r names target,
      applyAll_eq_mapNamesAll r names body]
  | initializer attributes member value =>
    simp only [apply, Tree.mapNames, applyAll_eq_mapNamesAll r names attributes,
      applyAll_eq_mapNamesAll r names value]
  | constrained head between clause =>
    simp only [apply, Tree.mapNames, applyAll_eq_mapNamesAll r names head,
      applyAll_eq_mapNamesAll r names between, applyAll_eq_mapNamesAll r names clause]
  | block head attributes body =>
    simp only [apply, Tree.mapNames, applyAll_eq_mapNamesAll r names head,
      applyAll_eq_mapNamesAll r names attributes, applyAll_eq_mapNamesAll r names body]

theorem applyAll_eq_mapNamesAll (r : Renaming) (names : GenericNames) (trees : List Tree) :
    r.applyAll names trees = Tree.mapNamesAll (r.ofMention names) trees := by
  cases trees with
  | nil => rfl
  | cons tree rest =>
    simp only [applyAll, Tree.mapNamesAll, apply_eq_mapNames r names tree,
      applyAll_eq_mapNamesAll r names rest]

end

end Renaming

section Predicates

/-- The predicate with new names. -/
def WherePredicate.renamed (f : Mention → String) : WherePredicate → WherePredicate
  | lifetime name bounds trailing =>
    .lifetime (f (.lifetime name)) (bounds.map fun b => f (.lifetime b)) trailing
  | type binder bounded bounds trailing =>
    .type (binder.map (Tree.mapNames f)) (bounded.mapNames f) (bounds.map (Tree.mapNames f))
      trailing

variable {f : Mention → String}

theorem mapNamesAll_sumTree (bounds : List Tree) (trailing : Bool) :
    Tree.mapNamesAll f (sumTree bounds trailing) =
      sumTree (bounds.map (Tree.mapNames f)) trailing := by
  have kept := Tree.mapNames_operator f "+"
  rw [Tree.mapNamesAll_eq_map, sumTree, sumTree, List.map_append, Tree.map_separated _ kept,
    List.isEmpty_map]
  split <;> simp [kept]

theorem WherePredicate.tree_renamed (predicate : WherePredicate) :
    (predicate.renamed f).tree = predicate.tree.mapNames f := by
  cases predicate with
  | lifetime name bounds trailing =>
    simp only [renamed, tree, Tree.mapNames, Tree.mapNamesAll, Tree.mapNames_operator,
      mapNamesAll_sumTree, List.map_map]
    rfl
  | type binder bounded bounds trailing =>
    simp only [renamed, tree, Tree.mapNames, Tree.mapNamesAll_eq_map, List.map_append,
      List.map_cons, Tree.mapNames_operator, ← mapNamesAll_sumTree]
    cases binder <;> rfl

end Predicates

end Forwarding
