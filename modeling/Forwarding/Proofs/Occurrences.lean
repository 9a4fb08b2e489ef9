import Forwarding.Proofs.LiteralMarks
import Forwarding.Proofs.Renaming
/-!
Names in a text. What is printed of a tree is made of pieces: tokens of the tree's own, and the names
that it mentions. Other names take the places of the old ones and change nothing else.
-/

namespace Forwarding

section Arranging

variable {α β : Type}

theorem map_arranged (f : α → β) (comma : List α) (items : List (Bool × List α))
    (trailing : Bool) :
    (arranged comma items trailing).map f =
      arranged (comma.map f) (items.map (Prod.map id (·.map f))) trailing := by
  simp only [List.map_eq_flatMap, flatMap_arranged]

theorem map_joined (f : α → β) (separator : List α) (parts : List (List α)) :
    (joined separator parts).map f = joined (separator.map f) (parts.map (·.map f)) := by
  simp only [List.map_eq_flatMap, flatMap_joined]

/-- Every item is printed, with or without a comma, among the lifetimes or among the others. -/
theorem mem_arranged {comma : List α} {items : List (Bool × List α)} {trailing : Bool}
    {item : Bool × List α} (member : item ∈ items) {a : α} (inside : a ∈ item.2) :
    a ∈ arranged comma items trailing := by
  obtain ⟨i, listed, rfl⟩ := List.mem_iff_getElem.mp member
  have marked : (items[i].1, items[i].2, trailing || decide (i + 1 < items.length)) ∈
      items.mapIdx fun i item => (item.1, item.2, trailing || decide (i + 1 < items.length)) :=
    List.mem_mapIdx.mpr ⟨i, listed, rfl⟩
  unfold arranged
  simp only [List.mem_append, List.mem_flatMap, List.mem_filter]
  cases sort : items[i].1 with
  | true => exact .inl (.inl ⟨_, ⟨marked, sort⟩, .inl inside⟩)
  | false => exact .inr ⟨_, ⟨marked, by rw [sort]; rfl⟩, .inl inside⟩

theorem mem_joined {separator : List α} {parts : List (List α)} {part : List α}
    (member : part ∈ parts) {a : α} (inside : a ∈ part) : a ∈ joined separator parts := by
  fun_induction joined separator parts with
  | case1 => cases member
  | case2 only => rwa [List.mem_singleton.mp member] at inside
  | case3 first rest some ih =>
    rcases List.mem_cons.mp member with rfl | later
    · exact List.mem_append_left _ (List.mem_append_left _ inside)
    · exact List.mem_append_right _ (ih later)

end Arranging

/-- A token of a text, or a name that the text mentions. -/
inductive Piece where
  | token (token : Token)
  | name (mention : Mention)

namespace Piece

/-- Tokens that are no names. -/
def plain (tokens : List Token) : List Piece :=
  tokens.map token

/-- The token that is printed of a piece. -/
def printed (f : Mention → String) : Piece → Token
  | token t => t
  | name m => .ident (f m)

@[simp]
theorem map_printed_plain (f : Mention → String) (tokens : List Token) :
    (plain tokens).map (printed f) = tokens := by
  simp [plain, Function.comp_def, printed]

end Piece

namespace Tree

/-- The parts of a path, by its segments: the first one begins with a name. -/
def nameHead : List Tree → List (List Piece) → List (List Piece)
  | segment name _ :: _, (_ :: args) :: rest => (.name (.value name) :: args) :: rest
  | _, parts => parts

mutual

/-- The pieces of which the text of a tree is made. -/
def pieces : Tree → List Piece
  | token t => [.token t]
  | lifetime name => [.token (.punct Token.apostrophe true), .name (.lifetime name)]
  | group delimiter children =>
    .token (.opening delimiter) :: (piecesOf children ++ [.token (.closing delimiter)])
  | seq children => piecesOf children
  | path isGlobal segments =>
    (if isGlobal then Piece.plain (Token.operator "::") else [])
      ++ joined (Piece.plain (Token.operator "::"))
        (if isGlobal then piecesEach segments else nameHead segments (piecesEach segments))
  | segment name args => .token (.ident name) :: piecesOf args
  | arguments turbofish items trailing =>
    (if turbofish then Piece.plain (Token.operator "::") else [])
      ++ Piece.plain (Token.operator "<")
      ++ arranged (Piece.plain [.punct ',' false]) (piecesMarked items) trailing
      ++ Piece.plain (Token.operator ">")
  | qualified selfType traitPath rest =>
    Piece.plain (Token.operator "<") ++ pieces selfType
      ++ (if traitPath.isEmpty then [] else .token (.ident "as") :: piecesOf traitPath)
      ++ Piece.plain (Token.operator ">") ++ Piece.plain (Token.operator "::")
      ++ joined (Piece.plain (Token.operator "::")) (piecesEach rest)
  | record target body =>
    pieces target ++ .token (.opening .brace) :: (piecesOf body ++ [.token (.closing .brace)])
  | initializer attributes member value =>
    piecesOf attributes ++ .token member
      :: (if value.isEmpty then [] else Piece.plain (Token.operator ":")) ++ piecesOf value
  | constrained head between clause => piecesOf head ++ (piecesOf between ++ piecesOf clause)
  | block head attributes body =>
    piecesOf head ++ .token (.opening .brace)
      :: (piecesOf attributes ++ piecesOf body ++ [.token (.closing .brace)])

/-- The same for trees one after another. -/
def piecesOf : List Tree → List Piece
  | [] => []
  | tree :: rest => pieces tree ++ piecesOf rest

/-- The same for each of some trees. -/
def piecesEach : List Tree → List (List Piece)
  | [] => []
  | tree :: rest => pieces tree :: piecesEach rest

/-- The same for each of some trees, with the mark of a lifetime. -/
def piecesMarked : List Tree → List (Bool × List Piece)
  | [] => []
  | tree :: rest => (tree.isLifetime, pieces tree) :: piecesMarked rest

end

section Printing

variable {f : Mention → String}

theorem tokensEach_mapHead {segments : List Tree}
    (inside : tokensEach (mapNamesAll f segments) =
      (piecesEach segments).map (·.map (Piece.printed f))) :
    tokensEach (mapHead f (mapNamesAll f segments)) =
      (nameHead segments (piecesEach segments)).map (·.map (Piece.printed f)) := by
  cases segments with
  | nil => rfl
  | cons tree rest =>
    -- only a segment begins with a name, the others are printed as they are
    cases tree with
    | segment name args =>
      rw [mapNamesAll, tokensEach, piecesEach, List.map_cons, List.cons.injEq] at inside
      obtain ⟨first, later⟩ := inside
      rw [pieces, mapNames, tokens, List.map_cons, List.cons.injEq] at first
      rw [mapNamesAll, mapNames, mapHead, tokensEach, tokens, first.2, later]
      rfl
    | _ => exact inside

mutual

/-- What is printed of a renamed tree are the pieces of the tree, its names replaced. -/
theorem tokens_mapNames (f : Mention → String) (tree : Tree) :
    (tree.mapNames f).tokens = tree.pieces.map (Piece.printed f) := by
  cases tree with
  | token t => rfl
  | lifetime name => rfl
  | group delimiter children =>
    simp [mapNames, tokens, pieces, Piece.printed, tokensOf_mapNamesAll f children]
  | seq children => simp [mapNames, tokens, pieces, tokensOf_mapNamesAll f children]
  | path isGlobal segments =>
    have inside := tokensEach_mapNamesAll f segments
    have first := tokensEach_mapHead inside
    cases isGlobal <;>
      simp [mapNames, tokens, pieces, map_joined, joinColons_eq_joined, inside, first]
  | segment name args =>
    simp [mapNames, tokens, pieces, Piece.printed, tokensOf_mapNamesAll f args]
  | arguments turbofish items trailing =>
    have inside := tokensMarked_mapNamesAll f items
    cases turbofish <;>
      simp [mapNames, tokens, pieces, map_arranged, lifetimesFirst_eq_arranged, inside]
  | qualified selfType traitPath rest =>
    have inside := tokensEach_mapNamesAll f rest
    have empty : (mapNamesAll f traitPath).isEmpty = traitPath.isEmpty := by
      cases traitPath <;> rfl
    cases sort : traitPath.isEmpty <;>
      simp [mapNames, tokens, pieces, Piece.printed, map_joined, joinColons_eq_joined, inside,
        empty, sort, tokens_mapNames f selfType, tokensOf_mapNamesAll f traitPath]
  | record target body =>
    simp [mapNames, tokens, pieces, Piece.printed, tokens_mapNames f target,
      tokensOf_mapNamesAll f body]
  | initializer attributes member value =>
    have empty : (mapNamesAll f value).isEmpty = value.isEmpty := by cases value <;> rfl
    cases sort : value.isEmpty <;>
      simp [mapNames, tokens, pieces, Piece.printed, empty, sort,
        tokensOf_mapNamesAll f attributes, tokensOf_mapNamesAll f value]
  | constrained head between clause =>
    simp [mapNames, tokens, pieces, tokensOf_mapNamesAll f head, tokensOf_mapNamesAll f between,
      tokensOf_mapNamesAll f clause]
  | block head attributes body =>
    simp [mapNames, tokens, pieces, Piece.printed, tokensOf_mapNamesAll f head,
      tokensOf_mapNamesAll f attributes, tokensOf_mapNamesAll f body]

theorem tokensOf_mapNamesAll (f : Mention → String) (trees : List Tree) :
    tokensOf (mapNamesAll f trees) = (piecesOf trees).map (Piece.printed f) := by
  cases trees with
  | nil => rfl
  | cons tree rest =>
    rw [mapNamesAll, tokensOf, piecesOf, List.map_append, tokens_mapNames f tree,
      tokensOf_mapNamesAll f rest]

theorem tokensEach_mapNamesAll (f : Mention → String) (trees : List Tree) :
    tokensEach (mapNamesAll f trees) = (piecesEach trees).map (·.map (Piece.printed f)) := by
  cases trees with
  | nil => rfl
  | cons tree rest =>
    rw [mapNamesAll, tokensEach, piecesEach, List.map_cons, tokens_mapNames f tree,
      tokensEach_mapNamesAll f rest]

theorem tokensMarked_mapNamesAll (f : Mention → String) (trees : List Tree) :
    tokensMarked (mapNamesAll f trees) =
      (piecesMarked trees).map (Prod.map id (·.map (Piece.printed f))) := by
  cases trees with
  | nil => rfl
  | cons tree rest =>
    rw [mapNamesAll, tokensMarked, piecesMarked, List.map_cons, tokens_mapNames f tree,
      tokensMarked_mapNamesAll f rest, isLifetime_mapNames]
    rfl

end

end Printing

section Mentioning

variable {m : Mention}

theorem mem_piecesOf {p : Piece} {tree : Tree} {trees : List Tree} (member : tree ∈ trees)
    (inside : p ∈ tree.pieces) : p ∈ piecesOf trees := by
  induction trees with
  | nil => cases member
  | cons first rest ih =>
    rw [piecesOf, List.mem_append]
    rcases List.mem_cons.mp member with rfl | later
    · exact .inl inside
    · exact .inr (ih later)

theorem piecesEach_eq_map (trees : List Tree) : piecesEach trees = trees.map pieces := by
  induction trees with
  | nil => rfl
  | cons tree rest ih => rw [piecesEach, ih, List.map_cons]

theorem piecesMarked_eq_map (trees : List Tree) :
    piecesMarked trees = trees.map fun tree => (tree.isLifetime, tree.pieces) := by
  induction trees with
  | nil => rfl
  | cons tree rest ih => rw [piecesMarked, ih, List.map_cons]

theorem mem_joined_piecesEach {separator : List Piece} {p : Piece} {tree : Tree}
    {trees : List Tree} (member : tree ∈ trees) (inside : p ∈ tree.pieces) :
    p ∈ joined separator (piecesEach trees) :=
  mem_joined (piecesEach_eq_map trees ▸ List.mem_map_of_mem member) inside

theorem name_mem_nameHead {tree : Tree} {segments : List Tree} (member : tree ∈ segments)
    (inside : .name m ∈ tree.pieces) :
    ∃ part ∈ nameHead segments (piecesEach segments), .name m ∈ part := by
  cases segments with
  | nil => cases member
  | cons first rest =>
    have listed : tree.pieces ∈ piecesEach (first :: rest) :=
      piecesEach_eq_map (first :: rest) ▸ List.mem_map_of_mem member
    cases first with
    | segment name args =>
      rw [piecesEach, pieces] at listed ⊢
      rcases List.mem_cons.mp listed with same | later
      · rw [same] at inside
        rcases List.mem_cons.mp inside with token | inside
        · cases token
        · exact ⟨_, List.mem_cons_self, List.mem_cons_of_mem _ inside⟩
      · exact ⟨_, List.mem_cons_of_mem _ later, inside⟩
    | _ => exact ⟨_, listed, inside⟩

theorem name_mem_nameHead_self {segments : List Tree} (mentioned : m ∈ headMentions segments) :
    ∃ part ∈ nameHead segments (piecesEach segments), .name m ∈ part := by
  cases segments with
  | nil => cases mentioned
  | cons first rest =>
    cases first with
    | segment name args =>
      obtain rfl := List.mem_singleton.mp mentioned
      exact ⟨_, List.mem_cons_self, List.mem_cons_self⟩
    | _ => cases mentioned

mutual

/-- Every name that a tree mentions is a piece of its text. -/
theorem name_mem_pieces {tree : Tree} (mentioned : m ∈ tree.mentions) :
    .name m ∈ tree.pieces := by
  cases tree with
  | token t => cases mentioned
  | lifetime name =>
    obtain rfl := List.mem_singleton.mp mentioned
    exact List.mem_cons_of_mem _ List.mem_cons_self
  | group delimiter children =>
    obtain ⟨tree, member, inside⟩ := name_mem_of_mentionsOf mentioned
    simp [pieces, mem_piecesOf member inside]
  | seq children =>
    obtain ⟨tree, member, inside⟩ := name_mem_of_mentionsOf mentioned
    exact mem_piecesOf member inside
  | path isGlobal segments =>
    rw [mentions, List.mem_append] at mentioned
    rw [pieces, List.mem_append]
    right
    cases isGlobal with
    | true =>
      obtain ⟨tree, member, inside⟩ :=
        name_mem_of_mentionsOf (mentioned.resolve_left List.not_mem_nil)
      exact mem_joined_piecesEach member inside
    | false =>
      have some : ∃ part ∈ nameHead segments (piecesEach segments), .name m ∈ part := by
        rcases mentioned with own | within
        · exact name_mem_nameHead_self own
        · obtain ⟨tree, member, inside⟩ := name_mem_of_mentionsOf within
          exact name_mem_nameHead member inside
      obtain ⟨part, member, inside⟩ := some
      exact mem_joined member inside
  | segment name args =>
    obtain ⟨tree, member, inside⟩ := name_mem_of_mentionsOf mentioned
    exact List.mem_cons_of_mem _ (mem_piecesOf member inside)
  | arguments turbofish items trailing =>
    obtain ⟨tree, member, inside⟩ := name_mem_of_mentionsOf mentioned
    have listed : (tree.isLifetime, tree.pieces) ∈ piecesMarked items :=
      piecesMarked_eq_map items ▸ List.mem_map.mpr ⟨tree, member, rfl⟩
    simp [pieces, mem_arranged listed inside]
  | qualified selfType traitPath rest =>
    rw [mentions, List.mem_append, List.mem_append] at mentioned
    rcases mentioned with (own | within) | within
    · simp [pieces, name_mem_pieces own]
    · obtain ⟨tree, member, inside⟩ := name_mem_of_mentionsOf within
      have some : traitPath.isEmpty = false := by cases member <;> rfl
      simp [pieces, some, mem_piecesOf member inside]
    · obtain ⟨tree, member, inside⟩ := name_mem_of_mentionsOf within
      simp [pieces, mem_joined_piecesEach member inside]
  | record target body =>
    rw [mentions, List.mem_append] at mentioned
    rcases mentioned with own | within
    · simp [pieces, name_mem_pieces own]
    · obtain ⟨tree, member, inside⟩ := name_mem_of_mentionsOf within
      simp [pieces, mem_piecesOf member inside]
  | initializer attributes member value =>
    rw [mentions, List.mem_append] at mentioned
    rcases mentioned with within | within <;>
      obtain ⟨tree, member, inside⟩ := name_mem_of_mentionsOf within <;>
      simp [pieces, mem_piecesOf member inside]
  | constrained head between clause =>
    rw [mentions, List.mem_append, List.mem_append] at mentioned
    rcases mentioned with (within | within) | within <;>
      obtain ⟨tree, member, inside⟩ := name_mem_of_mentionsOf within <;>
      simp [pieces, mem_piecesOf member inside]
  | block head attributes body =>
    rw [mentions, List.mem_append, List.mem_append] at mentioned
    rcases mentioned with (within | within) | within <;>
      obtain ⟨tree, member, inside⟩ := name_mem_of_mentionsOf within <;>
      simp [pieces, mem_piecesOf member inside]

theorem name_mem_of_mentionsOf {trees : List Tree} (mentioned : m ∈ mentionsOf trees) :
    ∃ tree ∈ trees, .name m ∈ tree.pieces := by
  cases trees with
  | nil => cases mentioned
  | cons tree rest =>
    rw [mentionsOf, List.mem_append] at mentioned
    rcases mentioned with own | later
    · exact ⟨tree, List.mem_cons_self, name_mem_pieces own⟩
    · obtain ⟨other, member, inside⟩ := name_mem_of_mentionsOf later
      exact ⟨other, List.mem_cons_of_mem _ member, inside⟩

end

end Mentioning

end Tree

end Forwarding
