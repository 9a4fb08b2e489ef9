import Forwarding.Proofs.Trees
import Forwarding.Scan.Constructor
import Mathlib.Data.List.Basic
/-!
Struct literals in a text. A tree is printed with a mark where each struct literal in it starts.
Without the marks the text is what is printed, and behind each mark stand the tokens of its literal,
so the order of the marks is the order in which the literals start.
-/

namespace Forwarding

section Arranging

variable {α β : Type}

/-- Items with their commas, lifetimes first, whatever they are made of. -/
def arranged (comma : List α) (items : List (Bool × List α)) (trailing : Bool) : List α :=
  let marked := items.mapIdx fun i item => (item.1, item.2, trailing || i + 1 < items.length)
  let lifetimes := marked.filter (·.1)
  let others := marked.filter (!·.1)
  let put := fun item : Bool × List α × Bool => item.2.1 ++ (if item.2.2 then comma else [])
  let open? := (lifetimes.getLast?.map fun item => !item.2.2).getD false
  lifetimes.flatMap put ++ (if open? && !others.isEmpty then comma else []) ++ others.flatMap put

theorem Tree.lifetimesFirst_eq_arranged (items : List (Bool × List Token)) (trailing : Bool) :
    lifetimesFirst items trailing = arranged [.punct ',' false] items trailing := by
  unfold lifetimesFirst arranged
  dsimp only
  generalize (List.filter _ _).getLast? = last
  cases last <;> rfl

theorem flatMap_arranged (f : α → List β) (comma : List α) (items : List (Bool × List α))
    (trailing : Bool) :
    (arranged comma items trailing).flatMap f =
      arranged (comma.flatMap f) (items.map (Prod.map id (·.flatMap f))) trailing := by
  let inside : Bool × List α × Bool → Bool × List β × Bool := Prod.map id (Prod.map (·.flatMap f) id)
  have marked : (items.map (Prod.map id (·.flatMap f))).mapIdx (fun i item =>
      (item.1, item.2, trailing || decide (i + 1 < (items.map (Prod.map id (·.flatMap f))).length))) =
      (items.mapIdx fun i item =>
        (item.1, item.2, trailing || decide (i + 1 < items.length))).map inside := by
    rw [List.length_map]
    refine List.ext_getElem (by simp) fun i _ _ => ?_
    simp [inside]
  unfold arranged
  dsimp only
  rw [marked]
  generalize (items.mapIdx fun i item =>
    (item.1, item.2, trailing || decide (i + 1 < items.length))) = marked
  rw [List.filter_map, List.filter_map]
  have kept : ((fun item : Bool × List β × Bool => item.1) ∘ inside) = fun item => item.1 := rfl
  have kept' : ((fun item : Bool × List β × Bool => !item.1) ∘ inside) = fun item => !item.1 := rfl
  rw [kept, kept']
  generalize marked.filter (·.1) = lifetimes
  generalize marked.filter (!·.1) = others
  have put (l : List (Bool × List α × Bool)) :
      (l.flatMap fun item => item.2.1 ++ if item.2.2 = true then comma else []).flatMap f =
        (l.map inside).flatMap fun item =>
          item.2.1 ++ if item.2.2 = true then comma.flatMap f else [] := by
    rw [List.flatMap_assoc, List.flatMap_map]
    refine List.flatMap_congr fun item _ => ?_
    rw [List.flatMap_append]
    cases separated : item.2.2 <;> simp [inside, separated]
  rw [List.flatMap_append, List.flatMap_append, put, put, List.getLast?_map, List.isEmpty_map]
  congr 2
  cases lifetimes.getLast? with
  | none => simp
  | some last =>
    cases separated : last.2.2 <;> cases others.isEmpty <;> simp [inside, separated]

/-- Nothing is left of the commas, and nothing of the lifetimes. -/
theorem arranged_nil {items : List (Bool × List α)} {trailing : Bool}
    (none : ∀ item ∈ items, item.1 = true → item.2 = []) :
    arranged [] items trailing = items.flatMap (·.2) := by
  unfold arranged
  dsimp only
  simp only [ite_self, List.append_nil]
  generalize trailings : (fun i => trailing || decide (i + 1 < items.length)) = separated
  have shape : (items.mapIdx fun i item => (item.1, item.2, separated i)).map
      (fun item => (item.1, item.2.1)) = items := by
    refine List.ext_getElem (by simp) fun i _ _ => ?_
    simp
  have same (i : Nat) : (trailing || decide (i + 1 < items.length)) = separated i :=
    congrFun trailings i
  simp only [same]
  generalize items.mapIdx (fun i item => (item.1, item.2, separated i)) = marked at shape
  subst shape
  clear trailings same separated
  induction marked with
  | nil => rfl
  | cons item marked ih =>
    have later := ih fun other member => none other (List.mem_cons_of_mem _ member)
    have own := none (item.1, item.2.1) (by simp)
    rw [List.map_cons, List.flatMap_cons, ← later]
    cases first : item.1 with
    | true =>
      have empty := own first
      simp_all
    | false =>
      have lifetimes (l : List (Bool × List α × Bool))
          (empty : ∀ item ∈ l, item.1 = true → item.2.1 = []) :
          (l.filter (·.1)).flatMap (·.2.1) = [] := by
        rw [List.flatMap_eq_nil_iff]
        intro item member
        obtain ⟨member, marked⟩ := List.mem_filter.mp member
        exact empty item member marked
      have nothing := lifetimes marked fun item member =>
        none (item.1, item.2.1) (List.mem_cons_of_mem _ (List.mem_map.mpr ⟨item, member, rfl⟩))
      simp [first, nothing]

end Arranging

/-- Parts with the same tokens between each two neighbours. -/
def joined {α : Type} (separator : List α) : List (List α) → List α
  | [] => []
  | [part] => part
  | part :: rest => part ++ separator ++ joined separator rest

theorem Tree.joinColons_eq_joined (parts : List (List Token)) :
    joinColons parts = joined (Token.operator "::") parts := by
  fun_induction joinColons parts with
  | case1 => rfl
  | case2 => rfl
  | case3 part rest some ih => rw [joined.eq_3 _ _ _ some, ih]

theorem flatMap_joined {α β : Type} (f : α → List β) (separator : List α) (parts : List (List α)) :
    (joined separator parts).flatMap f =
      joined (separator.flatMap f) (parts.map (·.flatMap f)) := by
  fun_induction joined separator parts with
  | case1 => rfl
  | case2 => rfl
  | case3 part rest some ih =>
    rw [List.map_cons, joined.eq_3 _ _ _ (by simpa using some), List.flatMap_append,
      List.flatMap_append, ih]

theorem joined_nil {α : Type} (parts : List (List α)) : joined [] parts = parts.flatten := by
  fun_induction joined [] parts with
  | case1 => rfl
  | case2 => simp
  | case3 part rest some ih => simp [ih]

/-- A token of a text, or the place where a struct literal starts. -/
inductive Mark where
  | token (token : Token)
  | literal (target : Tree) (body : List Tree)

namespace Mark

/-- Tokens without a mark between them. -/
def plain (tokens : List Token) : List Mark :=
  tokens.map token

/-- What is printed: a mark is not. -/
def printed : Mark → List Token
  | token t => [t]
  | literal _ _ => []

/-- The initializers of an accepted struct literal that starts here. -/
def accepted (accepts : String → Bool) : Mark → List (List Tree)
  | token _ => []
  | literal target body => if target.builds accepts then [body] else []

@[simp]
theorem flatMap_printed_plain (tokens : List Token) : (plain tokens).flatMap printed = tokens := by
  simp [plain, List.flatMap_map, printed]

@[simp]
theorem flatMap_accepted_plain (accepts : String → Bool) (tokens : List Token) :
    (plain tokens).flatMap (accepted accepts) = [] := by
  simp [plain, List.flatMap_map, accepted]

end Mark

namespace Tree

mutual

/-- The printed text of a tree with a mark where each struct literal starts. -/
def marked : Tree → List Mark
  | token t => [.token t]
  | lifetime name => Mark.plain (Token.lifetime name)
  | group delimiter children =>
    .token (.opening delimiter) :: (markedOf children ++ [.token (.closing delimiter)])
  | seq children => markedOf children
  | path isGlobal segments =>
    (if isGlobal then Mark.plain (Token.operator "::") else [])
      ++ joined (Mark.plain (Token.operator "::")) (markedEach segments)
  | segment name args => .token (.ident name) :: markedOf args
  | arguments turbofish items trailing =>
    (if turbofish then Mark.plain (Token.operator "::") else []) ++ Mark.plain (Token.operator "<")
      ++ arranged (Mark.plain [.punct ',' false]) (markedItems items) trailing
      ++ Mark.plain (Token.operator ">")
  | qualified selfType traitPath rest =>
    Mark.plain (Token.operator "<") ++ marked selfType
      ++ (if traitPath.isEmpty then [] else .token (.ident "as") :: markedOf traitPath)
      ++ Mark.plain (Token.operator ">") ++ Mark.plain (Token.operator "::")
      ++ joined (Mark.plain (Token.operator "::")) (markedEach rest)
  | record target body =>
    .literal target body :: (marked target
      ++ .token (.opening .brace) :: (markedOf body ++ [.token (.closing .brace)]))
  | initializer attributes member value =>
    markedOf attributes ++ .token member
      :: (if value.isEmpty then [] else Mark.plain (Token.operator ":")) ++ markedOf value
  | constrained head between clause => markedOf head ++ (markedOf between ++ markedOf clause)
  | block head attributes body =>
    markedOf head ++ .token (.opening .brace)
      :: (markedOf attributes ++ markedOf body ++ [.token (.closing .brace)])

/-- The same for trees one after another. -/
def markedOf : List Tree → List Mark
  | [] => []
  | tree :: rest => marked tree ++ markedOf rest

/-- The same for each of some trees. -/
def markedEach : List Tree → List (List Mark)
  | [] => []
  | tree :: rest => marked tree :: markedEach rest

/-- The same for each of some trees, with the mark of a lifetime. -/
def markedItems : List Tree → List (Bool × List Mark)
  | [] => []
  | tree :: rest => (tree.isLifetime, marked tree) :: markedItems rest

end

theorem markedItems_eq_map (trees : List Tree) :
    markedItems trees = trees.map fun tree => (tree.isLifetime, tree.marked) := by
  induction trees with
  | nil => rfl
  | cons tree rest ih => rw [markedItems, ih, List.map_cons]

mutual

/-- Without its marks the text is what is printed. -/
theorem printed_marked (tree : Tree) : tree.marked.flatMap Mark.printed = tree.tokens := by
  cases tree with
  | token t => rfl
  | lifetime name => exact Mark.flatMap_printed_plain _
  | group delimiter children =>
    simp [marked, tokens, Mark.printed, printed_markedOf children]
  | seq children => simp [marked, tokens, printed_markedOf children]
  | path isGlobal segments =>
    have inside : (markedEach segments).map (·.flatMap Mark.printed) = tokensEach segments :=
      printed_markedEach segments
    cases isGlobal <;> simp [marked, tokens, flatMap_joined, inside, joinColons_eq_joined]
  | segment name args => simp [marked, tokens, Mark.printed, printed_markedOf args]
  | arguments turbofish items trailing =>
    have inside := printed_markedItems items
    cases turbofish <;>
      simp [marked, tokens, flatMap_arranged, inside, lifetimesFirst_eq_arranged]
  | qualified selfType traitPath rest =>
    have inside : (markedEach rest).map (·.flatMap Mark.printed) = tokensEach rest :=
      printed_markedEach rest
    cases empty : traitPath.isEmpty <;>
      simp [marked, tokens, Mark.printed, empty, flatMap_joined, inside, joinColons_eq_joined,
        printed_marked selfType, printed_markedOf traitPath]
  | record target body =>
    simp [marked, tokens, Mark.printed, printed_marked target, printed_markedOf body]
  | initializer attributes member value =>
    cases empty : value.isEmpty <;>
      simp [marked, tokens, Mark.printed, empty, printed_markedOf attributes,
        printed_markedOf value]
  | constrained head between clause =>
    simp [marked, tokens, printed_markedOf head, printed_markedOf between, printed_markedOf clause]
  | block head attributes body =>
    simp [marked, tokens, Mark.printed, printed_markedOf head, printed_markedOf attributes,
      printed_markedOf body]

theorem printed_markedOf (trees : List Tree) :
    (markedOf trees).flatMap Mark.printed = tokensOf trees := by
  cases trees with
  | nil => rfl
  | cons tree rest =>
    rw [markedOf, List.flatMap_append, printed_marked tree, printed_markedOf rest, tokensOf]

theorem printed_markedEach (trees : List Tree) :
    (markedEach trees).map (·.flatMap Mark.printed) = tokensEach trees := by
  cases trees with
  | nil => rfl
  | cons tree rest =>
    rw [markedEach, List.map_cons, printed_marked tree, printed_markedEach rest, tokensEach]

theorem printed_markedItems (trees : List Tree) :
    (markedItems trees).map (Prod.map id (·.flatMap Mark.printed)) = tokensMarked trees := by
  cases trees with
  | nil => rfl
  | cons tree rest =>
    rw [markedItems, List.map_cons, printed_markedItems rest, tokensMarked, ← printed_marked tree]
    rfl

end

end Tree

namespace Mark

/-- Each literal is marked where its own tokens begin. -/
def Placed (marks : List Mark) : Prop :=
  ∀ before target body after, marks = before ++ literal target body :: after →
    (Tree.record target body).tokens <+: after.flatMap printed

theorem Placed.append {first last : List Mark} (here : Placed first) (later : Placed last) :
    Placed (first ++ last) := by
  intro before target body after split
  rcases List.append_eq_append_iff.mp split with ⟨more, rfl, same⟩ | ⟨more, rfl, same⟩
  · exact later more target body after same
  · cases more with
    | nil => exact later [] target body after same.symm
    | cons mark more =>
      rw [List.cons_append, List.cons.injEq] at same
      obtain ⟨rfl, rfl⟩ := same
      rw [List.flatMap_append]
      exact (here before target body more rfl).trans (List.prefix_append _ _)

theorem placed_nil : Placed [] := by
  intro before target body after split
  cases before <;> cases split

theorem Placed.token {marks : List Mark} (t : Token) (later : Placed marks) :
    Placed (.token t :: marks) := by
  intro before target body after split
  cases before with
  | nil => cases split
  | cons mark before =>
    rw [List.cons_append, List.cons.injEq] at split
    exact later before target body after split.2

theorem Placed.literal {target : Tree} {body : List Tree} {marks : List Mark}
    (own : marks.flatMap printed = (Tree.record target body).tokens) (later : Placed marks) :
    Placed (.literal target body :: marks) := by
  intro before target' body' after split
  cases before with
  | nil =>
    cases split
    exact own ▸ List.prefix_refl _
  | cons mark before =>
    rw [List.cons_append, List.cons.injEq] at split
    exact later before target' body' after split.2

theorem placed_plain (tokens : List Token) : Placed (plain tokens) := by
  induction tokens with
  | nil => exact placed_nil
  | cons t tokens ih => exact ih.token t

theorem placed_flatMap {α : Type} {f : α → List Mark} {l : List α}
    (each : ∀ a ∈ l, Placed (f a)) : Placed (l.flatMap f) := by
  induction l with
  | nil => exact placed_nil
  | cons a l ih =>
    exact (each a List.mem_cons_self).append (ih fun b member => each b (List.mem_cons_of_mem _ member))

theorem placed_joined {separator : List Mark} {parts : List (List Mark)} (apart : Placed separator)
    (each : ∀ part ∈ parts, Placed part) : Placed (joined separator parts) := by
  fun_induction joined separator parts with
  | case1 => exact placed_nil
  | case2 part => exact each part List.mem_cons_self
  | case3 part rest some ih =>
    exact ((each part List.mem_cons_self).append apart).append
      (ih fun p member => each p (List.mem_cons_of_mem _ member))

theorem placed_arranged {comma : List Mark} {items : List (Bool × List Mark)} {trailing : Bool}
    (apart : Placed comma) (each : ∀ item ∈ items, Placed item.2) :
    Placed (arranged comma items trailing) := by
  have put : ∀ item ∈ items.mapIdx (fun i item =>
      (item.1, item.2, trailing || decide (i + 1 < items.length))),
      Placed (item.2.1 ++ if item.2.2 = true then comma else []) := by
    intro item member
    obtain ⟨i, inside, rfl⟩ := List.mem_mapIdx.mp member
    refine (each _ (List.getElem_mem inside)).append ?_
    split
    · exact apart
    · exact placed_nil
  refine ((placed_flatMap fun item member => put item (List.mem_of_mem_filter member)).append ?_).append
    (placed_flatMap fun item member => put item (List.mem_of_mem_filter member))
  split
  · exact apart
  · exact placed_nil

end Mark

namespace Tree

open Mark

mutual

theorem placed_marked (tree : Tree) : Placed tree.marked := by
  cases tree with
  | token t => exact placed_nil.token t
  | lifetime name => exact placed_plain _
  | group delimiter children =>
    exact ((placed_markedOf children).append (placed_nil.token _)).token _
  | seq children => exact placed_markedOf children
  | path isGlobal segments =>
    refine .append ?_ (placed_joined (placed_plain _) (placed_markedEach segments))
    split
    · exact placed_plain _
    · exact placed_nil
  | segment name args => exact (placed_markedOf args).token _
  | arguments turbofish items trailing =>
    refine .append (.append (.append ?_ (placed_plain _))
      (placed_arranged (placed_plain _) (placed_markedItems items))) (placed_plain _)
    split
    · exact placed_plain _
    · exact placed_nil
  | qualified selfType traitPath rest =>
    refine .append (.append (.append (.append ((placed_plain _).append (placed_marked selfType)) ?_)
      (placed_plain _)) (placed_plain _)) (placed_joined (placed_plain _) (placed_markedEach rest))
    split
    · exact placed_nil
    · exact (placed_markedOf traitPath).token _
  | record target body =>
    have inside := (placed_marked target).append
      (((placed_markedOf body).append (placed_nil.token (.closing .brace))).token (.opening .brace))
    refine inside.literal ?_
    simp [tokens, Mark.printed, printed_marked, printed_markedOf]
  | initializer attributes member value =>
    refine .append ((placed_markedOf attributes).append (.token _ ?_)) (placed_markedOf value)
    split
    · exact placed_nil
    · exact placed_plain _
  | constrained head between clause =>
    exact (placed_markedOf head).append
      ((placed_markedOf between).append (placed_markedOf clause))
  | block head attributes body =>
    exact (placed_markedOf head).append ((((placed_markedOf attributes).append
      (placed_markedOf body)).append (placed_nil.token _)).token _)

theorem placed_markedOf (trees : List Tree) : Placed (markedOf trees) := by
  cases trees with
  | nil => exact placed_nil
  | cons tree rest => exact (placed_marked tree).append (placed_markedOf rest)

theorem placed_markedEach (trees : List Tree) : ∀ part ∈ markedEach trees, Placed part := by
  cases trees with
  | nil => simp [markedEach]
  | cons tree rest =>
    simpa only [markedEach, List.forall_mem_cons] using
      ⟨placed_marked tree, placed_markedEach rest⟩

theorem placed_markedItems (trees : List Tree) : ∀ item ∈ markedItems trees, Placed item.2 := by
  cases trees with
  | nil => simp [markedItems]
  | cons tree rest =>
    simpa only [markedItems, List.forall_mem_cons] using
      ⟨placed_marked tree, placed_markedItems rest⟩

end

end Tree

end Forwarding
