import Forwarding.Grammar.Parser
import Forwarding.Proofs.Relexing
/-!
The tokens of trees that hold other trees. Lists of trees are printed as parts with a separator
between them; generic arguments are printed in their order if the lifetimes among them come first.
-/

namespace Forwarding

theorem Token.length_le_separated (separator : String) (trailing : Bool)
    {parts : List (List Token)} {part : List Token} (member : part ∈ parts) :
    part.length ≤ (Token.separated separator trailing parts).length := by
  induction parts with
  | nil => cases member
  | cons first parts ih =>
    rw [Token.separated, List.length_append]
    rcases List.mem_cons.mp member with rfl | later
    · exact Nat.le_add_right _ _
    · have := ih later
      rw [if_neg (by cases parts <;> simp_all), List.length_append]
      omega

namespace Tree

theorem tokensEach_eq_map (trees : List Tree) : tokensEach trees = trees.map tokens := by
  induction trees with
  | nil => rfl
  | cons tree rest ih => rw [tokensEach, ih, List.map_cons]

theorem tokensMarked_eq_map (trees : List Tree) :
    tokensMarked trees = trees.map fun tree => (tree.isLifetime, tree.tokens) := by
  induction trees with
  | nil => rfl
  | cons tree rest ih => rw [tokensMarked, ih, List.map_cons]

theorem joinColons_eq_separated (parts : List (List Token)) :
    joinColons parts = Token.separated "::" false parts := by
  induction parts with
  | nil => rfl
  | cons part parts ih =>
    cases parts with
    | nil => simp [joinColons, Token.separated]
    | cons next parts => 
      rw [joinColons.eq_3 _ _ (by simp), ih, Token.separated.eq_2 "::" false part,
        List.append_assoc]
      rfl

/-- Items with their commas, in the order in which they stand. -/
theorem flatMap_mapIdx_eq_separated {items : List (Bool × List Token)} {trailing : Bool}
    {total skipped : Nat} (all : total = items.length + skipped) :
    (items.mapIdx fun i item => (item.1, item.2, trailing || decide (i + skipped + 1 < total))).flatMap
        (fun item => item.2.1 ++ if item.2.2 then [.punct ',' false] else []) =
      Token.separated "," trailing (items.map Prod.snd) := by
  induction items generalizing skipped with
  | nil => rfl
  | cons item items ih =>
    rw [List.mapIdx_cons, List.flatMap_cons, List.map_cons, Token.separated]
    rw [List.length_cons] at all
    have shift : (fun i item => (item.1, item.2, trailing || decide (i + 1 + skipped + 1 < total))) =
        fun i (item : Bool × List Token) =>
          (item.1, item.2, trailing || decide (i + (skipped + 1) + 1 < total)) := by
      funext i item
      rw [Nat.add_right_comm i 1 skipped, Nat.add_assoc i skipped 1]
    rw [shift, ih (by omega)]
    cases items with
    | nil => 
      cases trailing with
      | true => simp [Token.separated, Token.operator, Token.operatorChars]
      | false =>
        have alone : ¬ 0 + skipped + 1 < total := by rw [List.length_nil] at all; omega
        simp only [alone, decide_false, Bool.or_self]
        simp [Token.separated]
    | cons next items =>
      have more : 0 + skipped + 1 < total := by rw [List.length_cons] at all; omega
      simp only [more, decide_true, Bool.or_true, if_true]
      simp [Token.operator, Token.operatorChars]

/-- Arguments of which the lifetimes come first are printed in their order. -/
theorem lifetimesFirst_of_sorted {lifetimes others : List (Bool × List Token)} {trailing : Bool}
    (first : ∀ item ∈ lifetimes, item.1 = true) (last : ∀ item ∈ others, item.1 = false) :
    lifetimesFirst (lifetimes ++ others) trailing =
      Token.separated "," trailing ((lifetimes ++ others).map Prod.snd) := by
  have all : (lifetimes ++ others).length = (lifetimes ++ others).length + 0 := rfl
  rw [← flatMap_mapIdx_eq_separated all, lifetimesFirst]
  dsimp only
  rw [List.mapIdx_append, List.filter_append, List.filter_append]
  generalize sameL : lifetimes.mapIdx _ = before
  generalize sameO : others.mapIdx _ = behind
  have firsts : ∀ item ∈ before, item.1 = true := by
    rw [← sameL]
    intro item member
    obtain ⟨i, inside, rfl⟩ := List.mem_mapIdx.mp member
    exact first _ (List.getElem_mem _)
  have lasts : ∀ item ∈ behind, item.1 = false := by
    rw [← sameO]
    intro item member
    obtain ⟨i, inside, rfl⟩ := List.mem_mapIdx.mp member
    exact last _ (List.getElem_mem _)
  have parted : others ≠ [] → ∀ item ∈ before, item.2.2 = true := by
    rw [← sameL]
    intro some item member
    obtain ⟨i, inside, rfl⟩ := List.mem_mapIdx.mp member
    have := List.length_pos_iff.mpr some
    have below : i + 1 < (lifetimes ++ others).length := by rw [List.length_append]; omega
    simp only [below, decide_true, Bool.or_true]
  have same : behind = [] ↔ others = [] := by rw [← sameO, List.mapIdx_eq_nil_iff]
  have kept : before.filter (·.1) = before := List.filter_eq_self.mpr firsts
  have dropped : behind.filter (·.1) = [] :=
    List.filter_eq_nil_iff.mpr fun item member => by simp [lasts item member]
  have dropped' : before.filter (!·.1) = [] :=
    List.filter_eq_nil_iff.mpr fun item member => by simp [firsts item member]
  have kept' : behind.filter (!·.1) = behind :=
    List.filter_eq_self.mpr fun item member => by simp [lasts item member]
  rw [kept, dropped, dropped', kept', List.append_nil, List.nil_append, List.flatMap_append,
    if_neg, List.append_nil]
  intro opens
  rw [Bool.and_eq_true, Bool.not_eq_true', List.isEmpty_eq_false_iff, Ne, same] at opens
  obtain ⟨opens, some⟩ := opens
  split at opens
  · rename_i separated given
    have := parted some _ (List.mem_of_getLast? given)
    simp_all
  · cases opens
theorem tokens_path (isGlobal : Bool) (segments : List Tree) :
    (path isGlobal segments).tokens = (if isGlobal then Token.operator "::" else [])
      ++ Token.separated "::" false (segments.map tokens) := by
  rw [tokens, joinColons_eq_separated, tokensEach_eq_map]

theorem tokensOf_join (separator : String) (trees : List Tree) (trailing : Bool) :
    tokensOf (Grammar.Parser.join separator trees trailing) =
      Token.separated separator trailing (trees.map tokens) := by
  induction trees with
  | nil => simp [Grammar.Parser.join, separated, tokensOf, Token.separated]
  | cons tree rest ih =>
    cases rest with
    | nil =>
      cases trailing <;>
        simp [Grammar.Parser.join, separated, tokensOf, Token.separated, tokens_operator]
    | cons next rest =>
      have step : Grammar.Parser.join separator (tree :: next :: rest) trailing =
          tree :: operator separator :: Grammar.Parser.join separator (next :: rest) trailing := rfl
      rw [step, tokensOf, tokensOf, ih, tokens_operator, List.map_cons, List.map_cons,
        Token.separated.eq_2 separator trailing tree.tokens]
      rfl

theorem tokens_reference (name : Option String) (mutable : Bool) (target : Tree) :
    (seq (operator "&" :: ((name.map lifetime).toList
        ++ (if mutable then some (word "mut") else none).toList ++ [target]))).tokens =
      .punct '&' false :: ((name.map Token.lifetime).getD [] ++
        ((if mutable then [.ident "mut"] else []) ++ target.tokens)) := by
  cases name <;> cases mutable <;>
    simp [tokens, tokensOf, word, tokens_operator, Token.operator, Token.operatorChars]

theorem tokens_pointer (text : String) (target : Tree) :
    (seq [operator "*", word text, target]).tokens =
      .punct '*' false :: .ident text :: target.tokens := by
  simp [tokens, tokensOf, word, tokens_operator, Token.operator, Token.operatorChars]

end Tree

end Forwarding
