import Forwarding.Grammar.Function
import Forwarding.Proofs.FollowingPatterns
/-!
Receivers. A parameter is read as a receiver if it can be, and as a pattern with a type otherwise. Where
a deeper grammar reads a receiver, the pattern is the word of it, so that a grammar which reads the type
after the pattern reads the receiver as well.
-/

namespace Forwarding.Grammar.Parser

variable {g g' : Grammar}

/-- What a type begins with. -/
def typeTests : List Expectation :=
  [.word "for", .group .parenthesis, .word "fn", .word "unsafe", .word "extern", .identifier,
    .operator "::", .operator "<", .word "super", .word "self", .word "Self", .word "crate",
    .word "dyn", .group .bracket, .operator "*", .operator "&", .operator "!", .word "impl",
    .word "_", .lifetime]

theorem sees_of_reads_typeOf {plus : Bool} {i k : Input} {a : Tree}
    (ran : Reads (typeOf g plus) i a k) : ∃ e ∈ typeTests, sees i.rest e = true := by
  by_contra none
  have unseen (e : Expectation) (member : e ∈ typeTests) : sees i.rest e = false :=
    Bool.not_eq_true _ ▸ fun met => none ⟨e, member, met⟩
  simp only [typeTests, List.mem_cons, List.not_mem_nil, or_false, forall_eq_or_imp,
    forall_eq] at unseen
  simp [typeOf, binder?, reads_bind, unseen, typePathWords] at ran

variable {i k : Input} {a : Pattern} {place after : Position} {joint : Bool} {before rest : List Lexeme}

/-- No type begins with dots. -/
theorem unseen_dots {e : Expectation} (listed : e ∈ typeTests) (met : sees rest e = true) :
    ¬ sees rest (.operator "...") = true := by
  intro dots
  have dots : (dropOperator ['.', '.', '.'] rest).isSome = true := dots
  rcases rest with _ | ⟨⟨token, place⟩ | _, more⟩
  · cases dots
  · cases token with
    | punct symbol joint =>
      obtain rfl : symbol = '.' := by
        by_contra other
        simp [dropOperator, other] at dots
      have noLifetime : dropLifetime (.leaf (.punct '.' joint) place :: more) = none := by
        have apart : '.' ≠ Token.apostrophe := by decide
        rcases joint <;> rcases more with _ | ⟨⟨_ | _, _⟩ | _, _⟩ <;> simp [dropLifetime, apart]
      simp only [typeTests, List.mem_cons, List.not_mem_nil, or_false] at listed
      rcases listed with rfl | rfl | rfl | rfl | rfl | rfl | rfl | rfl | rfl | rfl | rfl | rfl | rfl |
        rfl | rfl | rfl | rfl | rfl | rfl | rfl <;> simp [sees, dropOperator, noLifetime] at met
    | _ => cases dots
  · cases dots

theorem reads_bindingPattern_self
    (first : i.rest = before ++ .leaf (.ident "self") place :: .leaf (.punct ':' joint) after :: rest)
    (marked : before = [] ∨ ∃ start, before = [.leaf (.ident "mut") start])
    (ran : Reads (bindingPattern g) i a k) :
    k = { i with rest := .leaf (.punct ':' joint) after :: rest } := by
  have own : sees (.leaf (.ident "self") place :: .leaf (.punct ':' joint) after :: rest)
      (.word "self") = true := rfl
  have noAt : sees (.leaf (.punct ':' joint) after :: rest) (.operator "@") = false := rfl
  rcases marked with rfl | ⟨start, rfl⟩
  · have noRef : sees i.rest (.word "ref") = false := by rw [first]; rfl
    have noMark : sees i.rest (.word "mut") = false := by rw [first]; rfl
    rw [List.nil_append] at first
    rw [bindingPattern, reads_word?_bind_unseen noRef, reads_word?_bind_unseen noMark,
      reads_seesWord_bind, first, own, if_pos rfl, reads_anyWord_bind first,
      reads_seesOperator_bind, noAt, if_neg Bool.false_ne_true, reads_pure] at ran
    exact ran.1
  · have noRef : sees i.rest (.word "ref") = false := by rw [first]; rfl
    rw [List.singleton_append] at first
    rw [bindingPattern, reads_word?_bind_unseen noRef, reads_word?_bind first, reads_seesWord_bind,
      own, if_pos rfl, reads_anyWord_bind rfl, reads_seesOperator_bind, noAt,
      if_neg Bool.false_ne_true, reads_pure] at ran
    exact ran.1

/-- No segment of a path begins with a colon. -/
theorem not_reads_segment {inExpression : Bool} {tree : Tree}
    (first : i.rest = .leaf (.punct ':' joint) after :: rest) :
    ¬ Reads (segment g inExpression) i tree k := by
  intro ran
  simp only [segment, reads_bind, reads_peekAny, reads_ite, reads_seesWord, existsAndEq, true_and,
    first] at ran
  simp [segmentWords, sees, reads_identifier, first] at ran

/-- No path goes on after three colons. -/
theorem not_reads_path_self {tree : Tree} {second third : Position}
    (first : i.rest = .leaf (.ident "self") place :: .leaf (.punct ':' true) after ::
      .leaf (.punct ':' true) second :: .leaf (.punct ':' joint) third :: rest) :
    ¬ Reads (path g true) i tree k := by
  intro ran
  simp only [path, reads_bind] at ran
  obtain ⟨_, l, noColons, segment, m, word, segments, n, more, -⟩ := ran
  have same : l = i := by
    simp [operator?, sees, first, dropOperator, reads_bind] at noColons
    exact noColons.1
  subst same
  have ahead : m.rest = .leaf (.punct ':' true) after ::
      .leaf (.punct ':' true) second :: .leaf (.punct ':' joint) third :: rest := by
    simp [Grammar.segment, first, sees, segmentWords, reads_bind] at word
    obtain ⟨_, word, -⟩ := word
    obtain ⟨_, _, same, rfl⟩ := reads_anyWord.mp word
    rw [first] at same
    exact (List.cons.inj same).2.symm
  rw [moreSegments, repeated, reads_get_bind, repeatUpTo, reads_bind] at more
  obtain ⟨_, _, step, -⟩ := more
  have apart : ':' ≠ Token.apostrophe := by decide
  simp only [reads_bind, reads_seesOperator, reads_peek3, existsAndEq, true_and] at step
  simp [ahead, sees, dropOperator, skipOne, dropLifetime, apart, reads_bind] at step
  obtain ⟨_, o, colons, _, read, -⟩ := step
  obtain ⟨_, dropped, rfl, -⟩ := reads_operator.mp colons
  simp [ahead, dropOperator] at dropped
  exact not_reads_segment dropped.2.symm read

theorem exists_of_two_colons {later : List Lexeme}
    (colons : dropOperator [':', ':'] (.leaf (.punct ':' joint) after :: rest) = some later) :
    joint = true ∧ ∃ joint' second more, rest = .leaf (.punct ':' joint') second :: more := by
  have apart : ':' ≠ Token.apostrophe := by decide
  rcases rest with _ | ⟨⟨token, second⟩ | _, more⟩
  · simp [dropOperator] at colons
  · cases token with
    | punct symbol joint' =>
      simp only [dropOperator] at colons
      simp [apart] at colons
      exact ⟨colons.1, joint', second, more, by rw [colons.2.1]⟩
    | _ => simp [dropOperator] at colons
  · simp [dropOperator] at colons

theorem exists_colon {ahead : List Lexeme} (met : sees ahead (.operator ":") = true) :
    ∃ joint place more, ahead = .leaf (.punct ':' joint) place :: more := by
  have met : (dropOperator [':'] ahead).isSome = true := met
  rcases ahead with _ | ⟨⟨token, place⟩ | _, more⟩
  · cases met
  · cases token with
    | punct symbol joint =>
      simp [dropOperator] at met
      exact ⟨joint, place, more, by rw [met.1]⟩
    | _ => cases met
  · cases met

/-- A type that begins with a colon begins with two of them. -/
theorem second_of_typeTests
    (typed : ∃ e ∈ typeTests, sees (.leaf (.punct ':' joint) after :: rest) e = true) :
    joint = true ∧ ∃ joint' second more, rest = .leaf (.punct ':' joint') second :: more := by
  have apart : ':' ≠ Token.apostrophe := by decide
  cases colons : dropOperator [':', ':'] (.leaf (.punct ':' joint) after :: rest) with
  | some later => exact exists_of_two_colons colons
  | none =>
    have noLifetime : dropLifetime (.leaf (.punct ':' joint) after :: rest) = none := by
      rcases joint <;> rcases rest with _ | ⟨⟨_ | _, _⟩ | _, _⟩ <;> simp [dropLifetime, apart]
    have single {c : Char} (other : ':' ≠ c) :
        dropOperator [c] (.leaf (.punct ':' joint) after :: rest) = none := by
      simp [dropOperator, other]
    simp [typeTests, sees, colons, noLifetime, single] at typed

/-- The words of a receiver begin a binding, unless a path goes on after them. -/
theorem reads_patternOf_word {word : String} {ahead : List Lexeme}
    (first : i.rest = .leaf (.ident word) place :: ahead)
    (listed : word = "mut" ∨ word = "self" ∧ sees ahead (.operator "::") = false) :
    Reads (patternOf g) i a k ↔ Reads (bindingPattern g) i a k := by
  have facts : sees i.rest .identifier = false ∧
      (sees i.rest (.word "self") && sees (skipOne i.rest) (.operator "::")) = false ∧
      [Expectation.operator "::", .operator "<", .word "Self", .word "super", .word "crate"].any
        (sees i.rest) = false ∧
      sees i.rest (.word "_") = false ∧ sees i.rest (.word "box") = false ∧
      [Expectation.operator "-", .literal, .word "const"].any (sees i.rest) = false ∧
      [Expectation.word "ref", .word "mut", .word "self", .identifier].any
        (sees i.rest) = true := by
    rw [first]
    rcases listed with rfl | ⟨rfl, ends⟩
    · exact ⟨rfl, rfl, rfl, rfl, rfl, rfl, rfl⟩
    · exact ⟨rfl, ends, rfl, rfl, rfl, rfl, rfl⟩
  obtain ⟨noIdentifier, noSelf, noPath, noBlank, noBox, noLiteral, binds⟩ := facts
  simp only [patternOf, reads_get_bind, reads_peek_bind, reads_seesWord_bind, reads_peekAny_bind,
    noIdentifier, noSelf, noPath, noBlank, noBox, noLiteral, binds, Bool.false_and, Bool.false_or,
    Bool.false_eq_true, if_false, if_true]

theorem reads_patternOf_path {ahead : List Lexeme}
    (first : i.rest = .leaf (.ident "self") place :: ahead)
    (colons : sees ahead (.operator "::") = true) :
    Reads (patternOf g) i a k ↔ Reads (pathPattern g) i a k := by
  have leads : (sees i.rest (.word "self") && sees (skipOne i.rest) (.operator "::")) = true := by
    rw [first]
    exact colons
  simp only [patternOf, reads_get_bind, reads_peek_bind, reads_seesWord_bind, reads_peekAny_bind,
    leads, Bool.or_true, Bool.true_or, if_true]

/-- A pattern leaves the colon after the word of a receiver. -/
theorem rest_of_reads_patternOf
    (first : i.rest = before ++ .leaf (.ident "self") place :: .leaf (.punct ':' joint) after :: rest)
    (marked : before = [] ∨ ∃ start, before = [.leaf (.ident "mut") start])
    (typed : ∃ e ∈ typeTests, sees rest e = true)
    (ran : Reads (patternOf g) i a k) :
    k = { i with rest := .leaf (.punct ':' joint) after :: rest } := by
  rcases marked with rfl | ⟨start, rfl⟩
  · cases colons : sees (.leaf (.punct ':' joint) after :: rest) (.operator "::") with
    | false =>
      exact reads_bindingPattern_self first (.inl rfl)
        ((reads_patternOf_word first (.inr ⟨rfl, colons⟩)).mp ran)
    | true =>
      obtain ⟨later, dropped⟩ := Option.isSome_iff_exists.mp colons
      obtain ⟨rfl, joint', second, more, rfl⟩ := exists_of_two_colons dropped
      obtain ⟨rfl, joint', third, more, rfl⟩ := second_of_typeTests typed
      have noBracket : sees i.rest (.operator "<") = false := by rw [first]; rfl
      obtain ⟨_, _, read, -⟩ := reads_bind.mp ((reads_patternOf_path first colons).mp ran)
      rw [qualifiedPath, reads_seesOperator_bind, noBracket, Bool.not_false, if_pos rfl] at read
      exact absurd read (not_reads_path_self first)
  · exact reads_bindingPattern_self first (.inr ⟨start, rfl⟩)
      ((reads_patternOf_word first (.inl rfl)).mp ran)

/-- A receiver up to its type. -/
def receiverHead : Parser (Option Tree × Option String × Option Tree × Tree) := do
  let reference ← operator? "&"
  let name ← if reference.isSome then lifetime? else pure none
  let mutable ← word? "mut"
  let sign ← word "self"
  return (reference, name, mutable, sign)

/-- The type of a receiver that is no reference, if one is written. -/
def receiverType (g : Grammar) (isReference : Bool) : Parser (List Tree) := do
  if !isReference && (← seesOperator ":") then
    let colon ← operator ":"
    return [colon, ← g.type]
  else return []

theorem receiver_eq (g : Grammar) : receiver g = do
    let (reference, name, mutable, sign) ← receiverHead
    let typed ← receiverType g reference.isSome
    return .seq (reference.toList ++ (name.map Tree.lifetime).toList ++ mutable.toList
      ++ sign :: typed) := by
  simp only [receiver, receiverHead, receiverType, bind_assoc, pure_bind]
  refine bind_congr fun reference => ?_
  cases reference with
  | none =>
    simp only [Option.isSome_none, Option.isNone_none, Bool.false_eq_true, if_false, Bool.not_false,
      Bool.true_and, pure_bind, bind_assoc]
    refine bind_congr (m := Parser) fun mutable => bind_congr fun sign => bind_congr fun flag => ?_
    cases flag <;> simp
  | some tree => simp

theorem same_receiverHead : Follows .bare Eq receiverHead receiverHead :=
  same_operator?.bind fun _ => follows_choose follows_lifetime? (follows_pure rfl) fun _ =>
    follows_word?.bind fun _ => follows_word.bind fun _ => follows_pure rfl

theorem reads_receiverHead {name : Option String} {mutable : Option Tree} {sign : Tree} {m : Input}
    (ran : Reads receiverHead i (none, name, mutable, sign) m) :
    ∃ before place, i.rest = before ++ .leaf (.ident "self") place :: m.rest ∧
      (before = [] ∨ ∃ start, before = [.leaf (.ident "mut") start]) ∧ m = { i with rest := m.rest } := by
  simp only [receiverHead, reads_bind] at ran
  obtain ⟨reference, l, first, ran⟩ := ran
  obtain ⟨_, -, rfl⟩ | ⟨-, rfl, rfl⟩ := reads_operator?.mp first
  · simp [reads_bind] at ran
  simp only [Option.isSome_none, Bool.false_eq_true, if_false, pure_bind, reads_bind, reads_pure] at ran
  obtain ⟨found, k, marked, tree, n, named, rfl, -⟩ := ran
  obtain ⟨place, rest, ahead, rfl, -⟩ := reads_word.mp named
  rcases reads_word?.mp marked with ⟨_, marked, -⟩ | ⟨-, rfl, -⟩
  · obtain ⟨start, middle, first, rfl, -⟩ := reads_word.mp marked
    exact ⟨[_], place, first.trans (by rw [← ahead]; rfl), .inr ⟨start, rfl⟩, rfl⟩
  · exact ⟨[], place, ahead, .inl rfl, rfl⟩

/-- No receiver begins with an identifier. -/
theorem unseen_of_reads_receiver {tree : Tree} (ran : Reads (receiver g) i tree k) :
    sees i.rest .identifier = false := by
  rw [receiver_eq, reads_bind] at ran
  obtain ⟨⟨reference, name, mutable, sign⟩, m, head, -⟩ := ran
  cases reference with
  | none =>
    obtain ⟨before, place, ahead, marked, -⟩ := reads_receiverHead head
    rcases marked with rfl | ⟨start, rfl⟩ <;> rw [ahead] <;> rfl
  | some reference =>
    simp only [receiverHead, reads_bind] at head
    obtain ⟨_, l, first, head⟩ := head
    rcases reads_operator?.mp first with ⟨_, read, rfl⟩ | ⟨-, rfl, rfl⟩
    · obtain ⟨rest, dropped, -⟩ := reads_operator.mp read
      have dropped : dropOperator ['&'] i.rest = some rest := dropped
      generalize i.rest = ahead at dropped
      rcases ahead with _ | ⟨⟨_ | _, _⟩ | _, _⟩ <;> first | rfl | simp [dropOperator] at dropped
    · simp [reads_bind] at head

theorem reads_receiverType {isReference : Bool} {typed : List Tree} {n : Input} :
    Reads (receiverType g isReference) i typed n ↔
      ((isReference = true ∨ sees i.rest (.operator ":") = false) ∧ n = i ∧ typed = []) ∨
      (isReference = false ∧ sees i.rest (.operator ":") = true ∧
        ∃ colon m type, Reads (operator ":") i colon m ∧ Reads g.type m type n ∧
          typed = [colon, type]) := by
  simp only [receiverType, reads_bind, reads_seesOperator, existsAndEq, true_and, reads_ite,
    reads_pure]
  cases isReference
  · cases sees i.rest (.operator ":") <;> simp
  · simp

/-- Where a deeper grammar reads a receiver, so does a grammar that reads a pattern and its type. -/
theorem receives (deeper : Deeper g g') {j : Input} (prolongs : i.Prolongs [] j) {b : Tree} {l m : Input} {tree : Tree}
    (received : Reads (receiver g') j b l) (bound : Reads g.pattern i a k)
    (colon : Reads (operator ":") k tree m)
    (typed : sees m.rest (.operator "...") = true ∨ ∃ type n, Reads g.type m type n) :
    ∃ other n, Reads (receiver g) i other n := by
  rw [receiver_eq, reads_bind] at received
  obtain ⟨⟨reference, name, mutable, sign⟩, m', head, received⟩ := received
  obtain ⟨typed', o', tail, -⟩ := reads_bind.mp received
  obtain ⟨_, o, head', rfl, later⟩ := same_receiverHead.run prolongs.symm head
  have whole {types : List Tree} {n : Input} (rest : Reads (receiverType g reference.isSome) o types n) :
      ∃ other n, Reads (receiver g) i other n := by
    simp only [receiver_eq g, reads_bind, reads_pure]
    exact ⟨_, n, _, o, head', types, n, rest, rfl, rfl⟩
  have same : sees o.rest (.operator ":") = sees m'.rest (.operator ":") :=
    (sees_alike (Input.Prolongs.alike later) _).symm
  rcases reads_receiverType.mp tail with ⟨untyped, -⟩ | ⟨noReference, colon', _, n', type, first, read, -⟩
  · exact whole (reads_receiverType.mpr (.inl ⟨same ▸ untyped, rfl, rfl⟩))
  · rw [Option.isSome_eq_false_iff, Option.isNone_iff_eq_none] at noReference
    subst noReference
    obtain ⟨before, place, ahead, marked, stays⟩ := reads_receiverHead head'
    obtain ⟨joint, after, rest, shape⟩ := exists_colon (same ▸ colon')
    obtain ⟨h, pattern⟩ := deeper.pattern bound
    rw [shape] at ahead
    obtain ⟨_, n, first', rfl, alike⟩ := (follows_operator (c := .bare)).run later first
    obtain ⟨after', dropped, rfl, -⟩ := reads_operator.mp first'
    obtain rfl : rest = after' := by
      have apart : ':' ≠ Token.apostrophe := by decide
      simpa [shape, dropOperator, apart] using dropped
    have begins : ∃ e ∈ typeTests, sees rest e = true := by
      obtain ⟨h', read'⟩ := deeper.begins read
      obtain ⟨e, listed, met⟩ := sees_of_reads_typeOf read'
      exact ⟨e, listed, (sees_alike (Input.Prolongs.alike alike) e).symm.trans met⟩
    obtain rfl : k = o := (rest_of_reads_patternOf ahead marked begins pattern).trans
      (by rw [stays, shape])
    obtain ⟨_, dropped', rfl, -⟩ := reads_operator.mp colon
    obtain rfl := Option.some.inj (dropped.symm.trans dropped')
    rcases typed with dots | ⟨type', n, read'⟩
    · obtain ⟨e, listed, met⟩ := begins
      exact absurd dots (unseen_dots listed met)
    · exact whole (reads_receiverType.mpr (.inr ⟨rfl, same ▸ colon', _, _, type', first', read', rfl⟩))

end Forwarding.Grammar.Parser
