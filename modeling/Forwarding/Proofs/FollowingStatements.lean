import Forwarding.Grammar.Function
import Forwarding.Proofs.FollowingExpressions
/-!
Statements and signatures of functions on the same tokens, below a grammar and below a deeper one.
-/

namespace Forwarding.Grammar.Parser

variable {g g' : Grammar}

section Statements

theorem same_beginsItem : Follows .bare Eq beginsItem beginsItem := by
  refine same_get_bind fun i j prolongs => ?_
  have alike := Input.Prolongs.alike prolongs
  have first : sees i.rest = sees j.rest := funext (sees_alike alike)
  have second : sees (skipOne i.rest) = sees (skipOne j.rest) :=
    funext (sees_alike (skipOne_alike alike))
  have third : sees (skipOne (skipOne i.rest)) = sees (skipOne (skipOne j.rest)) :=
    funext (sees_alike (skipOne_alike (skipOne_alike alike)))
  refine follows_pure ?_
  simp only [first, second, third]

theorem same_macroStatement : Follows .bare Eq macroStatement macroStatement := by
  refine (same_lookingAhead ?_).bind fun _ => follows_pure rfl
  refine same_bind same_plainPath fun _ _ _ => same_seesOperator.bind fun _ =>
    .ite (follows_pure rfl) (same_peek2.bind fun _ => same_peek2.bind fun _ => .ite (follows_pure rfl) ?_)
  exact same_peek3.bind fun _ => same_peek3.bind fun _ => same_peek3.bind fun _ =>
    same_peek2.bind fun _ => .ite (follows_pure rfl) (follows_pure rfl)

theorem same_localStatement (deeper : Deeper g g') :
    Follows .bare Eq (localStatement g) (localStatement g') := by
  have closed (sign bound : Tree) (typed init : List Tree) : Follows .bare Eq
      (do return sign :: bound :: (typed ++ init ++ [← operator ";"]))
      (do return sign :: bound :: (typed ++ init ++ [← operator ";"])) :=
    follows_operator.bind fun _ => follows_pure rfl
  have initialized (sign bound : Tree) (typed : List Tree) : Follows .bare Eq
      (do
        let init ←
          if ← seesOperator "=" then
            let equals ← operator "="
            let value ← g.expression
            let otherwise ←
              if !value.endsWithBrace && (← seesWord "else") then
                let sign ← word "else"
                pure [sign, ← groupedTree .brace g.statements]
              else pure []
            pure (equals :: value :: otherwise)
          else pure []
        return sign :: bound :: (typed ++ init ++ [← operator ";"]))
      (do
        let init ←
          if ← seesOperator "=" then
            let equals ← operator "="
            let value ← g'.expression
            let otherwise ←
              if !value.endsWithBrace && (← seesWord "else") then
                let sign ← word "else"
                pure [sign, ← groupedTree .brace g'.statements]
              else pure []
            pure (equals :: value :: otherwise)
          else pure []
        return sign :: bound :: (typed ++ init ++ [← operator ";"])) := by
    refine same_seesOperator.bind fun _ => .ite ?_ (follows_pure_bind (closed _ _ _ _))
    refine follows_operator.bind fun _ => (same_expression deeper).bind fun _ =>
      follows_seesWord.bind fun _ => .ite ?_ (follows_pure_bind (follows_pure_bind (closed _ _ _ _)))
    exact follows_word.bind fun _ => (follows_groupedTree (same_statements deeper)).bind fun _ =>
      follows_pure_bind (follows_pure_bind (closed _ _ _ _))
  refine follows_word.bind fun _ => same_bind (same_pattern deeper) fun _ _ same => ?_
  rw [same.tree]
  refine same_seesOperator.bind fun _ => .ite ?_ (follows_pure_bind (initialized _ _ _))
  exact follows_operator.bind fun _ => (deeper.type _ true).bind fun _ =>
    follows_pure_bind (initialized _ _ _)

theorem same_item (deeper : Deeper g g') :
    Follows .bare (fun a b => a.tree = b.tree) g.item g'.item :=
  deeper.parse .item

theorem same_statement (deeper : Deeper g g') :
    Follows .bare Eq (statement g) (statement g') := by
  refine same_get_bind fun start start' here => same_bind (follows_outerAttributes deeper)
    fun _ _ attributes => ?_
  rw [Attribute.Alike.outer_eq attributes]
  refine same_macroStatement.bind fun kind => ?_
  cases kind
  case braced =>
    refine same_bind same_plainPath fun _ _ same => ?_
    rw [same.tree_eq]
    exact (follows_invocation _).bind fun ⟨_, _⟩ => same_operator?.bind fun _ => follows_pure rfl
  all_goals
    refine follows_seesWord.bind fun _ => .ite
      ((same_localStatement deeper).bind fun _ => follows_pure rfl)
      (same_beginsItem.bind fun _ => .ite ?_ ?_)
    · exact same_bind (same_set here) fun _ _ _ => same_bind (same_item deeper) fun _ _ same =>
        follows_pure (congrArg (Statement.mk · false) same)
    · have standalone : Follows .bare Eq g.standalone g'.standalone := deeper.parse .standalone
      exact standalone.bind fun _ => same_operator?.bind fun _ => follows_pure rfl

theorem same_statementsUpTo (deeper : Deeper g g') (n : Nat) :
    Follows .bare Eq (statementsUpTo g n) (statementsUpTo g' n) := by
  induction n with
  | zero => exact follows_pure rfl
  | succ n ih =>
    exact (same_repeated same_operator?).bind fun _ => same_atEnd.bind fun _ => .ite (follows_pure rfl)
      ((same_statement deeper).bind fun _ => same_atEnd.bind fun _ => .ite (follows_pure rfl)
      (.ite follows_fail_bind (ih.bind fun _ => follows_pure rfl)))

theorem same_statementsOf (deeper : Deeper g g') :
    Follows .bare Eq (statementsOf g) (statementsOf g') :=
  follows_bare_fuel fun n => same_statementsUpTo deeper n

end Statements

end Forwarding.Grammar.Parser
