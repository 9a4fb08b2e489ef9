import Forwarding.Declaration
import Forwarding.Grammar.Nonterminal
import Forwarding.Proofs.Words
import Mathlib.Tactic.MkIffOfInductiveProp
/-!
The names that declarations give. A declaration that has been read names everything by identifiers;
at a few places a word of the language may stand instead.
-/

namespace Forwarding

/-- A name that is no word of the language. -/
def IsIdentifier (name : String) : Prop :=
  Lexer.IsName name ∧ Grammar.isIdentifier name = true

instance (name : String) : Decidable (IsIdentifier name) :=
  inferInstanceAs (Decidable (_ ∧ _))

/-- The names of a generic parameter. An underscore may stand for the name of a type. -/
def GenericParameter.IsNamed : GenericParameter → Prop
  | .lifetime _ name _ _ => Lexer.IsName name
  | .type _ name _ _ _ => IsIdentifier name ∨ name = "_"
  | .const _ name _ _ => IsIdentifier name

/-- The names of generic parameters. -/
def Generics.IsNamed (generics : Generics) : Prop :=
  ∀ p ∈ generics.params, p.IsNamed

@[simp]
theorem Generics.isNamed_none : Generics.none.IsNamed :=
  fun _ member => nomatch member

/-- The name of a field, for which an underscore may stand. -/
def Field.IsNamed (field : Field) : Prop :=
  ∀ name ∈ field.name, IsIdentifier name ∨ name = "_"

/-- The names of fields. -/
def Fields.IsNamed : Fields → Prop
  | .named fields _ => ∀ field ∈ fields, field.IsNamed
  | .positional .. => True
  | .unit => True

/-- The names that a struct declares. -/
@[mk_iff]
structure StructItem.IsNamed (struct : StructItem) : Prop where
  name : IsIdentifier struct.name
  generics : struct.generics.IsNamed
  fields : struct.fields.IsNamed

/-- The name that a parameter binds. -/
def Parameter.IsNamed : Parameter → Prop
  | .typed _ _ (some name) _ => IsIdentifier name
  | _ => True

/-- The names of a signature. -/
@[mk_iff]
structure Signature.IsNamed (signature : Signature) : Prop where
  name : IsIdentifier signature.name
  params : ∀ p ∈ signature.params, p.IsNamed

/-- The names of the generic parameters of an impl block and of its functions. -/
@[mk_iff]
structure ImplItem.IsNamed (block : ImplItem) : Prop where
  generics : block.generics.IsNamed
  methods : ∀ method, .method method ∈ block.members → method.signature.IsNamed

namespace Item

mutual

/-- The names that a declaration gives. A module may have the word `try` for its name. -/
def IsNamed : Item → Prop
  | struct declaration => declaration.IsNamed
  | implementation block => block.IsNamed
  | module _ _ name content =>
    (IsIdentifier name ∨ name = "try") ∧
      match content with
      | none => True
      | some items => AreNamed items
  | other .. => True

/-- The names that declarations give. -/
def AreNamed : List Item → Prop
  | [] => True
  | item :: rest => IsNamed item ∧ AreNamed rest

end

theorem areNamed_iff {items : List Item} : AreNamed items ↔ ∀ item ∈ items, item.IsNamed := by
  induction items with
  | nil => simp [AreNamed]
  | cons item rest ih => simp [AreNamed, ih]

end Item

namespace Grammar

/-- The names in what is read of a notion. -/
def Nonterminal.IsNamed : (n : Nonterminal) → n.Result → Prop
  | .pattern, found => ∀ name, found.form = .binding name → IsIdentifier name ∨ name = "self"
  | .item, found => found.IsNamed
  | .type _, _ => True
  | .bound _ _, _ => True
  | .expression _, _ => True
  | .operand _, _ => True
  | .standalone, _ => True
  | .statements, _ => True
  | .imports _, _ => True

end Grammar

end Forwarding
