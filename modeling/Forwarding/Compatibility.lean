import Forwarding.Failure
/-!
Compatibility: whether a definition fits the signature of the definition that wins its group. The
constructor takes as many parameters of the same types, and the generic parameters require nothing
that the winner does not require.
-/

namespace Forwarding

namespace Definition

/-- Whether a parameter of `member` is of the type of a parameter of `winner`: the same type in
canonical form, or the generic parameter at the same position with bounds that `winner` requires. -/
def assigns (winner member : Definition) : ParamShape → ParamShape → Bool
  | .concrete _ a, .concrete _ b => a == b
  | .generic i _, .generic j _ =>
    i == j &&
      match winner.generics[i]?, member.generics[j]? with
      | some w, some m => w.admits m
      | _, _ => false
  | _, _ => false

/-- A parameter as mismatches show it: a generic parameter by its declaration. -/
def describe (d : Definition) : ParamShape → String
  | .generic position type =>
    match d.generics[position]? with
    | some generic => generic.declaration
    | none => type
  | .concrete type _ => type

/-- The first parameter from an index on that does not fit. -/
def paramMismatch? (winner member : Definition) (index : Nat) :
    List ConstructorParam → List ConstructorParam → Option Mismatch
  | w :: ws, m :: ms =>
    if assigns winner member w.shape m.shape then paramMismatch? winner member (index + 1) ws ms
    else some (.parameter index (winner.describe w.shape) (member.describe m.shape))
  | _, _ => none

/-- The first generic parameter from an index on that does not fit. -/
def genericMismatch? (index : Nat) : List GenericParam → List GenericParam → Option Mismatch
  | w :: ws, m :: ms =>
    if w.admits m then genericMismatch? (index + 1) ws ms
    else some (.genericParameter index w.declaration m.declaration)
  | _, _ => none

/-- The first way in which `member` does not fit `winner`. -/
def mismatch? (winner member : Definition) : Option Mismatch :=
  if winner.params.length ≠ member.params.length then
    some (.parameterCount winner.params.length member.params.length)
  else
    match paramMismatch? winner member 0 winner.params member.params with
    | some mismatch => some mismatch
    | none =>
      if winner.generics.length ≠ member.generics.length then
        some (.genericCount winner.generics.length member.generics.length)
      else genericMismatch? 0 winner.generics member.generics

end Definition

end Forwarding
