import ServiceLint.Config.Contract
import ServiceLint.Source.Tree

/-!
# Signatures (`linter.rules.invalid_method_signature`)

How the parameters of a function are compared with the contract: position by position, where
optional parameters at the end may be missing.
-/
namespace ServiceLint

/-- Why parameters do not fit a function of the contract. -/
inductive Mismatch where
  /-- There are too few or too many. -/
  | arity (min max found : Nat)
  /-- A parameter has another type. -/
  | type (param : Param) (expected : String)
deriving DecidableEq, Repr

namespace Mismatch

/-- Wording of a mismatch, where the file calls the module `qualifier`. -/
def describe (qualifier : String) : Mismatch → String
  | .arity min max found =>
    let expected := if min = max then s!"{min}" else s!"{min} to {max}"
    s!"expected {expected} parameters, found {found}"
  | .type p expected =>
    s!"parameter '{p.name}' must be of type '{qualifier}:{expected}', found '{p.typeText}'"

end Mismatch

/-- Whether the parameter has the type `qualifier:expected`. -/
def Param.hasType (p : Param) (qualifier expected : String) : Bool :=
  p.typeName == expected && p.typeQualifier == some qualifier

namespace MethodSpec

/-- The first mismatch between parameters and the contract (`mismatch`). -/
def mismatch? (m : MethodSpec) (qualifier : String) (params : List Param) : Option Mismatch :=
  if params.length < m.minArity || m.maxArity < params.length then
    some (.arity m.minArity m.maxArity params.length)
  else
    ((params.zip m.params).find? fun (p, spec) => !p.hasType qualifier spec.typeName).map
      fun (p, spec) => .type p spec.typeName

def expectedTypes (m : MethodSpec) (qualifier : String) : String :=
  ", ".intercalate (m.params.map fun p =>
    s!"{qualifier}:{p.typeName}" ++ if p.optional then "?" else "")

end MethodSpec

end ServiceLint
