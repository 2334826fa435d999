import ServiceLint.Text.Pieces

/-!
# Listener contracts (`config.config`)

A listener calls certain remote functions of a service. The contract names those that a service must
declare and those that it may declare, each with the types of its parameters.
-/
namespace ServiceLint

/-- The type of one parameter, without qualifier. An optional parameter may be left out. -/
structure ParamSpec where
  typeName : String
  optional : Bool := false
deriving DecidableEq, Repr

/-- A remote function that the listener calls. -/
structure MethodSpec where
  name : String
  params : List ParamSpec
deriving DecidableEq, Repr

/-- The remote functions that a service must or may declare. -/
structure Contract where
  required : List MethodSpec
  optional : List MethodSpec
deriving DecidableEq, Repr

/-- What is wrong with a contract. -/
inductive ContractIssue where
  | unnamedMethod
  | repeatedMethod (name : String)
  | requiredAfterOptional (name : String)
deriving DecidableEq, Repr

def ContractIssue.message : ContractIssue → String
  | .unnamedMethod => "contract method name must not be empty"
  | .repeatedMethod name => s!"contract method '{name}' is declared twice"
  | .requiredAfterOptional name =>
    s!"contract method '{name}' has a required parameter after an optional one"

namespace MethodSpec

/-- How many parameters there must be at least (`min_arity`). -/
def minArity (m : MethodSpec) : Nat := m.params.countP (!·.optional)

def maxArity (m : MethodSpec) : Nat := m.params.length

/-- Written as `name(Type, Type?)` (`MethodContract.signature`). -/
def signature (m : MethodSpec) : String :=
  let params := m.params.map fun p => if p.optional then s!"{p.typeName}?" else p.typeName
  m.name ++ "(" ++ ", ".intercalate params ++ ")"

/-- Whether every parameter after an optional one is optional too. -/
def optionalTrail (m : MethodSpec) : Bool := (m.params.dropWhile (!·.optional)).all (·.optional)

end MethodSpec

namespace Contract

/-- The contract of the built-in listener. -/
def builtin : Contract where
  required := [⟨"onMessage", [⟨"Message", false⟩, ⟨"Caller", true⟩]⟩]
  optional := [⟨"onError", [⟨"Error", false⟩]⟩]

instance : Inhabited Contract := ⟨builtin⟩

def methods (c : Contract) : List MethodSpec := c.required ++ c.optional

def method? (c : Contract) (name : String) : Option MethodSpec :=
  c.methods.find? (·.name == name)

def isRequired (c : Contract) (name : String) : Bool := c.required.any (·.name == name)

/-- The first issue among functions, given the names of those before them. -/
def firstIssue (seen : List String) : List MethodSpec → Option ContractIssue
  | [] => none
  | m :: ms =>
    if Text.isBlank m.name.toList then some .unnamedMethod
    else if seen.contains m.name then some (.repeatedMethod m.name)
    else if !m.optionalTrail then some (.requiredAfterOptional m.name)
    else firstIssue (m.name :: seen) ms

/-- The first issue of a contract (`ListenerContract.validate`): each function has a name of its
own, and its optional parameters come last. -/
def issue? (c : Contract) : Option ContractIssue := firstIssue [] c.methods

end Contract

end ServiceLint
