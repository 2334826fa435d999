import ServiceLint.Lint.Binding
import ServiceLint.Lint.Signature

/-!
# Rules (`linter.rules`, `linter.registry`)

Each rule looks at one bound service and reports its findings. A service satisfies a rule when there
are none.
-/
namespace ServiceLint

/-- The rules, in the order in which they are listed and reported. -/
inductive Rule where
  | emptyService
  | missingRequiredMethod
  | unknownRemoteMethod
  | invalidMethodSignature
  | resourceMethodNotAllowed
deriving DecidableEq, Repr

structure Finding where
  span : Span
  message : String
deriving DecidableEq, Repr

namespace Rule

/-- All rules in order (`service_rules`). -/
def all : List Rule :=
  [.emptyService, .missingRequiredMethod, .unknownRemoteMethod, .invalidMethodSignature,
    .resourceMethodNotAllowed]

def name : Rule → String
  | .emptyService => "empty_service"
  | .missingRequiredMethod => "missing_required_method"
  | .unknownRemoteMethod => "unknown_remote_method"
  | .invalidMethodSignature => "invalid_method_signature"
  | .resourceMethodNotAllowed => "resource_method_not_allowed"

/-- The code of a rule's diagnostics (`DiagnosticCode.as_str`). -/
def code : Rule → String
  | .emptyService => "EMPTY_SERVICE"
  | .missingRequiredMethod => "MISSING_REQUIRED_METHOD"
  | .unknownRemoteMethod => "UNKNOWN_REMOTE_METHOD"
  | .invalidMethodSignature => "INVALID_METHOD_SIGNATURE"
  | .resourceMethodNotAllowed => "RESOURCE_METHOD_NOT_ALLOWED"

def description : Rule → String
  | .emptyService => "Flags services with an empty body"
  | .missingRequiredMethod =>
    "Requires every remote method of the listener contract to be declared"
  | .unknownRemoteMethod => "Flags remote methods the listener never dispatches to"
  | .invalidMethodSignature => "Checks parameter count and types of contract remote methods"
  | .resourceMethodNotAllowed =>
    "Disallows resource functions in services attached to the listener"

/-- Whether inserting a template settles the rule's findings (`is_fixable`). -/
def isFixable : Rule → Bool
  | .emptyService | .missingRequiredMethod => true
  | _ => false

def rank : Rule → Nat
  | .emptyService => 0
  | .missingRequiredMethod => 1
  | .unknownRemoteMethod => 2
  | .invalidMethodSignature => 3
  | .resourceMethodNotAllowed => 4

/-- The names of all rules in alphabetical order (`all_rule_names`). -/
def sortedNames : List String :=
  ["empty_service", "invalid_method_signature", "missing_required_method",
    "resource_method_not_allowed", "unknown_remote_method"]

/-! ## Checks -/

/-- Names in single quotes, divided by commas (`quoted_list`). -/
def quotedList (names : List String) : String := ", ".intercalate (names.map fun n => s!"'{n}'")

/-- The body must have a member (`EmptyServiceRuleImpl.check`). -/
def checkEmpty (b : Binding) (s : Service) : List Finding :=
  if !s.isEmpty then []
  else
    let required := b.config.contract.required.map (·.name)
    let message :=
      if required.isEmpty then "Service body is empty"
      else
        s!"Service body is empty; a service attached to '{b.listenerName}' must declare remote " ++
          s!"function {quotedList required}"
    [⟨s.span, message⟩]

/-- The required functions that the service does not declare. -/
def missingMethods (b : Binding) (s : Service) : List String :=
  (b.config.contract.required.map (·.name)).filter fun name =>
    !s.remoteMethods.any (·.name == name)

/-- A body that is not empty must declare every required function
(`MissingRequiredMethodRuleImpl.check`). The finding reaches from the start of the service to the
end of its last member. -/
def checkMissing (b : Binding) (s : Service) : List Finding :=
  match s.lastMember?, missingMethods b s with
  | none, _ => []
  | some _, [] => []
  | some last, missing =>
    let noun := if missing.length = 1 then "function" else "functions"
    [⟨⟨s.span.start, last.span.stop⟩,
      s!"Service is missing required remote {noun} {quotedList missing}"⟩]

/-- Every remote function must be named in the contract (`UnknownRemoteMethodRuleImpl.check`). -/
def checkUnknown [Similarity] (b : Binding) (s : Service) : List Finding :=
  (s.remoteMethods.filter fun m => (b.config.contract.method? m.name).isNone).map fun m =>
    let hint := match Text.suggest? m.name (b.config.contract.methods.map (·.name)) with
      | some candidate => s!". Did you mean '{candidate}'?"
      | none => ""
    ⟨m.nameSpan,
      s!"Remote function '{m.name}' is not part of the '{b.listenerName}' contract" ++ hint⟩

/-- The parameters of a function of the contract must fit it. -/
def signatureFinding? (b : Binding) (m : Method) : Option Finding :=
  (b.config.contract.method? m.name).bind fun spec =>
    (spec.mismatch? b.qualifier m.params).map fun mismatch =>
      ⟨m.paramsSpan,
        s!"Invalid signature for remote function '{spec.name}': {mismatch.describe b.qualifier}. " ++
          s!"Expected ({spec.expectedTypes b.qualifier})"⟩

/-- The parameters of every remote function of the contract must fit it
(`InvalidMethodSignatureRuleImpl.check`). -/
def checkSignature (b : Binding) (s : Service) : List Finding :=
  s.remoteMethods.filterMap (signatureFinding? b)

/-- There must be no resource function (`ResourceMethodNotAllowedRuleImpl.check`). -/
def checkResource (b : Binding) (s : Service) : List Finding :=
  (s.members.filter Member.isResource).map fun m =>
    ⟨m.span,
      s!"Resource functions are not allowed in a service attached to '{b.listenerName}'"⟩

def check [Similarity] : Rule → Binding → Service → List Finding
  | .emptyService => checkEmpty
  | .missingRequiredMethod => checkMissing
  | .unknownRemoteMethod => checkUnknown
  | .invalidMethodSignature => checkSignature
  | .resourceMethodNotAllowed => checkResource

end Rule

/-- The first configured rule that does not exist (`check_rule_names`). -/
def Config.unknownName? [Similarity] (c : Config) : Option UnknownRule := c.unknownRule? Rule.sortedNames

end ServiceLint
