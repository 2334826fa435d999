import ServiceLint.Text.Similarity
import ServiceLint.Config.Contract
import ServiceLint.Config.RuleTable

/-!
# Configuration (`config.config`)

Which listener of which module is checked, against which contract, how generated code is indented,
and how each rule is reported.
-/
namespace ServiceLint

/-- A configuration. The indentation is a 64-bit word. -/
structure Config where
  /-- The module id, `org/module`. -/
  module : String := "ballerina/mqtt"
  /-- The name of the listener type that the module exports. -/
  listener : String := "Listener"
  /-- Spaces per level in generated code. -/
  indent : UInt64 := 4
  contract : Contract := Contract.builtin
  rules : RuleTable := RuleTable.empty
deriving DecidableEq, Inhabited

/-- What is wrong with a configuration. -/
inductive ConfigIssue where
  | badModule (module : String)
  | emptyListener
  | badIndent (indent : UInt64)
  | contract (issue : ContractIssue)
deriving DecidableEq, Repr

def ConfigIssue.message : ConfigIssue → String
  | .badModule module => s!"module '{module}' must be an 'org/module' id"
  | .emptyListener => "listener type name must not be empty"
  | .badIndent indent => s!"indent must be between 1 and 8, got {indent.toNat}"
  | .contract issue => issue.message

/-- A configured rule that does not exist, with the name that may have been meant. -/
structure UnknownRule where
  rule : String
  suggestion : Option String
deriving DecidableEq, Repr

def UnknownRule.message (u : UnknownRule) : String :=
  match u.suggestion with
  | some s => s!"unknown rule '{u.rule}', did you mean '{s}'?"
  | none => s!"unknown rule '{u.rule}'"

namespace Config

/-- What a file calls the module when its import has no alias (`module_prefix`): the last part of
the module id. -/
def moduleName (c : Config) : String :=
  String.ofList (Text.afterLast '.' (Text.afterLast '/' c.module.toList))

/-- The level of a rule (`rule_severity`): as configured, else an error. -/
def level (c : Config) (rule : String) : Level := (c.rules.get? rule).getD .error

/-- The first issue of a configuration (`AnalyzerConfig.validate`). -/
def issue? (c : Config) : Option ConfigIssue :=
  if Text.isBlank c.module.toList || !c.module.toList.contains '/' then some (.badModule c.module)
  else if Text.isBlank c.listener.toList then some .emptyListener
  else if c.indent < 1 || 8 < c.indent then some (.badIndent c.indent)
  else c.contract.issue?.map .contract

/-- The first configured rule, in order of names, that is not among the known ones
(`AnalyzerConfig.check_rule_names`). -/
def unknownRule? [Similarity] (c : Config) (known : List String) : Option UnknownRule :=
  (c.rules.names.find? (!known.contains ·)).map fun rule => ⟨rule, Text.suggest? rule known⟩

end Config

end ServiceLint
