import ServiceLint.Config.Basic
import ServiceLint.Format.Document

/-!
# Configurations as records (`config.config`)

The record form of a configuration: how it is read from a document of any format and how it is
written as JSON. Fields may be missing, but no other fields may be there. A contract that is given
replaces the built-in one as a whole.
-/
namespace ServiceLint

open Document

/-! ## Reading -/

section Reading

variable {δ : Type} [Document δ]

def ParamSpec.read? (v : δ) : Option ParamSpec := do
  let fields ← closedRecord? ["type", "optional"] v
  let typeName ← required fields "type" text?
  let optional ← withDefault fields "optional" false bool?
  return ⟨typeName, optional⟩

def MethodSpec.read? (v : δ) : Option MethodSpec := do
  let fields ← closedRecord? ["name", "params"] v
  let name ← required fields "name" text?
  let params ← withDefault fields "params" [] (listOf? ParamSpec.read?)
  return ⟨name, params⟩

/-- Reads a contract. A list that is missing is empty. -/
def Contract.read? (v : δ) : Option Contract := do
  let fields ← closedRecord? ["required", "optional"] v
  let req ← withDefault fields "required" [] (listOf? MethodSpec.read?)
  let opt ← withDefault fields "optional" [] (listOf? MethodSpec.read?)
  return ⟨req, opt⟩

def Level.read? (v : δ) : Option Level := choiceOf? Level.all Level.word v

def RuleTable.read? (v : δ) : Option RuleTable := do
  let entries ← table? v
  let levels ← entries.mapM fun (name, v) => (Level.read? v).map (name, ·)
  return RuleTable.ofList levels

def word64? (v : δ) : Option UInt64 :=
  ((nat? v).filter (· < 18446744073709551616)).map UInt64.ofNat

/-- Reads a configuration. -/
def Config.read? (v : δ) : Option Config := do
  let fields ← closedRecord? ["module", "listener", "indent", "contract", "rules"] v
  let base : Config := {}
  let module ← withDefault fields "module" base.module text?
  let listener ← withDefault fields "listener" base.listener text?
  let indent ← withDefault fields "indent" base.indent word64?
  let contract ← withDefault fields "contract" base.contract Contract.read?
  let rules ← withDefault fields "rules" base.rules RuleTable.read?
  return { module, listener, indent, contract, rules }

end Reading

/-! ## Writing -/

/-- A parameter as a record; the mark of an optional one is left out when it is not set. -/
def ParamSpec.toJson (p : ParamSpec) : Json :=
  .obj (("type", .str p.typeName) :: if p.optional then [("optional", .bool true)] else [])

def MethodSpec.toJson (m : MethodSpec) : Json :=
  .obj [("name", .str m.name), ("params", .list ParamSpec.toJson m.params)]

def Contract.toJson (c : Contract) : Json :=
  .obj [("required", .list MethodSpec.toJson c.required),
    ("optional", .list MethodSpec.toJson c.optional)]

def RuleTable.toJson (t : RuleTable) : Json :=
  .obj (t.entries.map fun (name, level) => (name, .str level.word))

/-- A configuration as a record; an empty table of rules is left out. -/
def Config.toJson (c : Config) : Json :=
  .obj ([("module", .str c.module), ("listener", .str c.listener),
      ("indent", .nat c.indent.toNat), ("contract", c.contract.toJson)]
    ++ if c.rules.entries.isEmpty then [] else [("rules", c.rules.toJson)])

end ServiceLint
