import ServiceLint.Lint.Rule

/-!
# Diagnostics (`linter.linter`, `linter.diagnostics`)

`validate` runs every rule that is not off over every bound service of a file and lists what is found
by place, then by rule.
-/
namespace ServiceLint

/-- A finding as it is reported: the rule, its severity, the place and the message. -/
structure Diagnostic where
  rule : Rule
  severity : Severity
  location : Location
  message : String
deriving DecidableEq, Repr

namespace Diagnostic

def render (d : Diagnostic) : String :=
  s!"{d.location.render} {d.severity.word} {d.rule.code}: {d.message}"

/-- Diagnostics, numbered from one, each on a line. -/
def renderAll : List Diagnostic → String
  | [] => "(no diagnostics)"
  | ds => "\n".intercalate (ds.zipIdx.map fun (d, i) => s!"[{i + 1}] {d.render}")

/-- Whether `a` is listed before `b`, or they stand at the same place in the order. -/
def le (a b : Diagnostic) : Bool :=
  a.location.start.lt b.location.start ||
    (a.location.start == b.location.start && a.rule.rank ≤ b.rule.rank)

end Diagnostic

namespace Binding

/-- What one rule reports for a bound service. -/
def ruleDiagnostics [Similarity] (b : Binding) (s : Service) (rule : Rule) : List Diagnostic :=
  match (b.config.level rule.name).severity? with
  | none => []
  | some severity => (rule.check b s).map fun f =>
      ⟨rule, severity, b.file.location f.span, f.message⟩

/-- What all rules report for a bound service. -/
def serviceDiagnostics [Similarity] (b : Binding) (s : Service) : List Diagnostic :=
  Rule.all.flatMap (b.ruleDiagnostics s)

/-- What all rules report for all bound services, in order. -/
def diagnostics [Similarity] (b : Binding) : List Diagnostic :=
  (b.services.flatMap b.serviceDiagnostics).mergeSort Diagnostic.le

end Binding

/-- The diagnostics of a file (`validate`). There are none when it does not import the configured
module. -/
def validate [Similarity] (file : SourceFile) (config : Config) : List Diagnostic :=
  match Binding.resolve file config with
  | none => []
  | some b => b.diagnostics

end ServiceLint
