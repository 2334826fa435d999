/-!
# Severities (`types.severity`)

A rule is configured as off, as a warning or as an error. A diagnostic is an error or a warning.
-/
namespace ServiceLint

/-- Severity of a diagnostic. -/
inductive Severity where
  | error
  | warning
deriving DecidableEq, Repr

namespace Severity

/-- The word used in text output. -/
def word : Severity → String
  | .error => "error"
  | .warning => "warning"

/-- The word used in records. -/
def code : Severity → String
  | .error => "ERROR"
  | .warning => "WARNING"

/-- All severities. -/
def all : List Severity := [.error, .warning]

end Severity

/-- How a rule is configured. -/
inductive Level where
  | off
  | warn
  | error
deriving DecidableEq, Repr

namespace Level

/-- The word used in configurations and in text output. -/
def word : Level → String
  | .off => "off"
  | .warn => "warn"
  | .error => "error"

/-- All levels. -/
def all : List Level := [.off, .warn, .error]

/-- The severity of what a rule finds; none when the rule is off. -/
def severity? : Level → Option Severity
  | .off => none
  | .warn => some .warning
  | .error => some .error

end Level

end ServiceLint
