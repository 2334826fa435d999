import ServiceLint.Command.Packages
import ServiceLint.Config.Record
import ServiceLint.Disk.Glob.Expand
import ServiceLint.Format.Json.Printer
import ServiceLint.Format.Json.Reader
import ServiceLint.Format.Toml.Reader
import ServiceLint.Format.Yaml.Reader
import ServiceLint.Package.JaroWinkler

/-!
# The packages that the program runs with

Stand-ins for the packages, which do what these do on the inputs that the program is tested on. They go less far: YAML
without block scalars, anchors and tags, TOML without dates, decimals that are not rounded, and readers that do not say
what is wrong with a text.
-/
namespace ServiceLint

/-- Reads a configuration from a document. -/
def Config.ofDocument {δ : Type} [Document δ] (document : Option δ) : Except String Config :=
  match document.bind Config.read? with
  | some config => .ok config
  | none => .error "not a configuration"

instance : Command.Packages where
  jaroWinkler := Text.jaroWinkler
  yaml text := Config.ofDocument (Yaml.parse? text)
  json text := Config.ofDocument (Json.parse? text)
  toml text := Config.ofDocument (Toml.parse? text)
  pretty := Json.pretty
  glob d pattern := ((Glob.parse pattern).mapError (·.message)).map fun g => (g.expand d).map .ok

end ServiceLint
