import ServiceLint.Config.Basic
import ServiceLint.Disk.Basic

/-!
# Configuration files (`config.loader`)

A configuration file is written in the format that its extension names. It is read by the package for that format, and
what it says must have no issue.
-/
namespace ServiceLint

inductive ConfigFormat where
  | yaml
  | json
  | toml
deriving DecidableEq, Repr

/-- The packages that read configurations, with what each says of a text that it does not accept
(`serde_saphyr.from_str`, `serde_json.from_str`, `toml.from_str`). -/
class ConfigReaders where
  yaml : List Char → Except String Config
  json : List Char → Except String Config
  toml : List Char → Except String Config

namespace ConfigFormat

def name : ConfigFormat → String
  | .yaml => "YAML"
  | .json => "JSON"
  | .toml => "TOML"

/-- The format that the extension of a path names; upper case does not count. -/
def ofPath? (p : Path) : Option ConfigFormat :=
  match p.extension? with
  | some "yml" => some .yaml
  | some "yaml" => some .yaml
  | some "json" => some .json
  | some "toml" => some .toml
  | _ => none

/-- Reads a configuration (`parse_yaml`, `parse_json`, `parse_toml`). A blank YAML text stands for the default one. -/
def read [ConfigReaders] : ConfigFormat → List Char → Except String Config
  | .yaml, text => if Text.isBlank text then .ok {} else ConfigReaders.yaml text
  | .json, text => ConfigReaders.json text
  | .toml, text => ConfigReaders.toml text

end ConfigFormat

/-- Why a configuration file cannot be used. -/
inductive LoadError where
  | unreadable (error : AccessError)
  | malformed (path : Path) (format : ConfigFormat) (reason : String)
  | invalid (path : Path) (issue : ConfigIssue)
  | unsupported (path : Path)
deriving DecidableEq, Repr

namespace LoadError

def message : LoadError → String
  | .unreadable e => s!"failed to read config file: {e.message}"
  | .malformed path format reason => s!"invalid config in {path.text}: {format.name} parse error: {reason}"
  | .invalid path issue => s!"invalid config in {path.text}: {issue.message}"
  | .unsupported path =>
    s!"unsupported config format: {path.text} (expected .yaml, .yml, .json or .toml)"

/-- The wording of a load error and of what caused it. -/
def chain : LoadError → List String
  | .unreadable e => [(LoadError.unreadable e).message, e.message]
  | e => [e.message]

end LoadError

namespace Config

/-- The configuration that a file of that path and text holds (`load_config_from_str`). -/
def ofFile [ConfigReaders] (path : Path) (text : List Char) : Except LoadError Config :=
  match ConfigFormat.ofPath? path with
  | none => .error (.unsupported path)
  | some format => match format.read text with
    | .error reason => .error (.malformed path format reason)
    | .ok c => match c.issue? with
      | some issue => .error (.invalid path issue)
      | none => .ok c

/-- The configuration that a file on a disk holds (`load_config`). -/
def load [ConfigReaders] (d : Disk) (path : Path) : Except LoadError Config := do
  let text ← (d.readText path).mapError .unreadable
  ofFile path text

end Config

end ServiceLint
