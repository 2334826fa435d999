import ServiceLint.Config.Load
import ServiceLint.Format.Json.Value

/-!
# Packages

What commands take from packages. Nothing is said here of how a package does its work, so what holds of a command holds
with any of them.
-/
namespace ServiceLint.Command

/-- The packages that commands are built on. -/
class Packages extends Similarity, ConfigReaders where
  /-- The text of a value over several lines (`serde_json.to_string_pretty`). -/
  pretty : Json → String
  /-- The paths on a disk that fit a pattern (`glob.glob`). A text that is no pattern is refused, and instead of a path
  there may be the reason why a directory could not be read. -/
  glob : Disk → String → Except String (List (Except String Path))

end ServiceLint.Command
