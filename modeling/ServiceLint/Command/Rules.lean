import ServiceLint.Command.Setup

/-!
# Listing the rules (`cli.commands.rules`)

The rules with the levels that the configuration gives them.
-/
namespace ServiceLint.Command

def levelStyle : Level → Style
  | .error => .plain .red
  | .warn => .plain .yellow
  | .off => .faint

def ruleLine (styled : Bool) (config : Config) (r : Rule) : String :=
  let level := config.level r.name
  Style.strong.paint styled (padded 28 r.name) ++ " " ++
    (levelStyle level).paint styled (padded 7 level.word) ++ " " ++ r.description ++ " " ++
    Style.faint.paint styled s!"({r.code})" ++ "\n"

/-- A rule as a record (`RuleRow`). -/
def ruleJson (config : Config) (r : Rule) : Json :=
  .obj [("name", .str r.name), ("code", .str r.code),
    ("severity", .str (config.level r.name).word), ("description", .str r.description)]

/-- Lists the rules (`rules.run`). -/
def runRules [Packages] (o : Options) (styled : Bool) (d : Disk) (format : OutputFormat) :
    Except Failure Outcome := do
  let config ← loadConfig o d
  return .print .success (match format with
    | .human => String.join (Rule.all.map (ruleLine styled config))
    | .json | .github => Packages.pretty (Json.list (ruleJson config) Rule.all) ++ "\n")

end ServiceLint.Command
