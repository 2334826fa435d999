import ServiceLint.Command.Setup

/-!
# Actions at a position (`cli.commands.actions`, `cli.commands.fix`)

Listing the actions that are offered at a position of a file, and carrying one of them out.
-/
namespace ServiceLint.Command

def actionLine (styled : Bool) (number : Nat) (a : CodeAction) : String :=
  (Style.plain .cyan).paint styled s!"[{number}]" ++ " " ++ a.title ++ " " ++
    Style.faint.paint styled s!"({a.provider.render})" ++ "\n"

def actionLines (styled : Bool) (actions : List CodeAction) : String :=
  if actions.isEmpty then Style.faint.paint styled "No code actions at this position" ++ "\n"
  else String.join (actions.zipIdx.map fun (a, i) => actionLine styled (i + 1) a)

/-- Lists the actions at a position (`actions.run`). -/
def runActions [Packages] (o : Options) (styled : Bool) (d : Disk) (t : Target) (format : OutputFormat) :
    Except Failure Outcome := do
  let config ← loadConfig o d
  let file ← readSource d t.file
  let position ← t.position
  let actions := CodeAction.atPosition file config position
  return .print .success (match format with
    | .human => actionLines styled actions
    | .json | .github => Packages.pretty (Json.list CodeAction.toJson actions) ++ "\n")

/-- The text of a file after an action. -/
def fixedText (file : SourceFile) (config : Config) (a : CodeAction) :
    Except Failure (List Char) := do
  let edit ← (a.execute file config .builtin).mapError (.action a.title)
  (edit.apply file.text).mapError .edit

/-- The outcome when no action is offered at the position. -/
def nothingToFix (o : Options) (styled : Bool) (t : Target) : Outcome :=
  let complaint := (Style.plain .yellow).paint styled
    s!"No fixable diagnostic at {t.file.text}:{t.line.toNat}:{t.column.toNat}" ++ "\n"
  { exit := .diagnosticsFound, complaint := if o.quiet then "" else complaint }

/-- The outcome when an action is carried out and the new text is written. -/
def fixWritten (o : Options) (styled : Bool) (t : Target) (action : CodeAction) (text : List Char) : Outcome :=
  let done := (Style.plain .green).paint styled "✓" ++ " " ++ action.title ++ " " ++
    Style.faint.paint styled s!"({t.file.text})" ++ "\n"
  { exit := .success, printed := if o.quiet then [] else [.text done], written := some (t.file, text) }

/-- Carries out the action at a position that inserts the template of a kind (`fix.run`). The text
is written to the file, or only printed. -/
def runFix [Packages] (o : Options) (styled : Bool) (d : Disk) (t : Target) (kind : TemplateKind)
    (dryRun : Bool) : Except Failure Outcome := do
  let config ← loadConfig o d
  let file ← readSource d t.file
  let position ← t.position
  match (CodeAction.atPosition file config position).find? (·.provider.template == kind) with
  | none => return nothingToFix o styled t
  | some action =>
    let text ← fixedText file config action
    if dryRun then return .print .success (String.ofList text)
    return fixWritten o styled t action text

end ServiceLint.Command
