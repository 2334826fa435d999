import ServiceLint.Command.Actions
import ServiceLint.Command.Check
import ServiceLint.Command.Rules

/-!
# Running a request (`cli.main`)
-/
namespace ServiceLint.Command

def versionLine : String := "mqtt-analyzer 0.1.0\n"

/-- What the program does for a task (`main`). -/
def Task.run [Packages] (o : Options) (styled : Bool) (d : Disk) : Task → Except Failure Outcome
  | .check patterns format => runCheck o styled d patterns format
  | .actions target format => runActions o styled d target format
  | .fix target withoutCaller dryRun =>
    runFix o styled d target (if withoutCaller then .withoutCaller else .withCaller) dryRun
  | .rules format => runRules o styled d format

/-- Whether the answer to a request is styled. -/
def Request.isStyled (e : Environment) : Request → Bool
  | .version => false
  | .run o _ => o.isStyled e

/-- What a request comes to on a disk. -/
def Request.outcome [Packages] (e : Environment) (d : Disk) : Request → Outcome
  | .version => .print .success versionLine
  | .run o task => match task.run o (o.isStyled e) d with
    | .ok outcome => outcome
    | .error failure => failure.outcome (o.isStyled e)

end ServiceLint.Command
