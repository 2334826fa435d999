import ServiceLint.Command.Arguments
import ServiceLint.Command.Outcome
import ServiceLint.Command.Packages
import ServiceLint.Config.Discover

/-!
# What commands start from (`cli.commands.common`)

The configuration of a run, the source file that a command works on, and the position in it.
-/
namespace ServiceLint.Command

/-- The settings from outside that decide about styles when the output is not a terminal. Where it is one, `CLICOLOR`
counts too, which is left out. -/
structure Environment where
  /-- Switches styles off when it is set. -/
  noColor : Option String := none
  /-- Switches styles on when it is set to anything but zero. -/
  forceColor : Option String := none
deriving DecidableEq, Repr

/-- Whether styles are in use (`configure_colors`). Options come before the environment. -/
def Options.isStyled (o : Options) (e : Environment) : Bool :=
  if o.color then true
  else if o.noColor then false
  else if e.noColor.isSome then false
  else e.forceColor.any (· != "0")

/-- The path of the configuration file: the given one, else the one found from the working directory. -/
def configPath? (o : Options) (d : Disk) : Option Path :=
  o.config <|> (Config.discover? d.hasFile d.working).map Place.path

/-- The configuration of a run; without a file it is the default one (`CommandContext.load`). Its
rules must exist. -/
def loadConfig [Packages] (o : Options) (d : Disk) : Except Failure Config := do
  let config ← match configPath? o d with
    | some path => (Config.load d path).mapError (.config path)
    | none => pure {}
  match config.unknownName? with
  | some u => throw (.rules u)
  | none => return config

/-- The source file that a path leads to, under the name of that path (`read_source`). -/
def readSource (d : Disk) (path : Path) : Except Failure SourceFile := do
  let text ← (d.readText path).mapError (.unreadable path)
  (SourceFile.parse path.text text).mapError (.unparsable path)

/-- The position that a target means (`position`). -/
def Target.position (t : Target) : Except Failure Position :=
  if t.line == 0 || t.column == 0 then .error .notOneBased
  else .ok ⟨t.line - 1, t.column - 1⟩

end ServiceLint.Command
