import ServiceLint.Command.Check
import ServiceLint.Disk.Glob.Expand

/-!
# What a request looks at

A request is answered from a disk that need not be known as a whole: it is enough to know the files and
directories listed here.
-/
namespace ServiceLint.Command

/-- A part of a disk: what a path leads to, or also all that is below it. -/
inductive Need where
  | entry (path : Path)
  | tree (path : Path)
deriving DecidableEq, Repr

/-- Where the configuration may be. -/
def Options.needs (o : Options) (working : Place) : List Need :=
  match o.config with
  | some path => [.entry path]
  | none => (Config.upward working).flatMap fun dir =>
    Config.fileNames.map fun name => .entry (Place.path (dir ++ [name]))

/-- What a pattern may match. -/
def patternNeeds (pattern : String) : List Need :=
  .entry ⟨pattern⟩ :: ((Glob.parse pattern).toOption.bind Glob.base?).toList.map .tree

def Task.needs : Task → List Need
  | .check patterns _ => patterns.flatMap patternNeeds
  | .actions target _ => [.entry target.file]
  | .fix target _ _ => [.entry target.file]
  | .rules _ => []

/-- What a request looks at. -/
def Request.needs (working : Place) : Request → List Need
  | .version => []
  | .run o task => o.needs working ++ task.needs

end ServiceLint.Command
