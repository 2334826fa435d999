import ServiceLint.Command.Report
import ServiceLint.Command.Setup

/-!
# Checking files (`cli.commands.check`)

Each argument is the path of a file, or else a pattern. The files are checked in the order of their
paths, each one once.
-/
namespace ServiceLint.Command

/-- The files that an argument stands for. -/
def expandPattern [Packages] (d : Disk) (pattern : String) : Except Failure (List Path) :=
  if d.isFile ⟨pattern⟩ then .ok [⟨pattern⟩]
  else do
    let found ← (Packages.glob d pattern).mapError (.badPattern pattern)
    let paths ← found.mapM (·.mapError .unreadableMatch)
    return paths.filter d.isFile

/-- Drops a path that is the same as the one before it. -/
def dropRepeats : List Path → List Path
  | p :: q :: ps =>
    if p.same q then dropRepeats (p :: ps) else p :: dropRepeats (q :: ps)
  | ps => ps

/-- The files that the arguments stand for, in order (`expand_patterns`). -/
def expandPatterns [Packages] (d : Disk) (patterns : List String) : Except Failure (List Path) := do
  let found ← patterns.mapM (expandPattern d)
  return dropRepeats (found.flatten.mergeSort Path.le)

/-- Checks a file (`check_file`). -/
def checkFile [Packages] (d : Disk) (config : Config) (path : Path) : Except Failure FileReport := do
  let text ← (d.readText path).mapError (.unreadable path)
  return FileReport.ofText config path.text text

/-- The reports of all files. There must be at least one. -/
def checkFiles [Packages] (d : Disk) (config : Config) (patterns : List String) :
    Except Failure (List FileReport) := do
  let files ← expandPatterns d patterns
  if files.isEmpty then throw (.noFiles patterns)
  files.mapM (checkFile d config)

/-- What is printed for some reports. -/
def printReports [Packages] (styled isQuiet : Bool) (rs : List FileReport) : OutputFormat → List Piece
  | .human =>
    rs.map (fun r => .text (humanReport styled r)) ++
      if isQuiet then [] else humanSummary styled (Totals.ofReports rs)
  | .json => [.text (Packages.pretty (reportsJson rs) ++ "\n")]
  | .github => rs.map fun r => .text (reportCommands r)

/-- Checks the files that the patterns match and prints what is found (`check.run`). -/
def runCheck [Packages] (o : Options) (styled : Bool) (d : Disk) (patterns : List String)
    (format : OutputFormat) : Except Failure Outcome := do
  let config ← loadConfig o d
  let reports ← checkFiles d config patterns
  return { exit := (Totals.ofReports reports).exit
           printed := printReports styled o.quiet reports format }

end ServiceLint.Command
