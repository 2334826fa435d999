import ServiceLint.Command.Needs
import ServiceLint.Command.Run
import ServiceLint.Package.Default

/-!
# The program

Takes a picture of the part of the disk that a request looks at, and does what the outcome says. Left out are
the log (`init_tracing`), styles that depend on a terminal, and the wording of usage errors.
-/
namespace ServiceLint.Command

/-- The part of a disk that is known so far, with what a path leads to. -/
def addEntry (d : Disk) (p : Path) : IO Disk := do
  let here := (← IO.currentDir) / p.text
  let place := p.placeFrom d.working
  if ← here.isDir then
    return { d with directories := place :: d.directories }
  else if ← here.pathExists then
    try
      return { d with files := (place, ← IO.FS.readBinFile here) :: d.files }
    catch _ => return d
  else return d

/-- The part of a disk that is known so far, with all that is below a path, down to a depth. -/
def addBelow : Nat → Disk → Path → IO Disk
  | 0, d, _ => return d
  | depth + 1, d, p => do
    let here := (← IO.currentDir) / p.text
    if ← here.isDir then
      let mut d := d
      for entry in ← here.readDir do
        let q := Glob.entryPath p entry.fileName
        d ← addEntry d q
        d ← addBelow depth d q
      return d
    else return d

/-- The part of a disk that is known so far, with what is needed. -/
def addNeed (d : Disk) (need : Need) : IO Disk := do
  let p := match need with
    | .entry p | .tree p => p
  let mut d := d
  for stage in p.stages do
    d ← addEntry d stage
  match need with
  | .entry _ => return d
  | .tree p => addBelow 40 d p

/-- The part of the disk that a request looks at. -/
def picture (request : Request) : IO Disk := do
  let working := (Path.mk (← IO.currentDir).toString).placeFrom []
  let mut d : Disk := { files := [], working }
  for need in request.needs working do
    d ← addNeed d need
  return d

/-- Milliseconds as seconds with two decimals. -/
def secondsText (ms : Nat) : String :=
  let hundredths := (ms + 5) / 10
  let rest := hundredths % 100
  s!"{hundredths / 100}." ++ (if rest < 10 then "0" else "") ++ s!"{rest}s"

/-- What is said about a command line that is not understood. -/
def usageLine : String := "Usage: mqtt-analyzer [OPTIONS] <check|actions|fix|rules> [ARGUMENTS]\n"

/-- Writes the file of an outcome. When that fails, the run has failed. -/
def writeFile (styled : Bool) (outcome : Outcome) : IO Outcome := do
  match outcome.written with
  | none => return outcome
  | some (path, text) =>
    try
      IO.FS.writeFile path.text (String.ofList text)
      return outcome.saved styled (.ok ())
    catch e => return outcome.saved styled (.error (toString e))

end ServiceLint.Command

open ServiceLint.Command in
/-- Runs the program. -/
def main (args : List String) : IO UInt32 := do
  let start ← IO.monoMsNow
  let stderr ← IO.getStderr
  match Request.ofArguments? args with
  | none =>
    stderr.putStr usageLine
    return 2
  | some request =>
    let environment := ⟨← IO.getEnv "NO_COLOR", ← IO.getEnv "CLICOLOR_FORCE"⟩
    let outcome := request.outcome environment (← picture request)
    let outcome ← writeFile (request.isStyled environment) outcome
    let stop ← IO.monoMsNow
    (← IO.getStdout).putStr (outcome.output (secondsText (stop - start)))
    stderr.putStr outcome.complaint
    return UInt32.ofNat outcome.exit.code
