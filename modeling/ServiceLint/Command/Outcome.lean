import ServiceLint.Action.Execute
import ServiceLint.Command.Style
import ServiceLint.Config.Load

/-!
# Outcomes (`cli.exit_code`)

What running a command comes to: an exit status, what is printed, and the file that is written. A run
that fails prints why, from the outside in.
-/
namespace ServiceLint.Command

/-- How a run ends (`ExitCode`). -/
inductive Exit where
  | success
  | diagnosticsFound
  | configError
  | ioError
  | parseError
  | actionError
deriving DecidableEq, Repr

namespace Exit

def code : Exit → Nat
  | .success => 0
  | .diagnosticsFound => 1
  | .configError => 2
  | .ioError => 3
  | .parseError => 4
  | .actionError => 5

def text : Exit → String
  | .success => "success"
  | .diagnosticsFound => "diagnostics found"
  | .configError => "configuration error"
  | .ioError => "I/O error"
  | .parseError => "parse error"
  | .actionError => "code action error"

end Exit

/-- A piece of what is printed: a text, or the time that the run took. -/
inductive Piece where
  | text (s : String)
  | elapsed
deriving DecidableEq, Repr

/-- A piece as it is printed when the run took the given time. -/
def Piece.render (time : String) : Piece → String
  | .text s => s
  | .elapsed => time

structure Outcome where
  exit : Exit
  /-- Goes to standard output. -/
  printed : List Piece := []
  /-- Goes to standard error. -/
  complaint : String := ""
  /-- The file that is written, with its text. -/
  written : Option (Path × List Char) := none
deriving DecidableEq, Repr

namespace Outcome

def print (exit : Exit) (text : String) : Outcome := { exit, printed := [.text text] }

/-- All that is printed when the run took the given time. -/
def output (o : Outcome) (time : String) : String := String.join (o.printed.map (Piece.render time))

end Outcome

/-! ## Failures -/

/-- Why a run fails. -/
inductive Failure where
  | config (path : Path) (error : LoadError)
  | rules (unknown : UnknownRule)
  | unreadable (path : Path) (error : AccessError)
  | unparsable (path : Path) (error : ParseError)
  | notOneBased
  | badPattern (pattern reason : String)
  | unreadableMatch (reason : String)
  | noFiles (patterns : List String)
  | action (title : String) (error : ActionError)
  | edit (error : EditError)
  | unwritable (path : Path) (reason : String)
deriving DecidableEq, Repr

namespace Failure

/-- The exit status of a run that fails (`ExitCode.for_error`). -/
def exit : Failure → Exit
  | .config .. | .rules _ => .configError
  | .unparsable .. => .parseError
  | .action .. | .edit _ => .actionError
  | .unreadable .. | .notOneBased | .badPattern .. | .unreadableMatch _ | .noFiles _ | .unwritable .. => .ioError

/-- What went wrong, from the outside in. -/
def chain : Failure → List String
  | .config path e => s!"Failed to load config from {path.text}" :: e.chain
  | .rules u => ["Invalid rules section", u.message]
  | .unreadable path e => [s!"Failed to read {path.text}", e.message]
  | .unparsable path e => [s!"Failed to parse {path.text}", e.message]
  | .notOneBased => ["--line and --column are 1-based"]
  | .badPattern pattern reason => [s!"Invalid glob pattern '{pattern}'", reason]
  | .unreadableMatch reason => ["Failed to read glob match", reason]
  | .noFiles patterns => ["No files matched " ++ ", ".intercalate patterns]
  | .action title e => [s!"Failed to apply '{title}'", e.message]
  | .edit e => [e.message]
  | .unwritable path reason => [s!"Failed to write {path.text}", reason]

def outcome (styled : Bool) (f : Failure) : Outcome where
  exit := f.exit
  complaint := (Style.plain .red).paint styled s!"✗ {f.exit.text}:" ++ " " ++
    ": ".intercalate f.chain ++ "\n"

end Failure

/-- The outcome once its file was to be written. A run that cannot write has failed. -/
def Outcome.saved (styled : Bool) (o : Outcome) (result : Except String Unit) : Outcome :=
  match o.written, result with
  | some (path, _), .error reason => (Failure.unwritable path reason).outcome styled
  | _, _ => o

end ServiceLint.Command
