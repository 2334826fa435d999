import ServiceLint.Command.Outcome
import ServiceLint.Format.Json.Printer

/-!
# Reports (`cli.commands.check`)

What checking finds in a file, and a list of reports as it is printed: for people, as JSON, or as the
workflow commands by which a build service shows annotations.
-/
namespace ServiceLint.Command

structure PlacedParseError where
  position : Position
  error : ParseError
deriving DecidableEq, Repr

/-- What checking a file finds. A file that cannot be parsed has no diagnostics. -/
structure FileReport where
  path : String
  diagnostics : List Diagnostic := []
  parseError : Option PlacedParseError := none
deriving DecidableEq, Repr

namespace FileReport

/-- Checks a file of that name and text. -/
def ofText [Similarity] (config : Config) (path : String) (text : List Char) : FileReport :=
  match SourceFile.parse path text with
  | .ok file => { path, diagnostics := validate file config }
  | .error e =>
    let offset := min e.offset (Text.size text)
    let position := match (LineIndex.ofText text).position? offset with
      | .ok p => p
      | .error _ => ⟨0, 0⟩
    { path, parseError := some ⟨position, e⟩ }

def count (r : FileReport) (s : Severity) : Nat := r.diagnostics.countP (·.severity == s)

def isClean (r : FileReport) : Bool := r.parseError.isNone && r.diagnostics.isEmpty

end FileReport

structure Totals where
  files : Nat
  errors : Nat
  warnings : Nat
  unparsable : Nat
deriving DecidableEq, Repr

namespace Totals

/-- The numbers of what some reports hold. -/
def ofReports (rs : List FileReport) : Totals where
  files := rs.length
  errors := rs.foldr (fun r n => r.count .error + n) 0
  warnings := rs.foldr (fun r n => r.count .warning + n) 0
  unparsable := rs.countP (·.parseError.isSome)

/-- Whether there are neither errors nor unparsable files. -/
def isSuccess (t : Totals) : Bool := t.errors == 0 && t.unparsable == 0

def exit (t : Totals) : Exit :=
  if 0 < t.unparsable then .parseError
  else if 0 < t.errors then .diagnosticsFound
  else .success

end Totals

/-- A position counted from one, divided by colons. -/
def onePlace (p : Position) : String := s!"{p.line.toNat + 1}:{p.character.toNat + 1}"

/-! ## For people -/

section Human

variable (styled : Bool)

def humanParseError (path : String) (e : PlacedParseError) : String :=
  s!"\n{path}:{onePlace e.position}: " ++ (Style.vivid .red).paint styled "parse error:" ++ " " ++
    (Style.plain .red).paint styled e.error.message ++ "\n"

def severityColour : Severity → Colour
  | .error => .red
  | .warning => .yellow

def humanDiagnostic (path : String) (d : Diagnostic) : String :=
  let colour := severityColour d.severity
  s!"\n{path}:{onePlace d.location.start}: " ++
    (Style.vivid colour).paint styled (d.severity.word ++ ":") ++ " " ++
    (Style.plain colour).paint styled d.message ++ "\n" ++
    "  " ++ Style.faint.paint styled "code" ++ ": " ++ Style.faint.paint styled d.rule.code ++ "\n"

/-- The report of a file (`print_human`). -/
def humanReport (r : FileReport) : String :=
  String.join ((r.parseError.map (humanParseError styled r.path)).toList ++
    r.diagnostics.map (humanDiagnostic styled r.path))

def humanVerdict (t : Totals) : String :=
  if t.isSuccess then
    if t.warnings == 0 then (Style.vivid .green).paint styled "✓ All services passed!"
    else (Style.vivid .yellow).paint styled s!"✓ Services passed with {t.warnings} warning(s)"
  else
    let parts := (if 0 < t.unparsable then [s!"{t.unparsable} unparsable file(s)"] else []) ++
      (if 0 < t.errors then [s!"{t.errors} error(s)"] else []) ++
      (if 0 < t.warnings then [s!"{t.warnings} warning(s)"] else [])
    (Style.plain .red).paint styled ("✗ Found " ++ ", ".intercalate parts)

/-- The summary of a run, with the time that it took (`print_summary`). -/
def humanSummary (t : Totals) : List Piece :=
  [.text ("\n" ++ humanVerdict styled t ++ "\n  " ++ Style.faint.paint styled "⏱" ++
      s!" {t.files} file(s) in "), .elapsed, .text "\n"]

end Human

/-! ## As JSON -/

/-- The report of a file as a record. -/
def FileReport.toJson (r : FileReport) : Json :=
  .obj ([("file", .str r.path), ("diagnostics", .list Diagnostic.toJson r.diagnostics)] ++
    (r.parseError.map fun e => ("parseError",
      Json.obj [("message", .str e.error.message), ("position", e.position.toJson)])).toList)

def Totals.toJson (t : Totals) : Json :=
  .obj [("total_files", .nat t.files), ("total_errors", .nat t.errors),
    ("total_warnings", .nat t.warnings), ("parse_errors", .nat t.unparsable)]

/-- All reports as a record; files in which nothing was found are left out (`to_json`). -/
def reportsJson (rs : List FileReport) : Json :=
  let t := Totals.ofReports rs
  .obj [("success", .bool t.isSuccess),
    ("files", .list FileReport.toJson (rs.filter (!·.isClean))), ("stats", t.toJson)]

/-! ## As workflow commands -/

/-- A message on one line (`escape_github`): percent signs and line breaks are written as codes. -/
def escapeMessage (message : List Char) : List Char :=
  Text.replace ['\n'] "%0A".toList
    (Text.replace ['\r'] "%0D".toList (Text.replace ['%'] "%25".toList message))

def parseErrorCommand (path : String) (e : PlacedParseError) : String :=
  s!"::error file={path},line={e.position.line.toNat + 1},col={e.position.character.toNat + 1}" ++
    ",title=PARSE_ERROR::" ++ String.ofList (escapeMessage e.error.message.toList) ++ "\n"

def diagnosticCommand (path : String) (d : Diagnostic) : String :=
  let start := d.location.start
  let stop := d.location.stop
  s!"::{d.severity.word} file={path},line={start.line.toNat + 1},col={start.character.toNat + 1}" ++
    s!",endLine={stop.line.toNat + 1},endColumn={stop.character.toNat + 1},title={d.rule.code}::" ++
    String.ofList (escapeMessage d.message.toList) ++ "\n"

/-- The report of a file as commands (`print_github`). -/
def reportCommands (r : FileReport) : String :=
  String.join ((r.parseError.map (parseErrorCommand r.path)).toList ++
    r.diagnostics.map (diagnosticCommand r.path))

end ServiceLint.Command
