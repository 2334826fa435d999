import ServiceLint.Action.Edit
import ServiceLint.Format.Document
import ServiceLint.Lint.Diagnostic

/-!
# Records on the wire (`types`)

Positions, locations, edits and diagnostics as JSON records. Fields that a record does not have are
passed over when it is read.
-/
namespace ServiceLint

open Document

def word32? (v : Json) : Option UInt32 :=
  ((nat? v).filter (· < 4294967296)).map UInt32.ofNat

namespace Position

def toJson (p : Position) : Json :=
  .obj [("line", .nat p.line.toNat), ("character", .nat p.character.toNat)]

/-- Reads a position. -/
def ofJson? (v : Json) : Option Position := do
  let fields ← record? ["line", "character"] v
  let line ← required fields "line" word32?
  let character ← required fields "character" word32?
  return ⟨line, character⟩

end Position

namespace Location

def toJson (l : Location) : Json :=
  .obj [("file", .str l.file), ("start", l.start.toJson), ("end", l.stop.toJson)]

/-- Reads a location. Its positions may be in either order. -/
def ofJson? (v : Json) : Option Location := do
  let fields ← record? ["file", "start", "end"] v
  let file ← required fields "file" text?
  let start ← required fields "start" Position.ofJson?
  let stop ← required fields "end" Position.ofJson?
  return ⟨file, start, stop⟩

end Location

namespace TextEdit

def toJson (e : TextEdit) : Json :=
  .obj [("range", e.location.toJson), ("newText", .str e.newText)]

/-- Reads an edit. -/
def ofJson? (v : Json) : Option TextEdit := do
  let fields ← record? ["range", "newText"] v
  let location ← required fields "range" Location.ofJson?
  let newText ← required fields "newText" text?
  return ⟨location, newText⟩

end TextEdit

namespace Diagnostic

def toJson (d : Diagnostic) : Json :=
  .obj [("code", .str d.rule.code), ("severity", .str d.severity.code),
    ("range", d.location.toJson), ("message", .str d.message)]

/-- Reads a diagnostic. -/
def ofJson? (v : Json) : Option Diagnostic := do
  let fields ← record? ["code", "severity", "range", "message"] v
  let rule ← required fields "code" (choiceOf? Rule.all Rule.code)
  let severity ← required fields "severity" (choiceOf? Severity.all Severity.code)
  let location ← required fields "range" Location.ofJson?
  let message ← required fields "message" text?
  return ⟨rule, severity, location, message⟩

end Diagnostic

end ServiceLint
