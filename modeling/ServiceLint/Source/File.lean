import ServiceLint.Source.Parse.Build
import ServiceLint.Text.LineIndex

/-!
# Source files (`syntax.source_file`)

A source file is a named text together with its declarations and its line index.
-/
namespace ServiceLint

structure SourceFile where
  name : String
  text : List Char
  module : Module
  index : LineIndex
deriving Repr

namespace SourceFile

/-- Parses a text as the file of that name (`SourceFile.parse`). -/
def parse (name : String) (text : List Char) : Except ParseError SourceFile :=
  (Module.parse text).map fun m => ⟨name, text, m, LineIndex.ofText text⟩

def location (f : SourceFile) (s : Span) : Location := f.index.location f.name s

def slice (f : SourceFile) (s : Span) : List Char := Text.slice f.text s.start s.stop

/-- Whether a carriage return is directly followed by a line feed somewhere. -/
def hasReturnFeed : List Char → Bool
  | '\r' :: '\n' :: _ => true
  | _ :: cs => hasReturnFeed cs
  | [] => false

/-- How the lines of the file end (`line_ending`): with carriage return and line feed if any line
does. -/
def lineEnding (f : SourceFile) : List Char :=
  if hasReturnFeed f.text then ['\r', '\n'] else ['\n']

end SourceFile

end ServiceLint
