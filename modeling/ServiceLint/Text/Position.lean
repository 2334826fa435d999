/-!
# Spans, positions and locations (`types.position`)

A span is a pair of byte offsets. A position counts lines and characters from zero, as editors do,
in 32-bit words. A location names a file and two positions; it is what diagnostics, code actions and
edits carry.
-/
namespace ServiceLint

/-- Byte offsets from `start` (inclusive) to `stop` (exclusive). -/
structure Span where
  start : Nat
  stop : Nat
deriving DecidableEq, Repr, Inhabited

namespace Span

def length (s : Span) : Nat := s.stop - s.start

def isEmpty (s : Span) : Bool := s.start == s.stop

def render (s : Span) : String := s!"{s.start}..{s.stop}"

end Span

/-- A place in a file. Both numbers start at zero; `character` counts Unicode scalar values. -/
structure Position where
  line : UInt32
  character : UInt32
deriving DecidableEq, Repr, Inhabited

namespace Position

/-- Positions are ordered by line, then by character (`Position.cmp`). -/
def lt (p q : Position) : Bool :=
  p.line < q.line || (p.line == q.line && p.character < q.character)

def le (p q : Position) : Bool := !q.lt p

def render (p : Position) : String := s!"({p.line.toNat}, {p.character.toNat})"

end Position

/-- A stretch of the named file from `start` (inclusive) to `stop` (exclusive). -/
structure Location where
  file : String
  start : Position
  stop : Position
deriving DecidableEq, Repr, Inhabited

/-- What is wrong with a pair of positions or with an offset. -/
inductive LocationError where
  /-- The first position comes after the second. -/
  | reversed (start stop : Position)
  /-- The offset is past the end of the text or inside a character. -/
  | notBoundary (offset : Nat)
  /-- The line is not in the table of lines. -/
  | noLine (line : Nat)
  /-- There is no text between the two offsets. -/
  | noSlice (start stop : Nat)
deriving DecidableEq, Repr

def LocationError.message : LocationError → String
  | .reversed start stop => s!"range start {start.render} is after end {stop.render}"
  | .notBoundary offset => s!"offset {offset} is out of bounds or not on a char boundary"
  | .noLine line => s!"index out of bounds: no line {line}"
  | .noSlice start stop => s!"byte range {start}..{stop} is not a slice of the text"

namespace Location

/-- The location between two positions, which must be in order (`LineRange.new`). -/
def between (file : String) (start stop : Position) : Except LocationError Location :=
  if start.le stop then .ok ⟨file, start, stop⟩ else .error (.reversed start stop)

/-- The location of no extent at a position (`LineRange.at`). -/
def at_ (file : String) (p : Position) : Location := ⟨file, p, p⟩

def isEmpty (l : Location) : Bool := l.start == l.stop

def contains (l : Location) (p : Position) : Bool := l.start.le p && p.lt l.stop

/-- Whether the position lies in the location, both ends included (`LineRange.touches`): a cursor
right after a closing brace still touches what the brace belongs to. -/
def touches (l : Location) (p : Position) : Bool := l.start.le p && p.le l.stop

def render (l : Location) : String := s!"{l.file}:{l.start.render}-{l.stop.render}"

end Location

end ServiceLint
