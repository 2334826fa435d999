import ServiceLint.Text.Bytes
import ServiceLint.Text.Position

/-!
# Line index (`syntax.line_index`)

Converts byte offsets to positions and back. Lines are divided by line feeds; a carriage return
right before a line feed belongs to the line's terminator, so no position leads there.
-/
namespace ServiceLint

/-- A text with the byte offset at which each of its lines starts. -/
structure LineIndex where
  text : List Char
  starts : List Nat
deriving Repr

namespace LineIndex

/-- The offsets just after the line feeds of a text that starts at `offset`. -/
def startsAfter (offset : Nat) : List Char → List Nat
  | [] => []
  | c :: cs =>
    let next := offset + c.utf8Size
    if c = '\n' then next :: startsAfter next cs else startsAfter next cs

/-- The index of a text (`LineIndex.new`). -/
def ofText (text : List Char) : LineIndex := ⟨text, 0 :: startsAfter 0 text⟩

/-- Number of lines (`line_count`): one more than there are line feeds. -/
def lineCount (index : LineIndex) : Nat := index.starts.length

def lineStart? (index : LineIndex) (line : Nat) : Option Nat := index.starts[line]?

/-- Offset at which the content of a line ends, before its terminator (`line_end`). -/
def lineEnd (index : LineIndex) (line : Nat) : Nat :=
  match index.starts[line + 1]? with
  | none => Text.size index.text
  | some next =>
    let stop := next - 1
    if 0 < stop && Text.slice index.text (stop - 1) stop == ['\r'] then stop - 1 else stop

/-- A count as a 32-bit word; the largest word stands for all counts beyond it (`to_u32`). -/
def word (n : Nat) : UInt32 := UInt32.ofNat (min n 4294967295)

/-- Looks for `x` among the elements of a sorted list from index `lo` up to `hi`, halving the stretch each time
(`binary_search`): the index at which `x` stands, or as an error the one at which it would be inserted. -/
def search (xs : List Nat) (x lo hi : Nat) (hhi : hi ≤ xs.length) : Except Nat Nat :=
  if hlt : lo < hi then
    let mid := lo + (hi - lo) / 2
    have hmid : mid < hi := by omega
    match compare xs[mid] x with
    | .lt => search xs x (mid + 1) hi hhi
    | .gt => search xs x lo mid (by omega)
    | .eq => .ok mid
  else .error lo
termination_by hi - lo

/-- The line of a byte offset: the one that starts there, or else the one before the place at which the offset
would be inserted. -/
def lineOf (index : LineIndex) (offset : Nat) : Nat :=
  match search index.starts offset 0 index.starts.length (Nat.le_refl _) with
  | .ok line => line
  | .error place => place - 1

/-- The position of a byte offset (`position`). It is refused at an offset that is not between two characters, as are
a line that is not in the table and a slice that the text does not have. -/
def position? (index : LineIndex) (offset : Nat) : Except LocationError Position :=
  if Text.isBoundary offset index.text then
    let line := index.lineOf offset
    match index.lineStart? line with
    | none => .error (.noLine line)
    | some start =>
      match Text.slice? index.text start offset with
      | none => .error (.noSlice start offset)
      | some before => .ok ⟨word line, word before.length⟩
  else .error (.notBoundary offset)

/-- The position of an offset that has one. -/
def position (index : LineIndex) (offset : Nat) : Position :=
  (index.position? offset).toOption.getD default

/-- The byte offset of a position (`offset`). There is none when the line does not exist or the
position is past the content of the line. -/
def offset? (index : LineIndex) (p : Position) : Option Nat :=
  (index.lineStart? p.line.toNat).bind fun start =>
    let content := Text.slice index.text start (index.lineEnd p.line.toNat)
    if p.character.toNat ≤ content.length then
      some (start + Text.size (content.take p.character.toNat))
    else none

/-- The location of a span (`range`). -/
def location (index : LineIndex) (file : String) (s : Span) : Location :=
  ⟨file, index.position s.start, index.position s.stop⟩

/-- The location of a span whose ends lie between characters, in order. -/
def location? (index : LineIndex) (file : String) (s : Span) : Except LocationError Location := do
  let start ← index.position? s.start
  let stop ← index.position? s.stop
  Location.between file start stop

/-- The span of a location, when both of its positions lie in the text (`offset_range`). -/
def span? (index : LineIndex) (l : Location) : Option Span :=
  (index.offset? l.start).bind fun start =>
    (index.offset? l.stop).map fun stop => ⟨start, stop⟩

end LineIndex

end ServiceLint
