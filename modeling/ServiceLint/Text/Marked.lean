import ServiceLint.Text.LineIndex

/-!
# Marked texts (`test_utils.cursor`)

A text with one `*` in it stands for the text without the mark together with the position of the
mark. Carriage returns do not count as characters of their line.
-/
namespace ServiceLint.Marked

/-- Why a marked text has no position. -/
inductive MarkError where
  /-- There is no mark. -/
  | none
  /-- There are several marks. -/
  | several (count : Nat)
deriving DecidableEq, Repr

def MarkError.message : MarkError → String
  | .none => "extract_cursor: input must contain exactly one '*' marker, found none"
  | .several count =>
    s!"extract_cursor: input must contain exactly one '*' marker, found {count}"

/-- Line and character reached after reading `c` at the given line and character. -/
def advance (at_ : Nat × Nat) (c : Char) : Nat × Nat :=
  if c = '\n' then (at_.1 + 1, 0)
  else if c = '\r' then at_
  else (at_.1, at_.2 + 1)

/-- The text without its mark, and the position of the mark (`extract_cursor`). -/
def extract (marked : List Char) : Except MarkError (List Char × Position) :=
  match marked.count '*' with
  | 0 => .error .none
  | 1 =>
    let (line, character) := (marked.takeWhile (· ≠ '*')).foldl advance (0, 0)
    .ok (marked.filter (· ≠ '*'), ⟨LineIndex.word line, LineIndex.word character⟩)
  | count => .error (.several count)

end ServiceLint.Marked
