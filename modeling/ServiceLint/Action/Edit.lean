import ServiceLint.Text.LineIndex

/-!
# Text edits (`ide.edit`, `types.edits`)

An edit replaces the text of a location. Several edits are all meant for the text as it was before any of
them, so they are applied from the last to the first.
-/
namespace ServiceLint

/-- Replaces the text at a location. -/
structure TextEdit where
  location : Location
  newText : String
deriving DecidableEq, Repr

inductive EditError where
  /-- The location is not in the text. -/
  | outOfBounds (location : Location)
  /-- The location overlaps that of another edit. -/
  | overlapping (location : Location)
deriving DecidableEq, Repr

def EditError.message : EditError → String
  | .outOfBounds l => s!"location {l.render} is outside the file"
  | .overlapping l => s!"edit at {l.render} overlaps another edit"

structure PlacedEdit where
  span : Span
  edit : TextEdit
deriving DecidableEq, Repr

namespace TextEdit

/-- Finds the span of an edit in a text. -/
def place (index : LineIndex) (e : TextEdit) : Except EditError PlacedEdit :=
  match index.span? e.location with
  | some s => if s.start ≤ s.stop then .ok ⟨s, e⟩ else .error (.outOfBounds e.location)
  | none => .error (.outOfBounds e.location)

/-- Whether `a` goes before `b`, or they cover the same span. -/
def placedLe (a b : PlacedEdit) : Bool :=
  a.span.start < b.span.start || (a.span.start == b.span.start && a.span.stop ≤ b.span.stop)

/-- The first edit, in order, that starts before the one before it ends. -/
def firstOverlap? : List PlacedEdit → Option PlacedEdit
  | a :: b :: rest => if b.span.start < a.span.stop then some b else firstOverlap? (b :: rest)
  | _ => none

def splice (text : List Char) (s : Span) (newText : List Char) : List Char :=
  Text.takeBytes s.start text ++ newText ++ Text.dropBytes s.stop text

/-- Applies edits that are in order and do not overlap, the last one first. -/
def applyPlaced (text : List Char) (edits : List PlacedEdit) : List Char :=
  edits.foldr (fun p t => splice t p.span p.edit.newText.toList) text

/-- Applies edits to the text that they are all meant for (`apply_edits`). -/
def applyAll (text : List Char) (edits : List TextEdit) : Except EditError (List Char) := do
  let placed ← edits.mapM (place (LineIndex.ofText text))
  let ordered := placed.mergeSort placedLe
  match firstOverlap? ordered with
  | some p => throw (.overlapping p.edit.location)
  | none => return applyPlaced text ordered

/-- Applies one edit (`apply_edit`). -/
def apply (text : List Char) (e : TextEdit) : Except EditError (List Char) := applyAll text [e]

end TextEdit

end ServiceLint
