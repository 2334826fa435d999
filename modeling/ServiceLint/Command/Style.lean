import ServiceLint.Text.Pieces

/-!
# Styled text

Text for a terminal in bold, dimmed or coloured letters. A style is switched on by an escape sequence in
front of the text and off by another one behind it.
-/
namespace ServiceLint.Command

inductive Colour where
  | red
  | green
  | yellow
  | cyan
deriving DecidableEq, Repr

def Colour.code : Colour → String
  | .red => "31"
  | .green => "32"
  | .yellow => "33"
  | .cyan => "36"

structure Style where
  bold : Bool := false
  dimmed : Bool := false
  colour : Option Colour := none
deriving DecidableEq, Repr

namespace Style

def strong : Style := { bold := true }

def faint : Style := { dimmed := true }

def plain (c : Colour) : Style := { colour := some c }

def vivid (c : Colour) : Style := { bold := true, colour := some c }

def codes (s : Style) : List String :=
  (if s.bold then ["1"] else []) ++ (if s.dimmed then ["2"] else []) ++
    (s.colour.map Colour.code).toList

/-- The sequence that switches a style on. -/
def opening (s : Style) : String := "\x1b[" ++ ";".intercalate s.codes ++ "m"

/-- The sequence that switches every style off. -/
def closing : String := "\x1b[0m"

/-- A text in a style, if styles are in use. Where the text itself switches styles off, the style is
switched on again. -/
def paint (inUse : Bool) (s : Style) (text : String) : String :=
  if inUse then
    let inner := Text.replace closing.toList (closing ++ s.opening).toList text.toList
    s.opening ++ String.ofList inner ++ closing
  else text

end Style

/-- A text filled up with spaces to a width. -/
def padded (width : Nat) (text : String) : String :=
  text ++ String.ofList (List.replicate (width - text.length) ' ')

end ServiceLint.Command
