import ServiceLint.Text.WhiteSpace

/-!
# Cutting text into pieces

Trimming, splitting at a character, lines, and replacing a word, all on lists of characters.
-/
namespace ServiceLint.Text

/-- Drops the final characters that satisfy `p`. -/
def dropEndWhile (p : Char → Bool) (cs : List Char) : List Char :=
  (cs.reverse.dropWhile p).reverse

def trimEnd (cs : List Char) : List Char :=
  dropEndWhile isWhiteSpace cs

/-- Drops white space at both ends. -/
def trim (cs : List Char) : List Char :=
  trimEnd (cs.dropWhile isWhiteSpace)

def isBlank (cs : List Char) : Bool :=
  cs.all isWhiteSpace

/-- What follows the last `c`; the whole text when there is none. -/
def afterLast (c : Char) (cs : List Char) : List Char :=
  (cs.reverse.takeWhile (· ≠ c)).reverse

/-- What precedes the first `c`, if there is one. -/
def beforeFirst? (c : Char) (cs : List Char) : Option (List Char) :=
  if cs.contains c then some (cs.takeWhile (· ≠ c)) else none

/-- The parts before and after the last `c`, if there is one. -/
def splitLast? (c : Char) (cs : List Char) : Option (List Char × List Char) :=
  match cs.reverse.dropWhile (· ≠ c) with
  | [] => none
  | _ :: front => some (front.reverse, afterLast c cs)

/-- The parts between the occurrences of `c`: always one more than there are occurrences. -/
def splitAll (c : Char) : List Char → List (List Char)
  | [] => [[]]
  | d :: ds =>
    if d = c then [] :: splitAll c ds
    else match splitAll c ds with
      | [] => [[d]]
      | part :: parts => (d :: part) :: parts

/-- Drops one carriage return at the end. -/
def dropReturn (cs : List Char) : List Char :=
  match cs.reverse with
  | '\r' :: front => front.reverse
  | _ => cs

/-- The lines of a text. A line ends at a line feed, which with one carriage return before it is
not part of the line; no line is left after a final line feed. -/
def lines (cs : List Char) : List (List Char) :=
  match (splitAll '\n' cs).reverse with
  | [] => []
  | last :: front => front.reverse.map dropReturn ++ (if last.isEmpty then [] else [last])

/-- Replaces each occurrence of `word`, found from left to right, by `by_`. The number counts the
characters of a found occurrence that are still to be passed over. -/
def replaceFrom (word by_ : List Char) : Nat → List Char → List Char
  | _, [] => []
  | 0, c :: cs =>
    if word.isPrefixOf (c :: cs) then by_ ++ replaceFrom word by_ (word.length - 1) cs
    else c :: replaceFrom word by_ 0 cs
  | n + 1, _ :: cs => replaceFrom word by_ n cs

/-- Replaces each occurrence of the non-empty `word` by `by_`. -/
def replace (word by_ : List Char) (cs : List Char) : List Char :=
  replaceFrom word by_ 0 cs

end ServiceLint.Text
