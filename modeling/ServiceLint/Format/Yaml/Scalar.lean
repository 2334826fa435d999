import ServiceLint.Format.Digits

/-!
# YAML scalars

Quoted scalars and the folding of scalars that reach over several lines: a single line break becomes a
space, and further ones stay line feeds.
-/
namespace ServiceLint.Yaml

/-- Whether a character is a space or a tab. -/
def isBlankChar (c : Char) : Bool := c == ' ' || c == '\t'

def isSpaceChar (c : Char) : Bool := isBlankChar c || c == '\n'

def skipBlank (cs : List Char) : List Char := cs.dropWhile isBlankChar

def dropBlankEnd (cs : List Char) : List Char := (cs.reverse.dropWhile isBlankChar).reverse

/-! ## Folding -/

/-- What `breaks + 1` line breaks become. -/
def foldedBreaks (breaks : Nat) : List Char :=
  if breaks == 0 then [' '] else List.replicate breaks '\n'

/-- Joins the lines of a scalar after its first one, where `breaks` empty lines came just before. -/
def foldTail (breaks : Nat) : List (List Char) → List Char
  | [] => []
  | [last] => foldedBreaks breaks ++ last
  | line :: more =>
    if line.isEmpty then foldTail (breaks + 1) more
    else foldedBreaks breaks ++ line ++ foldTail 0 more

def foldLines : List (List Char) → List Char
  | [] => []
  | first :: more => first ++ foldTail 0 more

/-! ## Quoted scalars -/

/-- The lines between an opening and a closing single quote, and what follows. Two quotes stand for
one. -/
def singleTail : List Char → Option (List (List Char) × List Char)
  | [] => none
  | '\x27' :: '\x27' :: cs => (singleTail cs).map (onFirst ('\x27' :: ·))
  | '\x27' :: cs => some ([[]], cs)
  | '\n' :: cs => (singleTail cs).map fun (lines, rest) => ([] :: lines, rest)
  | c :: cs => (singleTail cs).map (onFirst (c :: ·))
where
  /-- Changes the first line. -/
  onFirst (f : List Char → List Char) (p : List (List Char) × List Char) :
      List (List Char) × List Char :=
    match p with
    | (line :: lines, rest) => (f line :: lines, rest)
    | ([], rest) => ([f []], rest)

/-- Trims the line breaks inside a scalar: blanks before and after them are not part of it. -/
def trimBreaks (lines : List (List Char)) : List (List Char) :=
  let count := lines.length
  lines.zipIdx.map fun (line, i) =>
    let line := if i == 0 then line else skipBlank line
    if i + 1 == count then line else dropBlankEnd line

/-- Reads a scalar after its opening single quote. -/
def single? (cs : List Char) : Option (String × List Char) :=
  (singleTail cs).map fun (lines, rest) => (String.ofList (foldLines (trimBreaks lines)), rest)

/-- Reads what follows a backslash: the character meant and the characters after the escape. -/
def escape? : List Char → Option (Char × List Char)
  | '0' :: cs => some ('\x00', cs)
  | 'a' :: cs => some ('\x07', cs)
  | 'b' :: cs => some ('\x08', cs)
  | 't' :: cs => some ('\t', cs)
  | '\t' :: cs => some ('\t', cs)
  | 'n' :: cs => some ('\n', cs)
  | 'v' :: cs => some ('\x0b', cs)
  | 'f' :: cs => some ('\x0c', cs)
  | 'r' :: cs => some ('\r', cs)
  | 'e' :: cs => some ('\x1b', cs)
  | ' ' :: cs => some (' ', cs)
  | '"' :: cs => some ('"', cs)
  | '/' :: cs => some ('/', cs)
  | '\\' :: cs => some ('\\', cs)
  | 'N' :: cs => some ('\u0085', cs)
  | '_' :: cs => some ('\u00a0', cs)
  | 'L' :: cs => some ('\u2028', cs)
  | 'P' :: cs => some ('\u2029', cs)
  | 'x' :: cs => (Digits.char? (cs.take 2)).bind (code 2 cs)
  | 'u' :: cs => (Digits.char? (cs.take 4)).bind (code 4 cs)
  | 'U' :: cs => (Digits.char? (cs.take 8)).bind (code 8 cs)
  | _ => none
where
  /-- The character with the characters after its `n` digits, which must be there. -/
  code (n : Nat) (cs : List Char) (c : Char) : Option (Char × List Char) :=
    if (cs.take n).length == n then some (c, cs.drop n) else none

/-- The characters of a scalar after its opening double quote, read with a bound on the steps. A break
that is not escaped drops the blanks before it, folds with the empty lines after it, and drops the
blanks at the start of the next line; `blanks` are those read just before. -/
def doubleWithin (blanks : List Char) : Nat → List Char → Option (List Char × List Char)
  | 0, _ => none
  | steps + 1, cs => match cs with
    | [] => none
    | '"' :: rest => some (blanks, rest)
    | '\\' :: '\n' :: rest =>
      (doubleWithin [] steps (skipBlank rest)).map fun (text, rest) => (blanks ++ text, rest)
    | '\\' :: rest => (escape? rest).bind fun (c, rest) =>
      (doubleWithin [] steps rest).map fun (text, rest) => (blanks ++ c :: text, rest)
    | '\n' :: rest =>
      let (breaks, rest) := emptyLines steps 0 rest
      (doubleWithin [] steps rest).map fun (text, rest) => (foldedBreaks breaks ++ text, rest)
    | c :: rest =>
      if isBlankChar c then doubleWithin (blanks ++ [c]) steps rest
      else (doubleWithin [] steps rest).map fun (text, rest) => (blanks ++ c :: text, rest)
where
  /-- Passes over blanks and empty lines, which are counted. -/
  emptyLines : Nat → Nat → List Char → Nat × List Char
    | 0, breaks, cs => (breaks, cs)
    | steps + 1, breaks, cs => match skipBlank cs with
      | '\n' :: rest => emptyLines steps (breaks + 1) rest
      | rest => (breaks, rest)

/-- Reads a scalar after its opening double quote. -/
def double? (cs : List Char) : Option (String × List Char) :=
  (doubleWithin [] (cs.length + 1) cs).map fun (text, rest) => (String.ofList text, rest)

/-! ## Plain scalars -/

/-- Whether a character ends a plain scalar inside brackets and braces. -/
def isFlowMark (c : Char) : Bool :=
  c == ',' || c == '[' || c == ']' || c == '\x7b' || c == '\x7d'

/-- Whether a plain scalar can start with the first of these characters. -/
def startsPlain (inFlow : Bool) : List Char → Bool
  | [] => false
  | c :: cs =>
    if c == '-' || c == '?' || c == ':' then
      match cs with
      | [] => false
      | d :: _ => !isSpaceChar d && !(inFlow && isFlowMark d)
    else !isSpaceChar c && !isFlowMark c && c != '#' && c != '&' && c != '*' && c != '!' && c != '|'
      && c != '>' && c != '\x27' && c != '"' && c != '%' && c != '@' && c != '\x60'

/-- The part of a plain scalar on one line. It ends before a colon that a blank follows, and before a
comment. `before` is the character read last. -/
def plainPart (inFlow : Bool) (before : Char) : List Char → List Char × List Char
  | [] => ([], [])
  | c :: cs =>
    if c == '\n' || (c == '#' && isBlankChar before) || (inFlow && isFlowMark c) then ([], c :: cs)
    else if c == ':' && endsKey cs then ([], c :: cs)
    else match plainPart inFlow c cs with
      | (part, rest) => (c :: part, rest)
where
  /-- Whether a colon before these characters divides a key from its value. -/
  endsKey : List Char → Bool
    | [] => true
    | d :: _ => isSpaceChar d || (inFlow && isFlowMark d)

end ServiceLint.Yaml
