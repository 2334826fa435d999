import ServiceLint.Format.Digits
import ServiceLint.Format.Toml.Build

/-!
# Reading TOML

Keys, texts, integers, truth values, arrays and inline tables, and the statements of a document. Line
breaks, comments and a final comma may stand in arrays and inline tables. Nested values are read with
a bound on the number of steps, which the length of the text always covers. The program runs with this
reader in place of the package's.
-/
namespace ServiceLint.Toml

/-! ## Spaces and lines -/

def skipBlank (cs : List Char) : List Char := cs.dropWhile fun c => c == ' ' || c == '\t'

/-- Whether a character may not be written as itself in texts and comments. -/
def isControl (c : Char) : Bool := (c.toNat < 0x20 && c != '\t') || c.toNat == 0x7F

/-- Passes over a line break. -/
def newline? : List Char → Option (List Char)
  | '\n' :: cs => some cs
  | '\r' :: '\n' :: cs => some cs
  | _ => none

/-- Passes over a comment, if one is there, up to the end of its line. -/
def skipComment : List Char → Option (List Char)
  | '#' :: cs =>
    let body := cs.takeWhile fun c => c != '\n' && c != '\r'
    if body.any isControl then none
    else some (cs.dropWhile fun c => c != '\n' && c != '\r')
  | cs => some cs

/-- Passes over the rest of a line that has nothing more on it than a comment. -/
def endOfLine? (cs : List Char) : Option (List Char) :=
  (skipComment (skipBlank cs)).bind fun
    | [] => some []
    | rest => newline? rest

/-- Passes over blanks, comments and line breaks. -/
def skipLinesWithin : Nat → List Char → Option (List Char)
  | 0, _ => none
  | steps + 1, cs => (skipComment (skipBlank cs)).bind fun rest =>
    match newline? rest with
    | some rest => skipLinesWithin steps rest
    | none => some rest

def skipLines (cs : List Char) : Option (List Char) := skipLinesWithin (cs.length + 1) cs

/-! ## Texts -/

/-- Reads what follows a backslash: the character meant and the characters after the escape. -/
def escape? : List Char → Option (Char × List Char)
  | 'b' :: cs => some ('\x08', cs)
  | 't' :: cs => some ('\t', cs)
  | 'n' :: cs => some ('\n', cs)
  | 'f' :: cs => some ('\x0c', cs)
  | 'r' :: cs => some ('\r', cs)
  | 'e' :: cs => some ('\x1b', cs)
  | '"' :: cs => some ('"', cs)
  | '\\' :: cs => some ('\\', cs)
  | 'x' :: cs => (Digits.char? (cs.take 2)).bind (code 2 cs)
  | 'u' :: cs => (Digits.char? (cs.take 4)).bind (code 4 cs)
  | 'U' :: cs => (Digits.char? (cs.take 8)).bind (code 8 cs)
  | _ => none
where
  /-- The character with the characters after its `n` digits, which must be there. -/
  code (n : Nat) (cs : List Char) (c : Char) : Option (Char × List Char) :=
    if (cs.take n).length == n then some (c, cs.drop n) else none

/-- The characters of a text up to its closing quotes, and what follows them. `close` is the number of
quotes; a text with three may hold line breaks. -/
def basicWithin (close : Nat) : Nat → List Char → Option (List Char × List Char)
  | 0, _ => none
  | steps + 1, cs => match cs with
    | [] => none
    | '"' :: rest =>
      if close == 1 then some ([], rest)
      else if rest.take 2 == ['"', '"'] then
        -- Up to two quotes may stand right before the closing ones.
        match rest.drop 2 with
        | '"' :: '"' :: rest => some (['"', '"'], rest)
        | '"' :: rest => some (['"'], rest)
        | rest => some ([], rest)
      else (basicWithin close steps rest).map fun (text, rest) => ('"' :: text, rest)
    | '\\' :: rest => match escape? rest with
      | some (c, rest) => (basicWithin close steps rest).map fun (text, rest) => (c :: text, rest)
      | none =>
        -- A backslash at the end of a line passes over all white space after it.
        if close == 3 && (newline? (skipBlank rest)).isSome then
          basicWithin close steps
            (rest.dropWhile fun c => c == ' ' || c == '\t' || c == '\n' || c == '\r')
        else none
    | '\r' :: '\n' :: rest =>
      if close == 1 then none
      else (basicWithin close steps rest).map fun (text, rest) => ('\n' :: text, rest)
    | c :: rest =>
      if isControl c && !(close == 3 && c == '\n') then none
      else (basicWithin close steps rest).map fun (text, rest) => (c :: text, rest)

/-- Drops a line break right after the opening quotes. -/
def dropFirstBreak (cs : List Char) : List Char := (newline? cs).getD cs

/-- The characters of a text in three single quotes, and what follows it. -/
def literalBlock : List Char → Option (List Char × List Char)
  | [] => none
  | '\x27' :: '\x27' :: '\x27' :: '\x27' :: '\x27' :: rest => some (['\x27', '\x27'], rest)
  | '\x27' :: '\x27' :: '\x27' :: '\x27' :: rest => some (['\x27'], rest)
  | '\x27' :: '\x27' :: '\x27' :: rest => some ([], rest)
  | '\r' :: '\n' :: rest => (literalBlock rest).map fun (text, rest) => ('\n' :: text, rest)
  | c :: rest =>
    if isControl c && c != '\n' then none
    else (literalBlock rest).map fun (text, rest) => (c :: text, rest)

/-- The characters of a text in single quotes, and what follows it. -/
def literal? (cs : List Char) : Option (List Char × List Char) :=
  let text := cs.takeWhile (· != '\x27')
  match cs.dropWhile (· != '\x27') with
  | _ :: rest => if text.any isControl then none else some (text, rest)
  | [] => none

/-- Reads the text whose first character is given. -/
def text? : List Char → Option (String × List Char)
  | '"' :: '"' :: '"' :: cs =>
    (basicWithin 3 (cs.length + 1) (dropFirstBreak cs)).map fun (t, r) => (String.ofList t, r)
  | '"' :: cs => (basicWithin 1 (cs.length + 1) cs).map fun (t, r) => (String.ofList t, r)
  | '\x27' :: '\x27' :: '\x27' :: cs =>
    (literalBlock (dropFirstBreak cs)).map fun (t, r) => (String.ofList t, r)
  | '\x27' :: cs => (literal? cs).map fun (t, r) => (String.ofList t, r)
  | _ => none

/-! ## Keys -/

/-- Whether a character may stand in a key without quotes. -/
def isBareKey (c : Char) : Bool := c.isAlphanum || c == '_' || c == '-'

/-- Reads one part of a key. Texts in three quotes are no keys. -/
def keyPart? (cs : List Char) : Option (String × List Char) :=
  match cs with
  | '"' :: rest => (basicWithin 1 (rest.length + 1) rest).map fun (t, r) => (String.ofList t, r)
  | '\x27' :: rest => (literal? rest).map fun (t, r) => (String.ofList t, r)
  | cs => match cs.takeWhile isBareKey with
    | [] => none
    | name => some (String.ofList name, cs.dropWhile isBareKey)

/-- Reads a key of parts divided by dots. -/
def keyWithin : Nat → List Char → Option (List String × List Char)
  | 0, _ => none
  | steps + 1, cs => (keyPart? (skipBlank cs)).bind fun (part, rest) =>
    match skipBlank rest with
    | '.' :: rest => (keyWithin steps rest).map fun (parts, rest) => (part :: parts, rest)
    | rest => some ([part], rest)

/-- Reads a key: the path to it, and its last part. -/
def key? (cs : List Char) : Option ((List String × String) × List Char) :=
  (keyWithin (cs.length + 1) cs).bind fun (parts, rest) =>
    parts.getLast?.map fun last => ((parts.dropLast, last), rest)

/-! ## Values -/

/-- The integer that the word writes: decimal with an optional sign, or in base 16, 8 or 2. -/
def integer? : List Char → Option Int
  | '0' :: 'x' :: ds => (Digits.grouped? 16 ds).map (↑·)
  | '0' :: 'o' :: ds => (Digits.grouped? 8 ds).map (↑·)
  | '0' :: 'b' :: ds => (Digits.grouped? 2 ds).map (↑·)
  | '+' :: ds => (decimal? ds).map (↑·)
  | '-' :: ds => (decimal? ds).map fun n => -(n : Int)
  | ds => (decimal? ds).map (↑·)
where
  /-- A decimal number without leading zeros. -/
  decimal? : List Char → Option Nat
    | '0' :: _ :: _ => none
    | ds => Digits.grouped? 10 ds

/-- The value that the word writes. -/
def word? (w : List Char) : Option Toml :=
  if w == "true".toList then some (.bool true)
  else if w == "false".toList then some (.bool false)
  else (integer? w).map .int

/-- Whether a character may stand in a word. -/
def isWordPart (c : Char) : Bool := c.isAlphanum || c == '_' || c == '-' || c == '+' || c == '.'
  || c == ':'

mutual

/-- Reads a value. -/
def valueWithin : Nat → List Char → Option (Toml × List Char)
  | 0, _ => none
  | steps + 1, cs => match cs with
    | '[' :: rest => (itemsWithin steps rest).map fun (items, rest) => (.arr items, rest)
    | '\x7b' :: rest => (pairsWithin steps rest).bind fun (pairs, rest) =>
      (build? pairs).map fun table => (table, rest)
    | '"' :: _ | '\x27' :: _ => (text? cs).map fun (s, rest) => (.str s, rest)
    | _ => (word? (cs.takeWhile isWordPart)).map fun v => (v, cs.dropWhile isWordPart)

/-- Reads the items of an array through its closing bracket. -/
def itemsWithin : Nat → List Char → Option (List Toml × List Char)
  | 0, _ => none
  | steps + 1, cs => (skipLines cs).bind fun
    | ']' :: rest => some ([], rest)
    | cs => (valueWithin steps cs).bind fun (item, rest) =>
      (skipLines rest).bind fun
        | ',' :: rest => (itemsWithin steps rest).map fun (items, rest) => (item :: items, rest)
        | ']' :: rest => some ([item], rest)
        | _ => none

/-- Reads the assignments of an inline table through its closing brace. -/
def pairsWithin : Nat → List Char → Option (List Statement × List Char)
  | 0, _ => none
  | steps + 1, cs => (skipLines cs).bind fun
    | '\x7d' :: rest => some ([], rest)
    | cs => (key? cs).bind fun
      | ((path, key), '=' :: rest) => (skipLines rest).bind fun rest =>
        (valueWithin steps rest).bind fun (value, rest) =>
          (skipLines rest).bind fun
            | ',' :: rest => (pairsWithin steps rest).map fun (pairs, rest) =>
              (.assign path key value :: pairs, rest)
            | '\x7d' :: rest => some ([.assign path key value], rest)
            | _ => none
      | _ => none

end

/-! ## Documents -/

/-- Reads a header: the path in it, up to the brackets that close it. -/
def header? (close : List Char) (cs : List Char) : Option (List String × List Char) :=
  (keyWithin (cs.length + 1) cs).bind fun (path, rest) =>
    if close.isPrefixOf rest then some (path, rest.drop close.length) else none

/-- Reads one statement through the end of its line. -/
def statement? (cs : List Char) : Option (Statement × List Char) :=
  match cs with
  | '[' :: '[' :: rest => (header? [']', ']'] rest).bind fun (path, rest) =>
    (endOfLine? rest).map fun rest => (.openItem path, rest)
  | '[' :: rest => (header? [']'] rest).bind fun (path, rest) =>
    (endOfLine? rest).map fun rest => (.openTable path, rest)
  | cs => (key? cs).bind fun
    | ((path, key), '=' :: rest) =>
      (valueWithin (rest.length + 1) (skipBlank rest)).bind fun (value, rest) =>
        (endOfLine? rest).map fun rest => (.assign path key value, rest)
    | _ => none

/-- Reads statements up to the end of the text. -/
def statementsWithin : Nat → List Char → Option (List Statement)
  | 0, _ => none
  | steps + 1, cs => (skipLines cs).bind fun
    | [] => some []
    | cs => (statement? (skipBlank cs)).bind fun (s, rest) =>
      (statementsWithin steps rest).map (s :: ·)

/-- The table that a text writes. -/
def parse? (text : List Char) : Option Toml :=
  let cs := match text with
    | '\uFEFF' :: cs => cs
    | cs => cs
  (statementsWithin (cs.length + 1) cs).bind build?

end ServiceLint.Toml
