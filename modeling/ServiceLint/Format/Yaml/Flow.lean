import ServiceLint.Format.Yaml.Scalar
import ServiceLint.Format.Yaml.Value

/-!
# YAML in brackets and braces

Sequences in brackets and mappings in braces. They may reach over several lines, none of which may
start before a given column. Nested values are read with a bound on the number of steps, which the
length of the text always covers.
-/
namespace ServiceLint.Yaml

/-- Passes over blanks, line breaks and comments. A comment follows a blank or starts a line, which
`spaced` says of the first character; the first character of a line must stand in column `least` or
after it. -/
def flowSpaceWithin (least : Nat) : Nat → Bool → List Char → Option (List Char)
  | 0, _, _ => none
  | steps + 1, spaced, cs => match cs with
    | '\n' :: rest =>
      let next := rest.dropWhile (· == ' ')
      match next with
      | [] => some []
      | c :: _ =>
        if isSpaceChar c || c == '#' || least ≤ rest.length - next.length then
          flowSpaceWithin least steps true next
        else none
    | '#' :: rest =>
      if spaced then flowSpaceWithin least steps true (rest.dropWhile (· != '\n')) else some cs
    | c :: rest => if isBlankChar c then flowSpaceWithin least steps true rest else some cs
    | [] => some []

/-- Passes over blanks, line breaks and comments. -/
def flowSpace (least : Nat) (cs : List Char) : Option (List Char) :=
  flowSpaceWithin least (cs.length + 1) false cs

/-- The further lines of a plain scalar. -/
def plainLinesWithin (least : Nat) : Nat → List Char → List (List Char) × List Char
  | 0, cs => ([], cs)
  | steps + 1, cs => match cs with
    | '\n' :: rest =>
      let next := skipBlank rest
      match next with
      | '\n' :: _ => match plainLinesWithin least steps next with
        | (lines, rest) => if lines.isEmpty then ([], cs) else ([] :: lines, rest)
      | c :: _ =>
        if isFlowMark c || c == '#' || rest.length - next.length < least then ([], cs)
        else match plainPart true ' ' next with
          | ([], _) => ([], cs)
          | (part, rest) => match plainLinesWithin least steps rest with
            | (lines, rest) => (dropBlankEnd part :: lines, rest)
      | [] => ([], cs)
    | _ => ([], cs)

/-- Reads a scalar: quoted or plain. -/
def flowScalar? (least : Nat) (cs : List Char) : Option (Yaml × List Char) :=
  match cs with
  | '"' :: rest => (double? rest).map fun (s, rest) => (.scalar false s, rest)
  | '\x27' :: rest => (single? rest).map fun (s, rest) => (.scalar false s, rest)
  | cs =>
    if startsPlain true cs then
      let (first, rest) := plainPart true ' ' cs
      let (lines, rest) := plainLinesWithin least (rest.length + 1) rest
      some (.scalar true (String.ofList (foldLines (dropBlankEnd first :: lines))), rest)
    else none

/-- The text of a key. A missing value is no key. -/
def keyText? : Yaml → Option String
  | .scalar isPlain s => if isPlain && isNullWord s then none else some s
  | _ => none

/-- Passes over the colon between a key and its value. After a plain key a blank, a break or a mark
must follow it. -/
def flowColon? (isPlain : Bool) : List Char → Option (List Char)
  | ':' :: rest => match rest with
    | [] => some []
    | c :: _ => if !isPlain || isSpaceChar c || isFlowMark c then some rest else none
  | _ => none

def isPlainScalar : Yaml → Bool
  | .scalar isPlain _ => isPlain
  | _ => false

mutual

/-- Reads a value in brackets or braces. -/
def flowValueWithin (least : Nat) : Nat → List Char → Option (Yaml × List Char)
  | 0, _ => none
  | steps + 1, cs => match cs with
    | '[' :: rest => (flowItemsWithin least steps rest).map fun (items, rest) => (.seq items, rest)
    | '\x7b' :: rest => (flowPairsWithin least steps [] rest).map fun (pairs, rest) =>
      (.map pairs, rest)
    | cs => flowScalar? least cs

/-- Reads the value after the colon of a pair; it may be missing. -/
def flowPairValueWithin (least : Nat) : Nat → List Char → Option (Yaml × List Char)
  | 0, _ => none
  | steps + 1, cs => (flowSpace least cs).bind fun
    | [] => none
    | c :: rest =>
      if c == ',' || c == ']' || c == '\x7d' then some (missing, c :: rest)
      else flowValueWithin least steps (c :: rest)

/-- Reads the items of a sequence through its closing bracket. An item may be a single pair. -/
def flowItemsWithin (least : Nat) : Nat → List Char → Option (List Yaml × List Char)
  | 0, _ => none
  | steps + 1, cs => (flowSpace least cs).bind fun
    | ']' :: rest => some ([], rest)
    | cs => (flowValueWithin least steps cs).bind fun (item, rest) =>
      (flowSpace least rest).bind fun rest =>
        let pair := match flowColon? (isPlainScalar item) rest with
          | none => some (item, rest)
          | some rest => (keyText? item).bind fun key =>
            (flowPairValueWithin least steps rest).map fun (value, rest) =>
              (.map [(key, value)], rest)
        pair.bind fun (item, rest) => (flowSpace least rest).bind fun
          | ',' :: rest => (flowItemsWithin least steps rest).map fun (items, rest) =>
            (item :: items, rest)
          | ']' :: rest => some ([item], rest)
          | _ => none

/-- Reads the pairs of a mapping through its closing brace. The keys in `seen` may not come again. -/
def flowPairsWithin (least : Nat) :
    Nat → List String → List Char → Option (List (String × Yaml) × List Char)
  | 0, _, _ => none
  | steps + 1, seen, cs => (flowSpace least cs).bind fun
    | '\x7d' :: rest => some ([], rest)
    | cs => (flowScalar? least cs).bind fun (item, rest) => (keyText? item).bind fun key =>
      if seen.contains key then none
      else (flowSpace least rest).bind fun rest =>
        let value := match flowColon? (isPlainScalar item) rest with
          | none => some (missing, rest)
          | some rest => flowPairValueWithin least steps rest
        value.bind fun (value, rest) => (flowSpace least rest).bind fun
          | ',' :: rest => (flowPairsWithin least steps (key :: seen) rest).map
            fun (pairs, rest) => ((key, value) :: pairs, rest)
          | '\x7d' :: rest => some ([(key, value)], rest)
          | _ => none

end

/-- Reads a value that starts with a bracket or a brace. -/
def flow? (least : Nat) (cs : List Char) : Option (Yaml × List Char) :=
  flowValueWithin least (cs.length + 1) cs

end ServiceLint.Yaml
