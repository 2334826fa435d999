import ServiceLint.Format.Json.Value

/-!
# Printing JSON

`Json.compact` prints without spaces; `Json.pretty` indents by two spaces and puts each item and
member on a line of its own. Characters beyond ASCII are printed as they are. The program runs with this
printer in place of the package's.
-/
namespace ServiceLint.Json

def hexDigit (n : Nat) : Char := (Nat.toDigits 16 (n % 16)).headD '0'

/-- A character as it stands in a JSON string. -/
def escapeChar (c : Char) : List Char :=
  if c = '"' then ['\\', '"']
  else if c = '\\' then ['\\', '\\']
  else if c = '\n' then ['\\', 'n']
  else if c = '\r' then ['\\', 'r']
  else if c = '\t' then ['\\', 't']
  else if c = '\x08' then ['\\', 'b']
  else if c = '\x0c' then ['\\', 'f']
  else if c.toNat < 0x20 then
    ['\\', 'u', '0', '0', hexDigit (c.toNat / 16), hexDigit c.toNat]
  else [c]

/-- A JSON string with its quotes. -/
def quoted (s : String) : String :=
  "\"" ++ String.ofList (s.toList.flatMap escapeChar) ++ "\""

/-- The text of a number. -/
def numberText : JsonNumber → String
  | .int n => toString n
  | .decimal m e => s!"{m}e{e}"

mutual

/-- The text of a value, without spaces. -/
def compact : Json → String
  | .null => "null"
  | .bool b => if b then "true" else "false"
  | .num n => numberText n
  | .str s => quoted s
  | .arr items => "[" ++ ",".intercalate (compactItems items) ++ "]"
  | .obj members => "\x7b" ++ ",".intercalate (compactMembers members) ++ "\x7d"

def compactItems : List Json → List String
  | [] => []
  | item :: items => item.compact :: compactItems items

def compactMembers : List (String × Json) → List String
  | [] => []
  | (name, value) :: members => (quoted name ++ ":" ++ value.compact) :: compactMembers members

end

/-- A line break followed by `depth` levels of indentation. -/
def newline (depth : Nat) : String := "\n" ++ String.ofList (List.replicate (2 * depth) ' ')

/-- Encloses the texts of items, one on a line, or nothing at all. -/
def enclose (openText closeText : String) (depth : Nat) : List String → String
  | [] => openText ++ closeText
  | items =>
    openText ++ newline (depth + 1) ++ ("," ++ newline (depth + 1)).intercalate items
      ++ newline depth ++ closeText

mutual

/-- The text of a value that stands at the given depth, over several lines. -/
def prettyAt (depth : Nat) : Json → String
  | .null => "null"
  | .bool b => if b then "true" else "false"
  | .num n => numberText n
  | .str s => quoted s
  | .arr items => enclose "[" "]" depth (prettyItems (depth + 1) items)
  | .obj members => enclose "\x7b" "\x7d" depth (prettyMembers (depth + 1) members)

def prettyItems (depth : Nat) : List Json → List String
  | [] => []
  | item :: items => item.prettyAt depth :: prettyItems depth items

def prettyMembers (depth : Nat) : List (String × Json) → List String
  | [] => []
  | (name, value) :: members =>
    (quoted name ++ ": " ++ value.prettyAt depth) :: prettyMembers depth members

end

/-- The text of a value over several lines. -/
def pretty (j : Json) : String := j.prettyAt 0

end ServiceLint.Json
