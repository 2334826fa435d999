import ServiceLint.Format.Digits
import ServiceLint.Format.Json.Value

/-!
# Reading JSON

The strict grammar: no comments, no trailing commas, no leading zeros, no raw control characters in
strings, no escapes of lone surrogates, and nothing but white space around the value. Nested values
are read with a bound on the number of steps, which the length of the text always covers. The program
runs with this reader in place of the package's, which rounds decimals and refuses deep nesting.
-/
namespace ServiceLint.Json

def skipSpace (cs : List Char) : List Char :=
  cs.dropWhile fun c => c == ' ' || c == '\n' || c == '\t' || c == '\r'

/-- The scalar value of two surrogates. -/
def joinSurrogates (high low : Nat) : Nat := 0x10000 + (high - 0xD800) * 0x400 + (low - 0xDC00)

/-- The character of a one-letter escape. -/
def simpleEscape? : Char → Option Char
  | '"' => some '"'
  | '\\' => some '\\'
  | '/' => some '/'
  | 'b' => some '\x08'
  | 'f' => some '\x0c'
  | 'n' => some '\n'
  | 'r' => some '\r'
  | 't' => some '\t'
  | _ => none

/-- The characters up to the closing quote, and what follows it. -/
def stringTail : List Char → Option (List Char × List Char)
  | [] => none
  | '"' :: cs => some ([], cs)
  | '\\' :: 'u' :: a :: b :: c :: d :: '\\' :: 'u' :: e :: f :: g :: h :: cs => do
    let first ← Digits.number? 16 [a, b, c, d]
    if 0xD800 ≤ first ∧ first < 0xDC00 then
      let second ← Digits.number? 16 [e, f, g, h]
      if 0xDC00 ≤ second ∧ second < 0xE000 then
        let (chars, rest) ← stringTail cs
        return (Char.ofNat (joinSurrogates first second) :: chars, rest)
      else none
    else if 0xDC00 ≤ first ∧ first < 0xE000 then none
    else
      let (chars, rest) ← stringTail ('\\' :: 'u' :: e :: f :: g :: h :: cs)
      return (Char.ofNat first :: chars, rest)
  | '\\' :: 'u' :: a :: b :: c :: d :: cs => do
    let code ← Digits.number? 16 [a, b, c, d]
    if 0xD800 ≤ code ∧ code < 0xE000 then none
    else
      let (chars, rest) ← stringTail cs
      return (Char.ofNat code :: chars, rest)
  | '\\' :: c :: cs => do
    let escaped ← simpleEscape? c
    let (chars, rest) ← stringTail cs
    return (escaped :: chars, rest)
  | c :: cs =>
    if c.toNat < 0x20 then none
    else (stringTail cs).map fun (chars, rest) => (c :: chars, rest)

def digitsValue (cs : List Char) : Nat := (Digits.extend? 10 0 cs).getD 0

/-- Splits after the leading digits, of which there must be one. -/
def digits1? (cs : List Char) : Option (List Char × List Char) :=
  match cs.takeWhile Char.isDigit with
  | [] => none
  | ds => some (ds, cs.dropWhile Char.isDigit)

/-- Splits after the integer part of a number: a zero, or digits that do not start with one. -/
def wholePart? (cs : List Char) : Option (List Char × List Char) :=
  match digits1? cs with
  | some ('0' :: _ :: _, _) => none
  | other => other

/-- Splits after a fraction, if there is a point. -/
def fraction? : List Char → Option (List Char × List Char)
  | '.' :: cs => digits1? cs
  | cs => some ([], cs)

/-- Splits after an exponent, if there is one. -/
def exponent? : List Char → Option (Option Int × List Char)
  | e :: cs =>
    if e = 'e' ∨ e = 'E' then
      match cs with
      | '-' :: cs => (digits1? cs).map fun (ds, rest) => (some (-(digitsValue ds : Int)), rest)
      | '+' :: cs => (digits1? cs).map fun (ds, rest) => (some (digitsValue ds : Int), rest)
      | cs => (digits1? cs).map fun (ds, rest) => (some (digitsValue ds : Int), rest)
    else some (none, e :: cs)
  | [] => some (none, [])

/-- A number without sign: its integer part, its fraction and its exponent. Integers are those
between the least 64-bit signed and the greatest 64-bit unsigned one; zero with a sign, and any
integer beyond, is a decimal. -/
def makeNumber (negative : Bool) (whole fraction : List Char) (exponent : Option Int) :
    JsonNumber :=
  let magnitude : Int := digitsValue (whole ++ fraction)
  let signed := if negative then -magnitude else magnitude
  let isInt := fraction.isEmpty && exponent.isNone && !(negative && magnitude == 0)
  if isInt && decide (-9223372036854775808 ≤ signed) && decide (signed < 18446744073709551616) then
    .int signed
  else .decimal signed (exponent.getD 0 - fraction.length)

/-- The number at the start of a text, and what follows it. -/
def number? (cs : List Char) : Option (JsonNumber × List Char) := do
  let (negative, cs) := match cs with
    | '-' :: cs => (true, cs)
    | cs => (false, cs)
  let (whole, cs) ← wholePart? cs
  let (fraction, cs) ← fraction? cs
  let (exponent, cs) ← exponent? cs
  return (makeNumber negative whole fraction exponent, cs)

mutual

/-- The value at the start of a text, and what follows it. -/
def valueWithin : Nat → List Char → Option (Json × List Char)
  | 0, _ => none
  | steps + 1, cs => match skipSpace cs with
    | 'n' :: 'u' :: 'l' :: 'l' :: rest => some (.null, rest)
    | 't' :: 'r' :: 'u' :: 'e' :: rest => some (.bool true, rest)
    | 'f' :: 'a' :: 'l' :: 's' :: 'e' :: rest => some (.bool false, rest)
    | '"' :: rest => (stringTail rest).map fun (chars, rest) => (.str (String.ofList chars), rest)
    | '[' :: rest => match skipSpace rest with
      | ']' :: rest => some (.arr [], rest)
      | rest => (itemsWithin steps rest).map fun (items, rest) => (.arr items, rest)
    | '\x7b' :: rest => match skipSpace rest with
      | '\x7d' :: rest => some (.obj [], rest)
      | rest => (membersWithin steps rest).map fun (members, rest) => (.obj members, rest)
    | rest => (number? rest).map fun (n, rest) => (.num n, rest)

/-- The items of an array up to its closing bracket, and what follows it. -/
def itemsWithin : Nat → List Char → Option (List Json × List Char)
  | 0, _ => none
  | steps + 1, cs => do
    let (item, rest) ← valueWithin steps cs
    match skipSpace rest with
    | ',' :: rest =>
      let (items, rest) ← itemsWithin steps rest
      return (item :: items, rest)
    | ']' :: rest => return ([item], rest)
    | _ => none

/-- The members of an object up to its closing brace, and what follows it. -/
def membersWithin : Nat → List Char → Option (List (String × Json) × List Char)
  | 0, _ => none
  | steps + 1, cs => match skipSpace cs with
    | '"' :: cs => do
      let (name, rest) ← stringTail cs
      match skipSpace rest with
      | ':' :: rest =>
        let (value, rest) ← valueWithin steps rest
        match skipSpace rest with
        | ',' :: rest =>
          let (members, rest) ← membersWithin steps rest
          return ((String.ofList name, value) :: members, rest)
        | '\x7d' :: rest => return ([(String.ofList name, value)], rest)
        | _ => none
      | _ => none
    | _ => none

end

/-- The value of a text that holds one value and nothing else. -/
def parse? (text : List Char) : Option Json :=
  match valueWithin (text.length + 1) text with
  | some (value, rest) => if (skipSpace rest).isEmpty then some value else none
  | none => none

end ServiceLint.Json
