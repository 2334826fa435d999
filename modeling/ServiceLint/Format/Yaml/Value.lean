import ServiceLint.Format.Digits
import ServiceLint.Format.Document

/-!
# YAML values

Scalars, sequences and mappings with scalar keys. A scalar is kept as text; what it means depends on
the field that it is read for. Only a scalar without quotes can stand for a missing value.
-/
namespace ServiceLint

inductive Yaml where
  | scalar (isPlain : Bool) (text : String)
  | seq (items : List Yaml)
  | map (entries : List (String × Yaml))
deriving Repr, Inhabited

namespace Yaml

/-- The value that is not there. -/
def missing : Yaml := .scalar true ""

/-- A letter of the ASCII block in lower case. -/
def lower (s : String) : String := String.ofList (s.toList.map Char.toLower)

/-- Whether a plain scalar stands for a missing value. -/
def isNullWord (s : String) : Bool := s == "" || s == "~" || lower s == "null"

def isNull : Yaml → Bool
  | .scalar true s => isNullWord s
  | _ => false

/-- The natural number that a scalar writes: in base 10, or with a mark in base 16, 8 or 2. Underscores
are passed over. -/
def natOf? (s : String) : Option Nat :=
  let cs := match s.toList with
    | '+' :: cs => cs
    | cs => cs
  let digits (ds : List Char) := ds.filter (· != '_')
  match cs with
  | '0' :: 'x' :: ds | '0' :: 'X' :: ds => Digits.number? 16 (digits ds)
  | '0' :: 'o' :: ds | '0' :: 'O' :: ds => Digits.number? 8 (digits ds)
  | '0' :: 'b' :: ds | '0' :: 'B' :: ds => Digits.number? 2 (digits ds)
  | ds => Digits.number? 10 (digits ds)

/-- The truth value that a scalar writes, in any case. -/
def boolOf? (s : String) : Option Bool :=
  let w := lower s
  if ["true", "yes", "y", "on"].contains w then some true
  else if ["false", "no", "n", "off"].contains w then some false
  else none

/-- A mapping is a record. A missing value is an empty list, table or record, but no text. -/
instance : Document Yaml where
  text?
    | .scalar isPlain s => if isPlain && isNullWord s then none else some s
    | _ => none
  nat?
    | .scalar _ s => natOf? s
    | _ => none
  bool?
    | .scalar _ s => boolOf? s
    | _ => none
  list?
    | .seq items => some items
    | v => if v.isNull then some [] else none
  table?
    | .map entries => some entries
    | v => if v.isNull then some [] else none
  record? _
    | .map entries => some entries
    | v => if v.isNull then some [] else none
  choice?
    | .scalar _ s => some s
    | .map [(w, v)] => if v.isNull then some w else none
    | _ => none

end Yaml

end ServiceLint
