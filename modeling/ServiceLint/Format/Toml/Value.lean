import ServiceLint.Format.Document

/-!
# TOML values

Texts, integers, truth values, arrays and tables. Decimal fractions and dates are left out: no record
that is read from this format has a field for them, so a document that holds one is refused.
-/
namespace ServiceLint

inductive Toml where
  | bool (value : Bool)
  | int (value : Int)
  | str (value : String)
  | arr (items : List Toml)
  | table (entries : List (String × Toml))
deriving Repr, Inhabited

namespace Toml

def isVoid : Toml → Bool
  | .arr [] | .table [] => true
  | _ => false

/-- A table is a record, and so is an array of the fields in order of declaration. A word may also be
written as a table with that one name and nothing in it. -/
instance : Document Toml where
  text?
    | .str s => some s
    | _ => none
  nat?
    | .int n => if 0 ≤ n then some n.toNat else none
    | _ => none
  bool?
    | .bool b => some b
    | _ => none
  list?
    | .arr items => some items
    | _ => none
  table?
    | .table entries => some entries
    | _ => none
  record? names
    | .table entries => some entries
    | .arr items => if names.length < items.length then none else some (names.zip items)
    | _ => none
  choice?
    | .str s => some s
    | .table [(w, v)] => if v.isVoid then some w else none
    | _ => none

end Toml

end ServiceLint
