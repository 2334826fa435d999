/-!
# JSON values

Objects keep the order of their members, and a repeated name stays in the list. A number is either
an integer or a decimal with its exponent, because a record that holds an integer does not accept
`1.0` or `1e2`. A decimal is kept as it was written; a package may keep the nearest number that it has.
-/
namespace ServiceLint

/-- A JSON number. -/
inductive JsonNumber where
  /-- A number written without fraction and exponent. -/
  | int (value : Int)
  /-- The number `mantissa * 10 ^ exponent`. -/
  | decimal (mantissa : Int) (exponent : Int)
deriving DecidableEq, Repr

inductive Json where
  | null
  | bool (value : Bool)
  | num (value : JsonNumber)
  | str (value : String)
  | arr (items : List Json)
  | obj (members : List (String × Json))
deriving Repr, Inhabited

namespace Json

def nat (n : Nat) : Json := .num (.int n)

def optional (f : α → Json) : Option α → Json
  | none => .null
  | some a => f a

def list (f : α → Json) (xs : List α) : Json := .arr (xs.map f)

/-- The value of the last member of that name. -/
def get? (j : Json) (name : String) : Option Json :=
  match j with
  | .obj members => (members.reverse.find? (·.1 == name)).map (·.2)
  | _ => none

end Json

end ServiceLint
