import ServiceLint.Format.Json.Value

/-!
# Documents

What a configuration reader asks of a data format. Formats differ in how a value is written, not in
what a record needs: texts, numbers, truth values, lists, tables, one word out of several, and records
with named fields.
-/
namespace ServiceLint

/-- A data format whose values can be read as the parts of a record. -/
class Document (δ : Type) where
  /-- The value as a text. -/
  text? : δ → Option String
  /-- The value as a natural number. -/
  nat? : δ → Option Nat
  /-- The value as a truth value. -/
  bool? : δ → Option Bool
  /-- The value as a list. -/
  list? : δ → Option (List δ)
  /-- The value as a table, the last entry of a name counting. -/
  table? : δ → Option (List (String × δ))
  /-- The value as a record whose fields, in order of declaration, have the given names. -/
  record? : List String → δ → Option (List (String × δ))
  /-- The value as one word out of several. -/
  choice? : δ → Option String

namespace Document

/-- A field that must be there, read by `f`. -/
def required (fields : List (String × δ)) (name : String) (f : δ → Option α) : Option α :=
  (fields.lookup name).bind f

/-- A field that may be missing, read by `f`; then `default` stands for it. -/
def withDefault (fields : List (String × δ)) (name : String) (default : α) (f : δ → Option α) :
    Option α :=
  match fields.lookup name with
  | none => some default
  | some v => f v

/-- The fields of a record that has no other fields than the given ones. -/
def closedRecord? [Document δ] (names : List String) (v : δ) : Option (List (String × δ)) :=
  (record? names v).filter fun fields => fields.all fun e => names.contains e.1

/-- A list, each item read by `f`. -/
def listOf? [Document δ] (f : δ → Option α) (v : δ) : Option (List α) :=
  (list? v).bind fun items => items.mapM f

/-- A value out of several, each known by its word. -/
def choiceOf? [Document δ] (all : List α) (word : α → String) (v : δ) : Option α :=
  (choice? v).bind fun w => all.find? fun a => word a == w

end Document

/-- Whether one of the names occurs twice among the entries. -/
def repeatsName (names : List String) (entries : List (String × δ)) : Bool :=
  names.any fun n => 1 < entries.countP (·.1 == n)

namespace Json

/-- A JSON object is a record unless it repeats a field; so is an array of the fields in order of
declaration, from which fields at the end may be missing. A word may also be written as an object with
that one name and no value. -/
instance : Document Json where
  text?
    | .str s => some s
    | _ => none
  nat?
    | .num (.int n) => if 0 ≤ n then some n.toNat else none
    | _ => none
  bool?
    | .bool b => some b
    | _ => none
  list?
    | .arr items => some items
    | _ => none
  table?
    | .obj members => some members
    | _ => none
  record? names
    | .obj members => if repeatsName names members then none else some members
    | .arr items => if names.length < items.length then none else some (names.zip items)
    | _ => none
  choice?
    | .str s => some s
    | .obj [(w, .null)] => some w
    | _ => none

end Json

end ServiceLint
