import ServiceLint.Text.Pieces

/-!
# Paths

A path is kept as it was written, because it is shown that way, and compared by its components:
repeated and final slashes do not count, nor does a `.` that is not at the start.
-/
namespace ServiceLint

/-- A component of a path. -/
inductive Component where
  | root
  | current
  | parent
  | name (text : String)
deriving DecidableEq, Repr

namespace Component

def rank : Component → Nat
  | .root => 0
  | .current => 1
  | .parent => 2
  | .name _ => 3

/-- Whether `a` comes before `b`: by kind, names by their characters. -/
def lt : Component → Component → Bool
  | .name s, .name t => decide (s < t)
  | a, b => a.rank < b.rank

/-- The component that a part between slashes stands for; an empty part and a `.` stand for none. -/
def ofPart? : List Char → Option Component
  | [] => none
  | ['.'] => none
  | ['.', '.'] => some .parent
  | part => some (.name (String.ofList part))

end Component

/-- A path, as it was written. -/
structure Path where
  text : String
deriving DecidableEq, Repr, Inhabited

namespace Path

def parts (p : Path) : List (List Char) := Text.splitAll '/' p.text.toList

def isAbsolute (p : Path) : Bool := p.text.toList.head? == some '/'

/-- The components of a path. -/
def components (p : Path) : List Component :=
  let inner := p.parts.filterMap Component.ofPart?
  if p.isAbsolute then .root :: inner
  else if p.parts.head? == some ['.'] then .current :: inner
  else inner

/-- Whether a list of components comes before another one, or is the same. -/
def componentsLe : List Component → List Component → Bool
  | [], _ => true
  | _ :: _, [] => false
  | a :: as, b :: bs => a.lt b || (a == b && componentsLe as bs)

/-- Whether `p` is listed before `q`, or they are the same by components. -/
def le (p q : Path) : Bool := componentsLe p.components q.components

/-- Whether two paths are the same by components. -/
def same (p q : Path) : Bool := p.components == q.components

/-- The name of the file that the path leads to. -/
def fileName? (p : Path) : Option String :=
  match p.components.getLast? with
  | some (.name s) => some s
  | _ => none

/-- The extension of the file name: what follows its last dot, which may not be its first character. -/
def extension? (p : Path) : Option String := do
  let name ← p.fileName?
  match Text.splitLast? '.' name.toList with
  | some (_ :: _, ext) => some (String.ofList ext)
  | _ => none

/-- The path that leads on from `p`. A path that starts at the root leads there from anywhere. -/
def join (p : Path) (next : String) : Path :=
  if (Path.mk next).isAbsolute then ⟨next⟩
  else match p.text.toList.getLast? with
    | none => ⟨next⟩
    | some c => if c == '/' then ⟨p.text ++ next⟩ else ⟨p.text ++ "/" ++ next⟩

end Path

end ServiceLint
