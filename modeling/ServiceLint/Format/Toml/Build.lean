import ServiceLint.Format.Toml.Value

/-!
# Building TOML tables

A document is a list of statements: assignments and table headers. This module carries them out. A key
is assigned once, a table is opened by one header, and tables that dotted keys made are extended by
dotted keys only.
-/
namespace ServiceLint.Toml

/-- How a table came to be. -/
inductive Origin where
  /-- On the way to a table that was opened by a header. -/
  | implied
  /-- By a header of its own. -/
  | header
  /-- By a dotted key. -/
  | dotted
deriving DecidableEq, Repr

/-- A document under construction. -/
inductive Node where
  | value (value : Toml)
  | table (origin : Origin) (entries : List (String × Node))
  /-- Tables that are opened one after the other by headers of the same name. -/
  | tables (items : List (List (String × Node)))
deriving Inhabited

abbrev Entries := List (String × Node)

/-- A line of a document. -/
inductive Statement where
  /-- Opens the table of that path. -/
  | openTable (path : List String)
  /-- Opens one more table in the list of that path. -/
  | openItem (path : List String)
  /-- Assigns a value, in the open table, to a key with the path to it. -/
  | assign (path : List String) (key : String) (value : Toml)

/-- Changes the entry of a name, which may be missing. -/
def alter (entries : Entries) (name : String) (f : Option Node → Option Node) : Option Entries :=
  match entries with
  | [] => (f none).map fun node => [(name, node)]
  | (n, node) :: rest =>
    if n == name then (f (some node)).map fun node => (n, node) :: rest
    else (alter rest name f).map fun rest => (n, node) :: rest

/-- Changes the last item of a list of tables. -/
def alterLast (items : List Entries) (f : Entries → Option Entries) : Option (List Entries) :=
  match items.reverse with
  | [] => none
  | last :: front => (f last).map fun last => (last :: front).reverse

/-- Changes the table at a path. Tables that are missing are implied; in a list of tables the last one
is meant. -/
def descend (f : Entries → Option Entries) : List String → Entries → Option Entries
  | [], entries => f entries
  | name :: path, entries => alter entries name fun
    | none => (descend f path []).map (.table .implied)
    | some (.table origin inner) => (descend f path inner).map (.table origin)
    | some (.tables items) => (alterLast items (descend f path)).map .tables
    | some (.value _) => none

/-- Assigns a value, in a table, to a key with the path to it. -/
def assignIn (key : String) (value : Toml) : List String → Entries → Option Entries
  | [], entries => alter entries key fun
    | none => some (.value value)
    | some _ => none
  | name :: path, entries => alter entries name fun
    | none => (assignIn key value path []).map (.table .dotted)
    | some (.table .dotted inner) => (assignIn key value path inner).map (.table .dotted)
    | some _ => none

/-- Opens a table of that name. -/
def openTable (name : String) (entries : Entries) : Option Entries :=
  alter entries name fun
    | none => some (.table .header [])
    | some (.table .implied inner) => some (.table .header inner)
    | some _ => none

/-- Opens one more table in the list of that name. -/
def openItem (name : String) (entries : Entries) : Option Entries :=
  alter entries name fun
    | none => some (.tables [[]])
    | some (.tables items) => some (.tables (items ++ [[]]))
    | some _ => none

/-- Opens the last name of a path by `f`, in the table that the rest of the path leads to. -/
def openAt (f : String → Entries → Option Entries) (path : List String) (root : Entries) :
    Option Entries :=
  path.getLast?.bind fun name => descend (f name) path.dropLast root

/-- Carries out statements, of which the first assign to the table at `current`. -/
def run (current : List String) (root : Entries) : List Statement → Option Entries
  | [] => some root
  | .openTable path :: rest => (openAt openTable path root).bind fun root => run path root rest
  | .openItem path :: rest => (openAt openItem path root).bind fun root => run path root rest
  | .assign path key value :: rest =>
    (descend (assignIn key value path) current root).bind fun root => run current root rest

mutual

/-- The value of a node. -/
def Node.finish : Node → Toml
  | .value v => v
  | .table _ entries => .table (finishEntries entries)
  | .tables items => .arr (finishItems items)

def finishEntries : List (String × Node) → List (String × Toml)
  | [] => []
  | (name, node) :: rest => (name, node.finish) :: finishEntries rest

def finishItems : List (List (String × Node)) → List Toml
  | [] => []
  | entries :: rest => .table (finishEntries entries) :: finishItems rest

end

/-- The table that the statements make. -/
def build? (statements : List Statement) : Option Toml :=
  (run [] [] statements).map fun root => .table (finishEntries root)

end ServiceLint.Toml
