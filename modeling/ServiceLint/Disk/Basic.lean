import ServiceLint.Disk.Path

/-!
# Disks

A disk is a set of files and directories with a working directory, as far as it is known. A place on it
is the list of names from the root. What contains a file or another directory is a directory itself.
-/
namespace ServiceLint

/-- A place on a disk: the names that lead to it from the root. -/
abbrev Place := List String

/-- The path from the root to a place. -/
def Place.path (place : Place) : Path := ⟨"/" ++ "/".intercalate place⟩

/-- The place that a path leads to from a working directory, by its parts alone. -/
def Path.placeFrom (working : Place) (p : Path) : Place :=
  p.parts.foldl step (if p.isAbsolute then [] else working)
where
  /-- One part further. -/
  step (place : Place) : List Char → Place
    | [] | ['.'] => place
    | ['.', '.'] => place.dropLast
    | name => place ++ [String.ofList name]

/-- The paths that lead to a path part by part, the path itself last. -/
def Path.stages (p : Path) : List Path :=
  (List.range p.parts.length).map fun n =>
    ⟨String.ofList (['/'].intercalate (p.parts.take (n + 1)))⟩

/-- A disk: its files with their content, directories that need not hold any, and the working
directory. -/
structure Disk where
  files : List (Place × ByteArray)
  directories : List Place := []
  working : Place := []

/-- Why a path cannot be read. -/
inductive AccessError where
  | notFound
  | notDirectory
  | isDirectory
  | notText
deriving DecidableEq, Repr

def AccessError.message : AccessError → String
  | .notFound => "No such file or directory (os error 2)"
  | .notDirectory => "Not a directory (os error 20)"
  | .isDirectory => "Is a directory (os error 21)"
  | .notText => "stream did not contain valid UTF-8"

namespace Disk

/-- The places that are known to be there. -/
def places (d : Disk) : List Place := d.files.map (·.1) ++ d.directories ++ [d.working]

def hasFile (d : Disk) (place : Place) : Bool := d.files.any (·.1 == place)

def hasDirectory (d : Disk) (place : Place) : Bool :=
  place.isEmpty || (!d.hasFile place && d.places.any place.isPrefixOf)

/-- Follows the parts of a path from a place. Each part asks that what came before is a directory. -/
def follow (d : Disk) (place : Place) : List (List Char) → Except AccessError Place
  | [] => .ok place
  | part :: parts =>
    if !d.hasDirectory place then .error .notDirectory
    else match part with
      | [] | ['.'] => d.follow place parts
      | ['.', '.'] => d.follow place.dropLast parts
      | name =>
        let next := place ++ [String.ofList name]
        if d.hasFile next || d.hasDirectory next then d.follow next parts else .error .notFound

/-- The place that a path leads to. -/
def find (d : Disk) (p : Path) : Except AccessError Place :=
  if p.text.isEmpty then .error .notFound
  else d.follow (if p.isAbsolute then [] else d.working) p.parts

def reaches (d : Disk) (p : Path) : Bool := (d.find p).toOption.isSome

def isFile (d : Disk) (p : Path) : Bool := (d.find p).toOption.any d.hasFile

def isDirectory (d : Disk) (p : Path) : Bool := (d.find p).toOption.any d.hasDirectory

/-- The text of the file that a path leads to. -/
def readText (d : Disk) (p : Path) : Except AccessError (List Char) := do
  let place ← d.find p
  match d.files.lookup place with
  | none => throw .isDirectory
  | some bytes => match String.fromUTF8? bytes with
    | none => throw .notText
    | some s => return s.toList

/-- The names of what the directory at a place holds. -/
def namesIn (d : Disk) (place : Place) : List String :=
  (d.places.filterMap fun p =>
    if place.isPrefixOf p then (p.drop place.length).head? else none).eraseDups

/-- The names of what the directory at the end of a path holds. -/
def entries (d : Disk) (p : Path) : List String :=
  match d.find p with
  | .ok place => if d.hasDirectory place then d.namesIn place else []
  | .error _ => []

/-- The disk after the file that a path leads to has been given new content. -/
def write (d : Disk) (p : Path) (text : List Char) : Disk :=
  match d.find p with
  | .ok place => { d with files := d.files.map fun f =>
      if f.1 == place then (f.1, (String.ofList text).toUTF8) else f }
  | .error _ => d

end Disk

end ServiceLint
