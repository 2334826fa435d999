import ServiceLint.Disk.Basic
import ServiceLint.Disk.Glob.Pattern

/-!
# Paths that fit a pattern

A pattern for paths is one pattern for each component. It is followed from the working directory or from
the root, one component after the other.
-/
namespace ServiceLint

namespace Glob

/-- One pattern for each component of a path. -/
abbrev Segments := List (List Token)

/-- A `**` just after another one adds nothing. -/
def collapse : Segments → Segments
  | [] => []
  | s :: ss => match collapse ss with
    | t :: ts => if s == [.anyDepth] && t == [.anyDepth] then t :: ts else s :: t :: ts
    | [] => [s]

end Glob

structure Glob where
  isAbsolute : Bool
  segments : Glob.Segments
  /-- Whether only directories fit, as a slash at the end asks. -/
  wantsDirectory : Bool

namespace Glob

/-- Reads a pattern: it must be right as a whole and by components. -/
def parse (text : String) : Except GlobError Glob := do
  let cs := text.toList
  let _ ← read 0 none cs
  let isAbsolute := cs.head? == some '/'
  let parts := Text.splitAll '/' (if isAbsolute then cs.drop 1 else cs)
  let parts := if parts.length != 1 && parts.getLast? == some [] then parts.dropLast else parts
  return ⟨isAbsolute, collapse (← parts.mapM (read 0 none)), cs.getLast? == some '/'⟩

/-- The path of an entry of the directory that `p` leads to. In the working directory the name is
enough. -/
def entryPath (p : Path) (name : String) : Path :=
  if p.components == [.current] then ⟨name⟩ else p.join name

/-- The directory from which a pattern is compared with names; none when it stands for itself. -/
def base? (g : Glob) : Option Path :=
  let fixed := g.segments.takeWhile fun s => (literal? s).isSome
  if fixed.length == g.segments.length then none
  else some ((fixed.filterMap literal?).foldl (fun p name => entryPath p (String.ofList name))
    ⟨if g.isAbsolute then "/" else "."⟩)

/-- All paths below `p`, down to a depth. -/
def below (d : Disk) : Nat → Path → List Path
  | 0, _ => []
  | depth + 1, p => (d.entries p).flatMap fun name =>
    let q := entryPath p name
    q :: below d depth q

/-- The depth that a disk does not exceed. -/
def depthOf (d : Disk) : Nat := (d.places.map List.length).foldl max 0

/-- The paths that the segments lead to from `p`. A segment that stands for itself is looked up; others
are compared with the names in the directory. The two special directories are found by a segment that
starts with a dot. -/
def expandFrom (d : Disk) : Segments → Path → List Path
  | [], p => [p]
  | [[.anyDepth]], p => (below d (depthOf d) p).filter d.isDirectory
  | [.anyDepth] :: s :: ss, p => (below d (depthOf d) p).flatMap fun q =>
    if (q.fileName?).any fun name => fits s name.toList then expandFrom d ss q else []
  | s :: ss, p => match literal? s with
    | some name =>
      let name := String.ofList name
      let q := entryPath p name
      if name == "." || name == ".." then
        if d.isDirectory p then expandFrom d ss q else []
      else if d.reaches q then expandFrom d ss q
      else []
    | none =>
      let special := if s.head? == some (.char '.') && d.isDirectory p then
          [".", ".."].filter fun name => fits s name.toList
        else []
      ((d.entries p).filter fun name => fits s name.toList).flatMap
          (fun name => expandFrom d ss (entryPath p name))
        ++ special.flatMap fun name => expandFrom d ss (p.join name)

/-- The paths on a disk that fit a pattern. -/
def expand (d : Disk) (g : Glob) : List Path :=
  let found := expandFrom d g.segments ⟨if g.isAbsolute then "/" else "."⟩
  if g.wantsDirectory then found.filter d.isDirectory else found

end Glob

end ServiceLint
