import ServiceLint.Text.Pieces
import ServiceLint.Format.Yaml.Flow

/-!
# Reading YAML

Block mappings and sequences by indentation, scalars, values in brackets and braces, comments and the
markers of a document. A text holds one document. Keys are scalars on one line, and no mapping repeats
a key.

The text is read line by line. When part of a line has been read, what is left of it stands as a line
of its own that is indented to its column, so that a sequence item or a value on the line of its key
needs no rule of its own.

The program runs with this reader in place of the package's, which also knows block scalars, anchors,
tags and explicit keys.
-/
namespace ServiceLint.Yaml

/-- A line: its indentation and what follows. -/
structure Line where
  indent : Nat
  body : List Char
deriving Repr

namespace Line

def ofChars (cs : List Char) : Line :=
  let body := cs.dropWhile (· == ' ')
  ⟨cs.length - body.length, body⟩

/-- Whether a line has nothing on it but blanks and a comment. -/
def isVoid (l : Line) : Bool :=
  match skipBlank l.body with
  | [] => true
  | c :: _ => c == '#'

def chars (l : Line) : List Char := List.replicate l.indent ' ' ++ l.body

end Line

/-- Divides a text into lines; a carriage return alone ends a line too. -/
def splitLines (text : List Char) : List Line :=
  (Text.splitAll '\n' (unify text)).map Line.ofChars
where
  /-- All line breaks as line feeds. -/
  unify : List Char → List Char
    | '\r' :: '\n' :: cs => '\n' :: unify cs
    | '\r' :: cs => '\n' :: unify cs
    | c :: cs => c :: unify cs
    | [] => []

/-- The lines as one text, the first from its body on. -/
def joinLines (first : Line) (more : List Line) : List Char :=
  ['\n'].intercalate (first.body :: more.map Line.chars)

/-- The lines of a text that is left after part of a line was read. Nothing but blanks and a comment,
which follows a blank, may be left of that line. -/
def afterInline? (cs : List Char) : Option (List Line) :=
  let line := cs.takeWhile (· != '\n')
  let isVoid := match line with
    | [] => true
    | c :: _ => isBlankChar c && (Line.mk 0 line).isVoid
  if isVoid then
    some (match cs.dropWhile (· != '\n') with
      | [] => []
      | _ :: rest => (Text.splitAll '\n' rest).map Line.ofChars)
  else none

/-- Drops lines with nothing on them. -/
def skipVoid (lines : List Line) : List Line := lines.dropWhile Line.isVoid

def startsItem (l : Line) : Bool :=
  match l.body with
  | ['-'] => true
  | '-' :: c :: _ => isBlankChar c
  | _ => false

/-- Reads the key at the start of a line: its text and what follows its colon. -/
def key? (body : List Char) : Option (String × List Char) :=
  let scalar : Option (Yaml × List Char) := match body with
    | '"' :: rest => (double? rest).map fun (s, rest) => (Yaml.scalar false s, rest)
    | '\x27' :: rest => (single? rest).map fun (s, rest) => (Yaml.scalar false s, rest)
    | cs =>
      if startsPlain false cs then
        let (part, rest) := plainPart false ' ' cs
        some (Yaml.scalar true (String.ofList (dropBlankEnd part)), rest)
      else none
  scalar.bind fun (key, rest) => (keyText? key).bind fun text => match skipBlank rest with
    | [':'] => some (text, [])
    | ':' :: c :: rest => if isBlankChar c then some (text, c :: rest) else none
    | _ => none

/-- The further lines of a plain scalar, each indented by at least `least`. A comment ends it. -/
def plainLines (least : Nat) : List Line → List (List Char) × List Line
  | [] => ([], [])
  | l :: ls =>
    if (skipBlank l.body).isEmpty then
      match plainLines least ls with
      | ([], _) => ([], l :: ls)
      | (lines, rest) => ([] :: lines, rest)
    else if l.indent < least || l.isVoid then ([], l :: ls)
    else match plainPart false ' ' (skipBlank l.body) with
      | (part, []) => match plainLines least ls with
        | (lines, rest) => (dropBlankEnd part :: lines, rest)
      | (part, rest) => ([dropBlankEnd part], ⟨l.indent + part.length, rest⟩ :: ls)

/-- Reads a scalar, or a value in brackets or braces, that starts on the first line. Its further lines
are indented more than `parent` lines are, `parent` being one more than that indentation. -/
def inline? (parent : Nat) (first : Line) (more : List Line) : Option (Yaml × List Line) :=
  let text := joinLines first more
  match first.body with
  | '"' :: _ | '\x27' :: _ =>
    (flowScalar? 0 text).bind fun (v, rest) => (afterInline? rest).map (v, ·)
  | '[' :: _ | '\x7b' :: _ =>
    (flow? (parent - 1) text).bind fun (v, rest) => (afterInline? rest).map (v, ·)
  | body =>
    if startsPlain false body then
      let (part, rest) := plainPart false ' ' body
      if !rest.isEmpty then
        match rest with
        | '#' :: _ => some (.scalar true (String.ofList (dropBlankEnd part)), more)
        | _ => none
      else
        let (lines, left) := plainLines parent more
        let value := .scalar true (String.ofList (foldLines (dropBlankEnd part :: lines)))
        match left with
        | l :: _ => match l.body with
          | ':' :: _ => none
          | _ => some (value, left)
        | [] => some (value, [])
    else none

mutual

/-- Reads the value that the next lines write when they are indented by at least `parent`. There may be
none. -/
def blockWithin (parent : Nat) : Nat → List Line → Option (Yaml × List Line)
  | 0, _ => none
  | steps + 1, lines => match skipVoid lines with
    | [] => some (missing, [])
    | l :: ls =>
      if l.indent < parent then some (missing, l :: ls)
      else if startsItem l then itemsWithin l.indent steps (l :: ls)
      else if (key? l.body).isSome then entriesWithin l.indent [] steps (l :: ls)
      else inline? parent l ls

/-- Reads the items of a sequence that are indented by `indent`. -/
def itemsWithin (indent : Nat) : Nat → List Line → Option (Yaml × List Line)
  | 0, _ => none
  | steps + 1, lines => match skipVoid lines with
    | [] => some (.seq [], [])
    | l :: ls =>
      if l.indent < indent || (l.indent == indent && !startsItem l) then some (.seq [], l :: ls)
      else if indent < l.indent then none
      else
        let body := skipBlank (l.body.drop 1)
        let first : Line := ⟨l.indent + (l.body.length - body.length), body⟩
        let inner := if first.isVoid then ls else first :: ls
        (blockWithin (indent + 1) steps inner).bind fun (item, rest) =>
          (itemsWithin indent steps rest).bind fun
            | (.seq items, rest) => some (.seq (item :: items), rest)
            | _ => none

/-- Reads the entries of a mapping that are indented by `indent`. The keys in `seen` may not come
again. -/
def entriesWithin (indent : Nat) (seen : List String) : Nat → List Line → Option (Yaml × List Line)
  | 0, _ => none
  | steps + 1, lines => match skipVoid lines with
    | [] => some (.map [], [])
    | l :: ls =>
      if l.indent < indent then some (.map [], l :: ls)
      else if indent < l.indent then none
      else (key? l.body).bind fun (key, rest) =>
        if seen.contains key then none
        else
          let body := skipBlank rest
          let first : Line := ⟨l.indent + (l.body.length - body.length), body⟩
          let value : Option (Yaml × List Line) :=
            if !first.isVoid then inline? (indent + 1) first ls
            else match skipVoid ls with
              | next :: more =>
                if next.indent == indent && startsItem next then
                  itemsWithin indent steps (next :: more)
                else blockWithin (indent + 1) steps (next :: more)
              | [] => some (missing, [])
          value.bind fun (value, rest) =>
            (entriesWithin indent (key :: seen) steps rest).bind fun
              | (.map entries, rest) => some (.map ((key, value) :: entries), rest)
              | _ => none

end

/-! ## Documents -/

/-- Whether a line is the given marker, with what follows it. -/
def marker? (mark : String) (l : Line) : Option (List Char) :=
  if l.indent == 0 && mark.toList.isPrefixOf l.body then
    match l.body.drop mark.toList.length with
    | [] => some []
    | c :: cs => if isBlankChar c then some (c :: cs) else none
  else none

def isMarker (l : Line) : Bool := (marker? "---" l).isSome || (marker? "..." l).isSome

/-- Whether a line with a value on it is indented by a tab, or holds a directive. -/
def isTabbed (l : Line) : Bool := !l.isVoid && l.body.head? == some '\t'

/-- The value of the lines of a document, the first of which may stand behind its marker. -/
def document? (first : Option Line) (lines : List Line) : Option Yaml :=
  let result : Option (Yaml × List Line) := match first with
    | some l => if l.isVoid then blockWithin 0 (size lines) lines else inline? 0 l lines
    | none => blockWithin 0 (size lines) lines
  result.bind fun (v, rest) => if (skipVoid rest).isEmpty then some v else none
where
  /-- A bound on the steps that reading takes. -/
  size (lines : List Line) : Nat := 2 * lines.foldr (fun l n => l.body.length + 2 + n) 0 + 2

/-- The value that a text writes. -/
def parse? (text : List Char) : Option Yaml :=
  let cs := match text with
    | '\uFEFF' :: cs => cs
    | cs => cs
  let lines := splitLines cs
  let directives := lines.takeWhile fun l => l.isVoid || l.body.head? == some '%'
  let lines := if directives.any (!·.isVoid) then lines.drop directives.length else skipVoid lines
  let (first, lines) := match lines with
    | l :: ls => match marker? "---" l with
      | some rest => (some (Line.mk 4 (skipBlank rest)), ls)
      | none => (none, l :: ls)
    | [] => (none, [])
  let inside := lines.takeWhile (!isMarker ·)
  let after := lines.drop inside.length
  let isOnly := match after with
    | [] => true
    | l :: ls => (marker? "..." l).isSome && (skipVoid ls).isEmpty
  if isOnly && !inside.any isTabbed then document? first inside else none

end ServiceLint.Yaml
