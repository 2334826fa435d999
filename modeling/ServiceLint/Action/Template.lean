import ServiceLint.Text.Pieces

/-!
# Templates (`ide.templates`)

A template is the text of a remote function, written from the first column with four spaces per
level. Rendering puts the module's name in place of its mark and indents each line for the place
where the text goes.
-/
namespace ServiceLint

/-- The templates, in the order in which they are offered. -/
inductive TemplateKind where
  /-- A handler that receives the caller and completes the message. -/
  | withCaller
  /-- A handler that receives the message only. -/
  | withoutCaller
deriving DecidableEq, Repr

namespace TemplateKind

def all : List TemplateKind := [.withCaller, .withoutCaller]

def name : TemplateKind → String
  | .withCaller => "add_on_message_with_caller"
  | .withoutCaller => "add_on_message_without_caller"

def title : TemplateKind → String
  | .withCaller => "Insert service template with caller"
  | .withoutCaller => "Insert service template without caller"

/-- The template of that name (`from_name`). -/
def ofName? (s : String) : Option TemplateKind := all.find? (·.name == s)

end TemplateKind

structure Template where
  kind : TemplateKind
  body : String
deriving DecidableEq, Repr

namespace Template

/-- The mark that stands for the module's name (`PREFIX_PLACEHOLDER`). -/
def mark : List Char := "$\x7bprefix\x7d".toList

/-- Spaces per level in template texts (`CANONICAL_INDENT`). -/
def unit : Nat := 4

/-- The built-in handler with a caller (`WITH_CALLER_BODY`). -/
def builtinWithCaller : Template where
  kind := .withCaller
  body := "remote function onMessage($\x7bprefix\x7d:Message message, " ++
    "$\x7bprefix\x7d:Caller caller) returns error? \x7b\n    check caller->complete();\n\x7d"

/-- The built-in handler without a caller (`WITHOUT_CALLER_BODY`). -/
def builtinWithoutCaller : Template where
  kind := .withoutCaller
  body := "remote function onMessage($\x7bprefix\x7d:Message message) returns error? \x7b\n\x7d"

end Template

/-- Where a template's text goes (`RenderContext`). -/
structure Placement where
  /-- What the file calls the module. -/
  qualifier : String
  /-- The column of the first line. -/
  base : Nat
  /-- Spaces per level. -/
  unit : Nat
  /-- What ends a line. -/
  lineEnding : List Char
deriving DecidableEq, Repr

namespace Placement

def spaces (n : Nat) : List Char := List.replicate n ' '

/-- A line of a template, indented. A line of spaces becomes empty. -/
def indentLine (p : Placement) (line : List Char) : List Char :=
  match line.dropWhile (· == ' ') with
  | [] => []
  | content =>
    let leading := line.length - content.length
    spaces (p.base + leading / Template.unit * p.unit + leading % Template.unit) ++ content

/-- The text of a template at a place (`render_body`). -/
def render (p : Placement) (body : List Char) : List Char :=
  p.lineEnding.intercalate
    ((Text.lines (Text.replace Template.mark p.qualifier.toList body)).map p.indentLine)

end Placement

/-- The templates at hand, at most one of each kind. -/
structure TemplateStore where
  templates : List Template
deriving DecidableEq, Repr

namespace TemplateStore

/-- The last template of a kind. -/
def last? (templates : List Template) (kind : TemplateKind) : Option Template :=
  templates.reverse.find? (·.kind == kind)

/-- The store of the given templates, by name; a later template replaces an earlier one of its kind
(`from_templates`). -/
def ofList (templates : List Template) : TemplateStore :=
  ⟨TemplateKind.all.filterMap (last? templates)⟩

def builtin : TemplateStore := ofList [.builtinWithCaller, .builtinWithoutCaller]

def get? (s : TemplateStore) (name : String) : Option Template :=
  s.templates.find? (·.kind.name == name)

end TemplateStore

end ServiceLint
