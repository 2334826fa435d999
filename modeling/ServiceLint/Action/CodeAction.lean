import ServiceLint.Action.Template
import ServiceLint.Wire.Record

/-!
# Code actions (`ide.code_actions`)

For each diagnostic that a template settles, two actions are offered, one per template. An action
carries the location of its diagnostic as an argument, so that it can be stored and carried out
later.
-/
namespace ServiceLint

open Document

/-- Which module offers an action and which template it inserts. Written `module/template`. -/
structure Provider where
  module : String
  template : TemplateKind
deriving DecidableEq, Repr

structure UnknownTemplate where
  name : String
deriving DecidableEq, Repr

def UnknownTemplate.message (u : UnknownTemplate) : String := s!"unknown template '{u.name}'"

namespace Provider

def render (p : Provider) : String := s!"{p.module}/{p.template.name}"

/-- Reads the written form (`ProviderId.from_str`). The template's name is what follows the last
slash. -/
def parse (s : String) : Except UnknownTemplate Provider :=
  match Text.splitLast? '/' s.toList with
  | none => .error ⟨s⟩
  | some (module, name) => match TemplateKind.ofName? (String.ofList name) with
    | none => .error ⟨String.ofList name⟩
    | some template => .ok ⟨String.ofList module, template⟩

def ofJson? (v : Json) : Option Provider := (text? v).bind fun s => (parse s).toOption

end Provider

/-- A named argument of an action. Its value is any JSON value. -/
structure Argument where
  key : String
  value : Json
deriving Repr

namespace Argument

/-- The name of the argument that holds the location (`LOCATION_KEY`). -/
def locationKey : String := "location"

/-- The argument that holds a location (`CodeActionArgument.location`). -/
def ofLocation (l : Location) : Argument := ⟨locationKey, l.toJson⟩

def toJson (a : Argument) : Json := .obj [("key", .str a.key), ("value", a.value)]

def ofJson? (v : Json) : Option Argument := do
  let fields ← record? ["key", "value"] v
  let key ← required fields "key" text?
  let value ← required fields "value" some
  return ⟨key, value⟩

end Argument

structure CodeAction where
  title : String
  provider : Provider
  arguments : List Argument
deriving Repr

/-- What is wrong with the location of an action. -/
inductive ArgumentError where
  /-- There is no such argument. -/
  | missing
  /-- The argument is not a location. -/
  | undecodable
  /-- The location's first position comes after its second. -/
  | reversed (start stop : Position)
deriving DecidableEq, Repr

namespace CodeAction

def toJson (a : CodeAction) : Json :=
  .obj [("title", .str a.title), ("providerId", .str a.provider.render),
    ("arguments", .list Argument.toJson a.arguments)]

def ofJson? (v : Json) : Option CodeAction := do
  let fields ← record? ["title", "providerId", "arguments"] v
  let title ← required fields "title" text?
  let provider ← required fields "providerId" Provider.ofJson?
  let arguments ← required fields "arguments" (listOf? Argument.ofJson?)
  return ⟨title, provider, arguments⟩

def argument? (a : CodeAction) (key : String) : Option Json :=
  (a.arguments.find? (·.key == key)).map (·.value)

/-- The location that the action carries (`CodeActionInfo.location`). -/
def location (a : CodeAction) : Except ArgumentError Location :=
  match a.argument? Argument.locationKey with
  | none => .error .missing
  | some v => match Location.ofJson? v with
    | none => .error .undecodable
    | some l => if l.start.le l.stop then .ok l else .error (.reversed l.start l.stop)

/-- The actions for a diagnostic of the module (`code_actions_for_diagnostic`): one per template
when a template settles it. -/
def forDiagnostic (d : Diagnostic) (module : String) : List CodeAction :=
  if d.rule.isFixable then
    TemplateKind.all.map fun kind =>
      ⟨kind.title, ⟨module, kind⟩, [Argument.ofLocation d.location]⟩
  else []

/-- The actions for the diagnostics of a file that touch a position (`code_actions`). -/
def atPosition [Similarity] (file : SourceFile) (config : Config) (p : Position) : List CodeAction :=
  ((validate file config).filter (·.location.touches p)).flatMap (forDiagnostic · config.module)

end CodeAction

end ServiceLint
