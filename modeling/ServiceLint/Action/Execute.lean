import ServiceLint.Action.CodeAction

/-!
# Carrying out actions (`ide.executor`)

An action becomes one edit: the text of its location, followed by the rendered template. The location
must be the one that a rule reports for a bound service, so an action that the file has outgrown is
refused.
-/
namespace ServiceLint

/-- Why an action is refused. -/
inductive ActionError where
  | unknownTemplate (template : UnknownTemplate)
  | foreignModule (expected found : String)
  | argument (error : ArgumentError)
  | outOfBounds (location : Location)
  | stale (location : Location)
deriving DecidableEq, Repr

def ArgumentError.message : ArgumentError → String
  | .missing => "code action has no 'location' argument"
  | .undecodable => "malformed 'location' argument: not a location record"
  | .reversed start stop =>
    "malformed 'location' argument: " ++ (LocationError.reversed start stop).message

def ActionError.message : ActionError → String
  | .unknownTemplate t => t.message
  | .foreignModule expected found =>
    s!"code action belongs to module '{found}', expected '{expected}'"
  | .argument e => e.message
  | .outOfBounds l => (EditError.outOfBounds l).message
  | .stale l => s!"no service matches location {l.render}; the file changed since validation"

namespace Service

/-- The span that a rule reports for the service as a whole: all of it when it is empty, else up to
the end of its last member. -/
def anchor (s : Service) : Span :=
  match s.lastMember? with
  | none => s.span
  | some last => ⟨s.span.start, last.span.stop⟩

/-- The text that replaces the anchor of the service, given the rendered template. Comments in an
empty body stay before it, and a new brace at the given column closes the body. -/
def withTemplate (s : Service) (file : SourceFile) (column : Nat) (rendered : List Char) :
    List Char :=
  let ending := file.lineEnding
  if s.isEmpty then
    file.slice ⟨s.span.start, s.openBrace.stop⟩
      ++ Text.trimEnd (file.slice ⟨s.openBrace.stop, s.closeBrace.start⟩)
      ++ ending ++ rendered ++ ending ++ Placement.spaces column ++ ['\x7d']
  else file.slice s.anchor ++ ending ++ ending ++ rendered

end Service

namespace CodeAction

/-- The span of the action's location in the file that it was offered for. -/
def spanIn (a : CodeAction) (file : SourceFile) : Except ActionError (Location × Span) := do
  let location ← a.location.mapError .argument
  if location.file ≠ file.name then throw (.stale location)
  match file.index.span? location with
  | none => throw (.outOfBounds location)
  | some s => return (location, s)

/-- The bound service that is anchored at the span (`anchored_at`). -/
def target? (file : SourceFile) (config : Config) (s : Span) : Option (Binding × Service) :=
  (Binding.resolve file config).bind fun b =>
    (b.services.find? (·.anchor == s)).map fun service => (b, service)

/-- The edit that carries out the action (`execute`). -/
def execute (a : CodeAction) (file : SourceFile) (config : Config) (store : TemplateStore) :
    Except ActionError TextEdit := do
  let some template := store.get? a.provider.template.name
    | throw (.unknownTemplate ⟨a.provider.template.name⟩)
  if a.provider.module ≠ config.module then
    throw (.foreignModule config.module a.provider.module)
  let (location, s) ← a.spanIn file
  let some (b, service) := target? file config s
    | throw (.stale location)
  let column := location.start.character.toNat
  let place : Placement :=
    ⟨b.qualifier, column + config.indent.toNat, config.indent.toNat, file.lineEnding⟩
  let rendered := place.render template.body.toList
  return ⟨location, String.ofList (service.withTemplate file column rendered)⟩

end CodeAction

end ServiceLint
