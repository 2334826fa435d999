import ServiceLint.Action.Execute
import ServiceLint.Package.Default

/-!
# Editing sessions

A session is a document that is checked, offered actions and edited step by step. Actions that were
offered stay at hand until others are offered, and edits that were made wait until they are applied
together. A step that fails leaves the session as it was (`step_of_error`), except that applying drops the
waiting edits either way. The program has no sessions; they stand for an editor that calls the analyzer
(`ide.analysis`).
-/
namespace ServiceLint

structure Session where
  name : String
  text : List Char
  config : Config
  store : TemplateStore
  offered : List CodeAction := []
  pending : List TextEdit := []

namespace Session

/-- What can be done in a session. -/
inductive Step where
  /-- Lists the diagnostics. -/
  | validate
  /-- Offers the actions at a position. -/
  | offerAt (position : Position)
  /-- Offers the actions of every diagnostic. -/
  | offerAll
  /-- Carries out an offered action; its edit waits. -/
  | execute (index : Nat)
  /-- Applies the waiting edits. -/
  | apply
  /-- Applies the given edits. -/
  | edit (edits : List TextEdit)
  | setText (text : List Char)
  | rename (name : String)
  | setConfig (config : Config)

/-- What a step answers. -/
inductive Reply where
  | diagnostics (found : List Diagnostic)
  | actions (offered : List CodeAction)
  | edit (made : TextEdit)
  | text (text : List Char)
  | size (bytes : Nat)
  | name (name : String)
  | config (config : Config)

/-- Why a step fails. -/
inductive StepError where
  | noAction
  | parse (error : ParseError)
  | action (error : ActionError)
  | edit (error : EditError)

def parse (s : Session) : Except StepError SourceFile :=
  (SourceFile.parse s.name s.text).mapError .parse

def offer (s : Session) (actions : List CodeAction) : Session × Reply :=
  ({ s with offered := actions }, .actions actions)

/-- The session after a step that succeeds, and its answer. -/
def run [Similarity] (s : Session) : Step → Except StepError (Session × Reply)
  | .validate => do
    let file ← s.parse
    return (s, .diagnostics (ServiceLint.validate file s.config))
  | .offerAt p => do
    let file ← s.parse
    return s.offer (CodeAction.atPosition file s.config p)
  | .offerAll => do
    let file ← s.parse
    return s.offer ((ServiceLint.validate file s.config).flatMap
      (CodeAction.forDiagnostic · s.config.module))
  | .execute index => do
    let some action := s.offered[index]? | throw .noAction
    let file ← s.parse
    let made ← (action.execute file s.config s.store).mapError .action
    return ({ s with pending := s.pending ++ [made] }, .edit made)
  | .apply => do
    let text ← (TextEdit.applyAll s.text s.pending).mapError .edit
    return ({ s with text }, .text text)
  | .edit edits => do
    let text ← (TextEdit.applyAll s.text edits).mapError .edit
    return ({ s with text }, .text text)
  | .setText text => return ({ s with text }, .size (Text.size text))
  | .rename name => return ({ s with name }, .name name)
  | .setConfig config => return ({ s with config }, .config config)

/-- One step: the session after it and its answer. -/
def step [Similarity] (s : Session) (st : Step) : Session × Except StepError Reply :=
  let after := match s.run st with
    | .ok (after, _) => after
    | .error _ => s
  let after := match st with
    | .apply => { after with pending := [] }
    | _ => after
  (after, (s.run st).map (·.2))

end Session

end ServiceLint
