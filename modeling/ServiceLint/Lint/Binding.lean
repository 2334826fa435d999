import ServiceLint.Config.Basic
import ServiceLint.Source.File

/-!
# Bound services (`linter.model`)

A service is bound when it is attached to the configured listener: to a new listener of that type, or
to the name of a listener that the file declares with that type. A file that does not import the
configured module has no bound services.
-/
namespace ServiceLint

/-- A file that imports the configured module, with the name it uses for the module. -/
structure Binding where
  file : SourceFile
  config : Config
  qualifier : String

namespace Binding

/-- Finds the first import of the configured module (`ServiceModel.resolve`). -/
def resolve (file : SourceFile) (config : Config) : Option Binding :=
  (file.module.imports.find? (·.qualifiedName == config.module)).map fun i =>
    ⟨file, config, i.localName⟩

/-- Whether the type is the configured listener (`is_listener_type`). -/
def isListener (b : Binding) (t : TypeRef) : Bool := t.isQualified b.qualifier b.config.listener

/-- Whether the expression is the configured listener. -/
def isListenerAt (b : Binding) : AttachPoint → Bool
  | .new type _ => type.any b.isListener
  | .listener name _ => ((b.file.module.listener? name).bind (·.type)).any b.isListener
  | .other _ => false

/-- Whether the service is attached to the configured listener (`is_bound`). -/
def isBound (b : Binding) (s : Service) : Bool := s.attachPoints.any b.isListenerAt

/-- The bound services in source order (`bound_services`). -/
def services (b : Binding) : List Service := b.file.module.services.filter b.isBound

def listenerName (b : Binding) : String := s!"{b.qualifier}:{b.config.listener}"

end Binding

end ServiceLint
