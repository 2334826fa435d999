import ServiceLint.Text.Pieces
import ServiceLint.Text.Position

/-!
# Declarations (`syntax.tree`)

What is kept of a source file: its imports, its listeners and its services with their members. Each
knows the span it was read from. The declarations of a module stand in source order, and so do the
members of a service.
-/
namespace ServiceLint

/-- A type name, possibly qualified by the name of an import. -/
structure TypeRef where
  qualifier : Option String
  name : String
deriving DecidableEq, Repr

namespace TypeRef

/-- Whether the reference is `qualifier:name` (`TypeRef.is`). -/
def isQualified (t : TypeRef) (qualifier name : String) : Bool :=
  t.qualifier == some qualifier && t.name == name

def render (t : TypeRef) : String :=
  match t.qualifier with
  | some q => s!"{q}:{t.name}"
  | none => t.name

end TypeRef

/-- One of the expressions a service is attached to. -/
inductive AttachPoint where
  /-- A single identifier: the name of a listener of the module. -/
  | listener (name : String) (span : Span)
  /-- A listener created in place, with its type if that is a plain type name. -/
  | new (type : Option TypeRef) (span : Span)
  /-- Any other expression. -/
  | other (span : Span)
deriving DecidableEq, Repr

def AttachPoint.span : AttachPoint → Span
  | .listener _ s | .new _ s | .other s => s

/-- A parameter of a function. The type is kept as written. -/
structure Param where
  typeText : String
  name : String
  span : Span
  hasDefault : Bool
deriving DecidableEq, Repr

namespace Param

/-- The last member of an intersection type, without the white space around it. -/
def lastMember (typeText : List Char) : List Char :=
  Text.trim (Text.afterLast '&' typeText)

/-- The type's name, without qualifier and without the mark of an optional type (`type_name`). -/
def typeName (p : Param) : String :=
  let type := Text.dropEndWhile (· == '?') (lastMember p.typeText.toList)
  String.ofList (Text.trim (Text.afterLast ':' type))

/-- The type's qualifier, if it has one (`type_prefix`). -/
def typeQualifier (p : Param) : Option String :=
  (Text.beforeFirst? ':' (lastMember p.typeText.toList)).map fun q => String.ofList (Text.trim q)

end Param

/-- `import org/module.path as alias;` -/
structure Import where
  span : Span
  org : Option String
  path : List String
  alias? : Option String
deriving DecidableEq, Repr

namespace Import

def module (i : Import) : String := ".".intercalate i.path

/-- The module with its organisation, as configured module ids are written (`qualified_name`). -/
def qualifiedName (i : Import) : String :=
  match i.org with
  | some org => s!"{org}/{i.module}"
  | none => i.module

/-- What the file calls the module (`prefix`): the alias, else the last part of the path. -/
def localName (i : Import) : String := i.alias?.getD (i.path.getLast?.getD "")

end Import

/-- `listener Type name = new Type(...);` -/
structure Listener where
  span : Span
  name : String
  declaredType : Option TypeRef
  initType : Option TypeRef
deriving DecidableEq, Repr

/-- The declared type, else the type of the initial value (`listener_type`). -/
def Listener.type (l : Listener) : Option TypeRef := l.declaredType <|> l.initType

structure Method where
  qualifiers : List String
  name : String
  nameSpan : Span
  params : List Param
  paramsSpan : Span
deriving DecidableEq, Repr

inductive MemberBody where
  | method (method : Method)
  | field (name : Option String)
deriving DecidableEq, Repr

structure Member where
  span : Span
  body : MemberBody
deriving DecidableEq, Repr

namespace Member

/-- The function that the member declares, if it declares one (`function`). -/
def method? (m : Member) : Option Method :=
  match m.body with
  | .method f => some f
  | .field _ => none

/-- The name of a function (for a resource, its accessor and path) or of a field (`Member.name`). -/
def name? (m : Member) : Option String :=
  match m.body with
  | .method f => some f.name
  | .field name => name

def hasQualifier (m : Member) (q : String) : Bool := m.method?.any (·.qualifiers.contains q)

/-- Whether the member is a function that the listener can call. -/
def isRemote (m : Member) : Bool := m.hasQualifier "remote"

/-- Whether the member is a resource function. A remote function is none. -/
def isResource (m : Member) : Bool := m.hasQualifier "resource" && !m.isRemote

end Member

/-- `service Type on attach, ... { members }` -/
structure Service where
  span : Span
  typeDesc : Option String
  attachPoints : List AttachPoint
  openBrace : Span
  closeBrace : Span
  members : List Member
deriving DecidableEq, Repr

namespace Service

/-- Whether the body has no member (`ServiceDecl.is_empty`). It may still hold comments. -/
def isEmpty (s : Service) : Bool := s.members.isEmpty

def lastMember? (s : Service) : Option Member := s.members.getLast?

/-- The remote functions of the body (`remote_methods`). -/
def remoteMethods (s : Service) : List Method :=
  (s.members.filter Member.isRemote).filterMap Member.method?

end Service

inductive Decl where
  | importDecl (decl : Import)
  | listenerDecl (decl : Listener)
  | serviceDecl (decl : Service)
deriving DecidableEq, Repr

def Decl.span : Decl → Span
  | .importDecl d => d.span
  | .listenerDecl d => d.span
  | .serviceDecl d => d.span

structure Module where
  decls : List Decl
deriving DecidableEq, Repr

namespace Module

def imports (m : Module) : List Import :=
  m.decls.filterMap fun
    | .importDecl d => some d
    | _ => none

def listeners (m : Module) : List Listener :=
  m.decls.filterMap fun
    | .listenerDecl d => some d
    | _ => none

def services (m : Module) : List Service :=
  m.decls.filterMap fun
    | .serviceDecl d => some d
    | _ => none

/-- The first listener of that name (`SyntaxTree.listener`). -/
def listener? (m : Module) (name : String) : Option Listener :=
  m.listeners.find? (·.name == name)

end Module

end ServiceLint
