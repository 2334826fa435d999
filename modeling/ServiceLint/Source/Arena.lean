import ServiceLint.Source.Tree

/-!
# Syntax trees (`syntax.tree`)

The tree that the parser builds: nodes in one flat list, which refer to each other by their places in it. A tree starts
with its root and grows by `SyntaxTree.alloc`. The node of a service is allocated before its members, as a placeholder,
and gets its span and data from `SyntaxTree.finish` when its closing brace has been read. What the rest of the analyzer
works on are views of the finished tree (`SyntaxTree.module`).
-/
namespace ServiceLint

/-- Kinds of nodes. -/
inductive NodeKind where
  | module
  | importDecl
  | listenerDecl
  | serviceDecl
  | remoteMethod
  | resourceMethod
  | method
  | field
deriving DecidableEq, Repr

/-- Whether nodes of the kind stand in the body of a service (`is_member`). -/
def NodeKind.isMember : NodeKind → Bool
  | .remoteMethod | .resourceMethod | .method | .field => true
  | _ => false

structure ImportData where
  org : Option String
  path : List String
  alias? : Option String
deriving DecidableEq, Repr

structure ListenerData where
  name : String
  declaredType : Option TypeRef
  initType : Option TypeRef
deriving DecidableEq, Repr

structure ServiceData where
  typeDesc : Option String
  attachPoints : List AttachPoint
  openBrace : Span
  closeBrace : Span
deriving DecidableEq, Repr

/-- What a node says besides its kind and its place. The module says nothing, and neither does a service that is not
finished. -/
inductive NodeData where
  | module
  | importDecl (data : ImportData)
  | listenerDecl (data : ListenerData)
  | serviceDecl (data : ServiceData)
  | function (data : Method)
  | field (name : Option String)
deriving DecidableEq, Repr

/-- A node of a tree. Parent and children are given by their places. -/
structure TreeNode where
  kind : NodeKind
  span : Span
  parent : Option Nat
  children : List Nat
  data : NodeData
deriving DecidableEq, Repr

def TreeNode.addChild (n : TreeNode) (id : Nat) : TreeNode := { n with children := n.children ++ [id] }

structure SyntaxTree where
  nodes : List TreeNode
deriving DecidableEq, Repr

namespace SyntaxTree

def root : Nat := 0

/-- The tree of a text of `size` bytes before anything is read (`with_root`). -/
def withRoot (size : Nat) : SyntaxTree := ⟨[⟨.module, ⟨0, size⟩, none, [], .module⟩]⟩

/-- Adds a node at the end and lists it with its parent (`alloc`). The parent has to be in the tree. -/
def alloc (tree : SyntaxTree) (kind : NodeKind) (span : Span) (parent : Nat) (data : NodeData) : Nat × SyntaxTree :=
  let id := tree.nodes.length
  let node : TreeNode := ⟨kind, span, some parent, [], data⟩
  (id, ⟨(tree.nodes ++ [node]).modify parent (·.addChild id)⟩)

/-- Gives a node its span and data (`finish`). The node has to be in the tree. -/
def finish (tree : SyntaxTree) (id : Nat) (span : Span) (data : NodeData) : SyntaxTree :=
  ⟨tree.nodes.modify id fun n => { n with span, data }⟩

def children (tree : SyntaxTree) (id : Nat) : List Nat := ((tree.nodes[id]?).map (·.children)).getD []

/-! ## Views -/

/-- The node as a member of a service. -/
def member? (tree : SyntaxTree) (id : Nat) : Option Member :=
  (tree.nodes[id]?).bind fun n => match n.data with
    | .function f => some ⟨n.span, .method f⟩
    | .field name => some ⟨n.span, .field name⟩
    | _ => none

/-- The node as a declaration. What it is depends on its data: a service that is not finished is none. -/
def decl? (tree : SyntaxTree) (id : Nat) : Option Decl :=
  (tree.nodes[id]?).bind fun n => match n.data with
    | .importDecl d => some (.importDecl ⟨n.span, d.org, d.path, d.alias?⟩)
    | .listenerDecl d => some (.listenerDecl ⟨n.span, d.name, d.declaredType, d.initType⟩)
    | .serviceDecl d => some (.serviceDecl ⟨n.span, d.typeDesc, d.attachPoints, d.openBrace, d.closeBrace,
        n.children.filterMap tree.member?⟩)
    | _ => none

/-- The declarations in source order (`imports`, `listeners`, `services`). -/
def module (tree : SyntaxTree) : Module := ⟨(tree.children root).filterMap tree.decl?⟩

end SyntaxTree

/-! ## What a declaration says -/

def Import.data (d : Import) : ImportData := ⟨d.org, d.path, d.alias?⟩

def Listener.data (d : Listener) : ListenerData := ⟨d.name, d.declaredType, d.initType⟩

def Service.data (s : Service) : ServiceData := ⟨s.typeDesc, s.attachPoints, s.openBrace, s.closeBrace⟩

def MemberBody.data : MemberBody → NodeData
  | .method f => .function f
  | .field name => .field name

/-- The kind of a member. A remote function is no resource function. -/
def Member.kind (m : Member) : NodeKind :=
  match m.body with
  | .field _ => .field
  | .method _ =>
    if m.isRemote then .remoteMethod else if m.isResource then .resourceMethod else .method

end ServiceLint
