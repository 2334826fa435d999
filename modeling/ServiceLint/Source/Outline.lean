import ServiceLint.Source.Arena

/-!
# Outline of a module

The declarations and members of a module as one numbered list of nodes. Numbers are given depth
first: the module is 0, and the members of a service follow it directly. Each node knows its parent
and its children by number.
-/
namespace ServiceLint

structure Node where
  id : Nat
  kind : NodeKind
  span : Span
  parent : Option Nat
  children : List Nat
deriving DecidableEq, Repr

/-- The members of a service that has number `id`, with their numbers. -/
def Service.numbered (s : Service) (id : Nat) : List (Nat × Member) :=
  s.members.zipIdx.map fun (m, i) => (id + 1 + i, m)

/-- How many numbers a declaration takes. -/
def Decl.nodeCount : Decl → Nat
  | .serviceDecl s => 1 + s.members.length
  | _ => 1

/-- Declarations with their numbers, from `next` on. -/
def numberFrom (next : Nat) : List Decl → List (Nat × Decl)
  | [] => []
  | d :: ds => (next, d) :: numberFrom (next + d.nodeCount) ds

/-- The nodes of the declaration that has number `id`. -/
def Decl.nodes (id : Nat) : Decl → List Node
  | .importDecl d => [⟨id, .importDecl, d.span, some 0, []⟩]
  | .listenerDecl d => [⟨id, .listenerDecl, d.span, some 0, []⟩]
  | .serviceDecl d =>
    ⟨id, .serviceDecl, d.span, some 0, (d.numbered id).map (·.1)⟩ ::
      (d.numbered id).map fun (i, m) => ⟨i, m.kind, m.span, some id, []⟩

namespace Module

/-- The declarations with their numbers. -/
def numbered (m : Module) : List (Nat × Decl) := numberFrom 1 m.decls

/-- The nodes of a module whose text has `size` bytes. -/
def outline (m : Module) (size : Nat) : List Node :=
  ⟨0, .module, ⟨0, size⟩, none, m.numbered.map (·.1)⟩ ::
    m.numbered.flatMap fun (id, d) => d.nodes id

end Module

/-- The nodes of a tree with their numbers, which are their places. -/
def SyntaxTree.outline (tree : SyntaxTree) : List Node :=
  tree.nodes.zipIdx.map fun (n, i) => ⟨i, n.kind, n.span, n.parent, n.children⟩

end ServiceLint
