import ServiceLint.Source.Outline
import ServiceLint.Proofs.Source.Move

/-!
# The shape of a module

What a module says apart from where it says it: names, types, kinds and nesting. The shape leaves out spans
and the two texts that are kept as written, the type of a parameter and the type of a service. The numbers,
kinds and links of the outline belong to the shape (`Module.outline_shape`).
-/
namespace ServiceLint

/-- A parameter without its place and the text of its type. -/
def Param.shape (p : Param) : Param := { p.map fun _ => 0 with typeText := "" }

def Method.shape (m : Method) : Method := { m.map fun _ => 0 with params := m.params.map Param.shape }

def MemberBody.shape : MemberBody → MemberBody
  | .method m => .method m.shape
  | .field name => .field name

def Member.shape (m : Member) : Member := ⟨⟨0, 0⟩, m.body.shape⟩

def Service.shape (s : Service) : Service :=
  { s.map fun _ => 0 with typeDesc := none, members := s.members.map Member.shape }

def Decl.shape : Decl → Decl
  | .importDecl d => .importDecl (d.map fun _ => 0)
  | .listenerDecl d => .listenerDecl (d.map fun _ => 0)
  | .serviceDecl s => .serviceDecl s.shape

def Module.shape (m : Module) : Module := ⟨m.decls.map Decl.shape⟩

def Node.shape (n : Node) : Node := { n with span := ⟨0, 0⟩ }

theorem Member.kind_shape (m : Member) : m.shape.kind = m.kind := by
  obtain ⟨span, f | name⟩ := m <;> rfl

theorem Service.numbered_shape (s : Service) (id : Nat) :
    s.shape.numbered id = (s.numbered id).map fun (i, m) => (i, m.shape) := by
  simp [Service.numbered, Service.shape, List.zipIdx_map, Function.comp_def]

theorem Decl.nodeCount_shape (d : Decl) : d.shape.nodeCount = d.nodeCount := by
  cases d <;> simp [Decl.shape, Decl.nodeCount, Service.shape]

theorem Decl.nodes_shape (id : Nat) (d : Decl) :
    (d.shape.nodes id).map Node.shape = (d.nodes id).map Node.shape := by
  cases d with
  | importDecl d => rfl
  | listenerDecl d => rfl
  | serviceDecl s =>
    simp [Decl.shape, Decl.nodes, Service.numbered_shape, Function.comp_def, Node.shape, Member.kind_shape]

theorem numberFrom_shape (next : Nat) (ds : List Decl) :
    numberFrom next (ds.map Decl.shape) = (numberFrom next ds).map fun (i, d) => (i, d.shape) := by
  induction ds generalizing next with
  | nil => rfl
  | cons d ds ih => simp [numberFrom, Decl.nodeCount_shape, ih]

/-- Modules of one shape have the same nodes with the same links. -/
theorem Module.outline_shape {m m' : Module} (h : m.shape = m'.shape) (size size' : Nat) :
    (m.outline size).map Node.shape = (m'.outline size').map Node.shape := by
  -- the outline of a module is that of its shape
  have hself : ∀ (m : Module) (size : Nat),
      (m.shape.outline 0).map Node.shape = (m.outline size).map Node.shape := by
    intro m size
    have hnumbered : m.shape.numbered = m.numbered.map fun (i, d) => (i, d.shape) :=
      numberFrom_shape 1 m.decls
    simp only [Module.outline, hnumbered, List.map_cons, List.map_map, List.map_flatMap, List.flatMap_map,
      Decl.nodes_shape]
    rfl
  rw [← hself m size, h, hself m' size']

end ServiceLint
