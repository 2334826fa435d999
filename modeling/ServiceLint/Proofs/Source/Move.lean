import ServiceLint.Source.Nesting
import ServiceLint.Source.Tree

/-!
# Moving tokens and trees

The same tokens may stand at other offsets, in another text. A function `g` on offsets takes a token to
its new place (`Token.move`) and a tree to the tree of the moved tokens (`Decl.map`). Which word a token
is does not change. `Moves` is what parsing asks of the other text: each token still ends where `g` takes
its end, and the text between two tokens is still the same.

A tree whose spans are all forgotten is a moved tree too (`Decl.bare`), so moving a tree does not change
its bare form.
-/
namespace ServiceLint

/-! ## Tokens -/

namespace Token

/-- The token at the place to which `g` takes its start. -/
def move (g : Nat → Nat) (t : Token) : Token := { t with start := g t.start }

variable (g : Nat → Nat) (t : Token)

@[simp]
theorem move_text : (t.move g).text = t.text := rfl

@[simp]
theorem move_start : (t.move g).start = g t.start := rfl

@[simp]
theorem move_kind : (t.move g).kind = t.kind := rfl

@[simp]
theorem move_is (s : String) : (t.move g).is s = t.is s := rfl

@[simp]
theorem move_isPunct (s : String) : (t.move g).isPunct s = t.isPunct s := rfl

@[simp]
theorem move_isName : (t.move g).isName = t.isName := rfl

@[simp]
theorem move_opens? : (t.move g).opens? = t.opens? := rfl

@[simp]
theorem move_closes? : (t.move g).closes? = t.closes? := rfl

@[simp]
theorem move_id : t.move id = t := rfl

end Token

@[simp]
theorem Token.map_move_id (ts : List Token) : ts.map (Token.move id) = ts :=
  List.map_id ts

/-- The tokens of `text` stand in `text'` where `g` takes them. -/
structure Moves (g : Nat → Nat) (text text' : List Char) (ts : List Token) : Prop where
  stop : ∀ t ∈ ts, (t.move g).stop = g t.stop
  slice : ∀ a ∈ ts, ∀ b ∈ ts, Token.slice text' (a.move g) (b.move g) = Token.slice text a b

theorem Moves.mono {g : Nat → Nat} {text text' : List Char} {ts us : List Token}
    (h : Moves g text text' ts) (hsub : us ⊆ ts) : Moves g text text' us :=
  ⟨fun t ht => h.stop t (hsub ht), fun a ha b hb => h.slice a (hsub ha) b (hsub hb)⟩

/-! ## Trees -/

/-- Both ends of a span, moved. -/
def Span.map (g : Nat → Nat) (s : Span) : Span := ⟨g s.start, g s.stop⟩

def AttachPoint.map (g : Nat → Nat) : AttachPoint → AttachPoint
  | .listener name s => .listener name (s.map g)
  | .new type s => .new type (s.map g)
  | .other s => .other (s.map g)

def Param.map (g : Nat → Nat) (p : Param) : Param := { p with span := p.span.map g }

def Import.map (g : Nat → Nat) (i : Import) : Import := { i with span := i.span.map g }

def Listener.map (g : Nat → Nat) (l : Listener) : Listener := { l with span := l.span.map g }

def Method.map (g : Nat → Nat) (m : Method) : Method :=
  { m with
    nameSpan := m.nameSpan.map g
    params := m.params.map (·.map g)
    paramsSpan := m.paramsSpan.map g }

def MemberBody.map (g : Nat → Nat) : MemberBody → MemberBody
  | .method m => .method (m.map g)
  | .field name => .field name

def Member.map (g : Nat → Nat) (m : Member) : Member := ⟨m.span.map g, m.body.map g⟩

def Service.map (g : Nat → Nat) (s : Service) : Service where
  span := s.span.map g
  typeDesc := s.typeDesc
  attachPoints := s.attachPoints.map (·.map g)
  openBrace := s.openBrace.map g
  closeBrace := s.closeBrace.map g
  members := s.members.map (·.map g)

def Decl.map (g : Nat → Nat) : Decl → Decl
  | .importDecl d => .importDecl (d.map g)
  | .listenerDecl d => .listenerDecl (d.map g)
  | .serviceDecl d => .serviceDecl (d.map g)

/-! ## Moving twice -/

section Twice

variable (f g : Nat → Nat)

theorem AttachPoint.map_map (a : AttachPoint) : (a.map f).map g = a.map (g ∘ f) := by
  cases a <;> rfl

theorem Param.map_map (p : Param) : (p.map f).map g = p.map (g ∘ f) := rfl

theorem Method.map_map (m : Method) : (m.map f).map g = m.map (g ∘ f) := by
  simp [Method.map, Function.comp_def, Param.map_map, Span.map]

theorem Member.map_map (m : Member) : (m.map f).map g = m.map (g ∘ f) := by
  obtain ⟨s, m | n⟩ := m
  · simp [Member.map, MemberBody.map, Method.map_map, Span.map]
  · rfl

theorem Service.map_map (s : Service) : (s.map f).map g = s.map (g ∘ f) := by
  simp [Service.map, Function.comp_def, AttachPoint.map_map, Member.map_map, Span.map]

theorem Decl.map_map (d : Decl) : (d.map f).map g = d.map (g ∘ f) := by
  cases d with
  | importDecl => rfl
  | listenerDecl => rfl
  | serviceDecl s => simp [Decl.map, Service.map_map]

end Twice

/-! ## Staying in place -/

theorem AttachPoint.map_id (a : AttachPoint) : a.map id = a := by cases a <;> rfl

theorem Param.map_id (p : Param) : p.map id = p := rfl

theorem Method.map_id (m : Method) : m.map id = m := by
  simp [Method.map, Param.map_id, Span.map]

theorem Member.map_id (m : Member) : m.map id = m := by
  obtain ⟨s, m | n⟩ := m
  · simp [Member.map, MemberBody.map, Method.map_id, Span.map]
  · rfl

theorem Service.map_id (s : Service) : s.map id = s := by
  simp [Service.map, AttachPoint.map_id, Member.map_id, Span.map]

theorem Decl.map_id (d : Decl) : d.map id = d := by
  cases d with
  | importDecl => rfl
  | listenerDecl => rfl
  | serviceDecl s => simp [Decl.map, Service.map_id]

@[simp]
theorem Decl.map_move_id (ds : List Decl) : ds.map (Decl.map id) = ds := by
  rw [show Decl.map id = id from funext Decl.map_id]
  exact List.map_id ds

/-! ## Without spans -/

/-- A member without its spans. -/
def Member.bare (m : Member) : Member := m.map fun _ => 0

def Service.bare (s : Service) : Service := s.map fun _ => 0

def Decl.bare (d : Decl) : Decl := d.map fun _ => 0

@[simp]
theorem Decl.bare_map (g : Nat → Nat) (d : Decl) : (d.map g).bare = d.bare := Decl.map_map _ _ d

end ServiceLint
