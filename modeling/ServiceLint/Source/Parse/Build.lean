import ServiceLint.Source.Arena
import ServiceLint.Source.Parse.Module

/-!
# Building the tree (`syntax.parser`)

Reading a text into a tree, declaration by declaration. The functions here thread the tree through the steps of
parsing, and `SyntaxTree.parse` is what runs; `Parse.declarations` reads the same declarations without a tree.
-/
namespace ServiceLint

namespace SyntaxTree

/-- Adds a node, whose place is the former size of the tree. -/
def add (tree : SyntaxTree) (kind : NodeKind) (span : Span) (parent : Nat) (data : NodeData) : SyntaxTree :=
  (tree.alloc kind span parent data).2

end SyntaxTree

namespace Parse

open SyntaxTree (root)

/-- Reads an import (`parse_import`). -/
def importInto (tree : SyntaxTree) (tokens : List Token) : Except Failure (SyntaxTree × List Token) := do
  let (d, rest) ← importDecl tokens
  return (tree.add .importDecl d.span root (.importDecl d.data), rest)

/-- Reads a listener that starts at byte offset `start` (`parse_listener`). -/
def listenerInto (start : Nat) (tree : SyntaxTree) (tokens : List Token) :
    Except Failure (SyntaxTree × List Token) := do
  let (d, rest) ← listenerDecl start tokens
  return (tree.add .listenerDecl d.span root (.listenerDecl d.data), rest)

/-- Reads a member of the service at the place `service` (`parse_member`, `parse_function`). -/
def memberInto (text : List Char) (service : Nat) (tree : SyntaxTree) (tokens : List Token) :
    Except Failure (SyntaxTree × List Token) := do
  let (m, rest) ← member text tokens
  return (tree.add m.kind m.span service m.body.data, rest)

theorem memberInto_length {text : List Char} {service : Nat} {tree tree' : SyntaxTree} {tokens rest : List Token}
    (h : memberInto text service tree tokens = .ok (tree', rest)) : rest.length < tokens.length := by
  obtain ⟨⟨m, r⟩, hm, h⟩ := bind_eq_ok.1 h
  cases h
  exact member_length hm

/-- Reads members up to the closing brace of the service, which is left. -/
def membersInto (text : List Char) (service : Nat) (tree : SyntaxTree) (tokens : List Token) :
    Except Failure (SyntaxTree × List Token) :=
  match tokens with
  | [] => .error (.endOfText .serviceClose)
  | t :: tail =>
    if t.is "\x7d" then .ok (tree, t :: tail)
    else match h : memberInto text service tree (t :: tail) with
      | .error e => .error e
      | .ok (tree', rest) =>
        have := memberInto_length h
        membersInto text service tree' rest
termination_by tokens.length
decreasing_by exact this

/-- Reads a service that starts at byte offset `start` (`parse_service`). -/
def serviceInto (text : List Char) (start : Nat) (tree : SyntaxTree) (tokens : List Token) :
    Except Failure (SyntaxTree × List Token) := do
  let (_, rest) ← expect "service" .serviceKeyword tokens
  let (type, rest) ← serviceHead rest
  let (_, rest) ← expect "on" .onKeyword rest
  let (attachPoints, rest) ← attachPoints rest
  let (openBrace, rest) ← expect "\x7b" .serviceOpen rest
  let (service, tree) := tree.alloc .serviceDecl ⟨start, openBrace.stop⟩ root .module
  let (tree, rest) ← membersInto text service tree rest
  let (closeBrace, rest) ← expect "\x7d" .closeBrace rest
  let data : ServiceData := ⟨textOf? text type, attachPoints, openBrace.span, closeBrace.span⟩
  return (tree.finish service ⟨start, closeBrace.stop⟩ (.serviceDecl data), rest)

/-- Reads one declaration whose first token is `first`, or passes over one that is not kept. -/
def declarationInto (text : List Char) (tree : SyntaxTree) (first : Token) (tail : List Token) :
    Except Failure (SyntaxTree × List Token) :=
  let rest := afterQualifiers (first :: tail)
  if startsWith "import" rest && rest.length == tail.length + 1 then importInto tree rest
  else if startsWith "listener" rest then listenerInto first.start tree rest
  else if startsWith "service" rest && !startsWith "class" rest.tail then serviceInto text first.start tree rest
  else do
    let rest ← construct [] rest
    return (tree, rest)

theorem membersInto_length {text : List Char} {service : Nat} {tree tree' : SyntaxTree} {tokens rest : List Token}
    (h : membersInto text service tree tokens = .ok (tree', rest)) : rest.length ≤ tokens.length := by
  fun_induction membersInto text service tree tokens with
  | case1 => cases h
  | case2 => cases h; exact Nat.le_refl _
  | case3 => cases h
  | case4 _ _ _ _ _ _ _ hlt ih => exact Nat.le_trans (ih h) (Nat.le_of_lt hlt)

/-- A service is allocated without data, gets its members, and is finished. -/
theorem serviceInto_eq_ok {text : List Char} {start : Nat} {tree tree' : SyntaxTree} {tokens rest : List Token}
    (h : serviceInto text start tree tokens = .ok (tree', rest)) :
    ∃ (opening whole : Span) (data : ServiceData) (filled : SyntaxTree) (inner outer : List Token),
      inner.length < tokens.length ∧ rest.length < outer.length ∧
      membersInto text tree.nodes.length (tree.add .serviceDecl opening root .module) inner = .ok (filled, outer) ∧
      tree' = filled.finish tree.nodes.length whole (.serviceDecl data) := by
  obtain ⟨⟨_, r₁⟩, h₁, h⟩ := bind_eq_ok.1 h
  obtain ⟨⟨_, r₂⟩, h₂, h⟩ := bind_eq_ok.1 h
  obtain ⟨⟨_, r₃⟩, h₃, h⟩ := bind_eq_ok.1 h
  obtain ⟨⟨_, r₄⟩, h₄, h⟩ := bind_eq_ok.1 h
  obtain ⟨⟨_, r₅⟩, h₅, h⟩ := bind_eq_ok.1 h
  obtain ⟨⟨_, r₆⟩, h₆, h⟩ := bind_eq_ok.1 h
  obtain ⟨⟨_, r₇⟩, h₇, h⟩ := bind_eq_ok.1 h
  cases h
  have := expect_length h₁
  have := serviceHead_length h₂
  have := expect_length h₃
  have := attachPoints_length h₄
  have := expect_length h₅
  exact ⟨_, _, _, _, r₅, r₆, by omega, expect_length h₇, h₆, rfl⟩

theorem serviceInto_length {text : List Char} {start : Nat} {tree tree' : SyntaxTree} {tokens rest : List Token}
    (h : serviceInto text start tree tokens = .ok (tree', rest)) : rest.length < tokens.length := by
  obtain ⟨_, _, _, _, _, _, hinner, houter, hmembers, -⟩ := serviceInto_eq_ok h
  have := membersInto_length hmembers
  omega

/-- A declaration is read by one of three routines, or it adds nothing. -/
theorem declarationInto_eq_ok {text : List Char} {tree tree' : SyntaxTree} {first : Token} {tail rest : List Token}
    (h : declarationInto text tree first tail = .ok (tree', rest)) :
    (∃ tokens, tokens.length ≤ tail.length + 1 ∧ (importInto tree tokens = .ok (tree', rest) ∨
      listenerInto first.start tree tokens = .ok (tree', rest) ∨
      serviceInto text first.start tree tokens = .ok (tree', rest))) ∨
    tree' = tree ∧ rest.length < tail.length + 1 := by
  have hq := afterQualifiers_length (first :: tail)
  unfold declarationInto at h
  dsimp only at h
  split at h
  · exact Or.inl ⟨_, hq, Or.inl h⟩
  · split at h
    · exact Or.inl ⟨_, hq, Or.inr (Or.inl h)⟩
    · split at h
      · exact Or.inl ⟨_, hq, Or.inr (Or.inr h)⟩
      · obtain ⟨r, h₁, h⟩ := bind_eq_ok.1 h
        cases h
        rcases construct_length h₁ with rfl | hlt
        · exact Or.inr ⟨rfl, Nat.succ_pos _⟩
        · exact Or.inr ⟨rfl, Nat.lt_of_lt_of_le hlt hq⟩

/-- Reading a declaration leaves fewer tokens. -/
theorem declarationInto_length {text : List Char} {tree tree' : SyntaxTree} {first : Token} {tail rest : List Token}
    (h : declarationInto text tree first tail = .ok (tree', rest)) : rest.length < (first :: tail).length := by
  rcases declarationInto_eq_ok h with ⟨tokens, hle, h | h | h⟩ | ⟨-, hlt⟩
  · obtain ⟨⟨_, r⟩, hd, h⟩ := bind_eq_ok.1 h
    cases h
    exact Nat.lt_of_lt_of_le (importDecl_length hd) hle
  · obtain ⟨⟨_, r⟩, hd, h⟩ := bind_eq_ok.1 h
    cases h
    exact Nat.lt_of_lt_of_le (listenerDecl_length hd) hle
  · exact Nat.lt_of_lt_of_le (serviceInto_length h) hle
  · exact hlt

/-- Reads declarations up to the end of the tokens (`parse_module`). -/
def moduleInto (text : List Char) (tree : SyntaxTree) (tokens : List Token) : Except Failure SyntaxTree :=
  match tokens with
  | [] => .ok tree
  | t :: tail =>
    if t.is "@" then
      match h : annotationStep (t :: tail) with
      | .error e => .error e
      | .ok rest =>
        have := annotationStep_length h
        moduleInto text tree rest
    else match h : declarationInto text tree t tail with
      | .error e => .error e
      | .ok (tree', rest) =>
        have := declarationInto_length h
        moduleInto text tree' rest
termination_by tokens.length
decreasing_by all_goals exact this

end Parse

/-- The tree of a source text (`parse`). -/
def SyntaxTree.parse (text : List Char) : Except ParseError SyntaxTree :=
  match tokenize text with
  | .error e => .error e
  | .ok tokens => match Parse.moduleInto text (.withRoot (Text.size text)) tokens with
    | .error failure => .error (failure.toError text)
    | .ok tree => .ok tree

/-- The module that a source text declares. -/
def Module.parse (text : List Char) : Except ParseError Module := (SyntaxTree.parse text).map SyntaxTree.module

end ServiceLint
