import ServiceLint.Source.Scan
import ServiceLint.Source.Parse.Declaration

/-!
# Parsing a module (`syntax.parser`)

Reads the declarations of a source text. Annotations and declarations of any other kind are passed over.
-/
namespace ServiceLint

namespace Parse

/-- Words that may stand before a declaration (`MODULE_QUALIFIERS`). -/
def moduleQualifiers : List String := ["public", "isolated", "final", "configurable"]

/-- The tokens after the qualifiers at the front. -/
def afterQualifiers (tokens : List Token) : List Token :=
  tokens.dropWhile fun t => moduleQualifiers.any t.is

theorem afterQualifiers_length (tokens : List Token) :
    (afterQualifiers tokens).length ≤ tokens.length :=
  (List.dropWhile_suffix _).length_le

/-- Reads one declaration whose first token is `first`; none when it is of a kind that is not kept.
An import has no qualifiers, and a service class is not a service. -/
def declaration (text : List Char) (first : Token) (tail : List Token) :
    Except Failure (Option Decl × List Token) :=
  let rest := afterQualifiers (first :: tail)
  if startsWith "import" rest && rest.length == tail.length + 1 then do
    let (d, rest) ← importDecl rest
    return (some (.importDecl d), rest)
  else if startsWith "listener" rest then do
    let (d, rest) ← listenerDecl first.start rest
    return (some (.listenerDecl d), rest)
  else if startsWith "service" rest && !startsWith "class" rest.tail then do
    let (d, rest) ← serviceDecl text first.start rest
    return (some (.serviceDecl d), rest)
  else do
    let rest ← construct [] rest
    return (none, rest)

/-- Reading a declaration leaves fewer tokens. -/
theorem declaration_length {text : List Char} {first : Token} {tail rest : List Token}
    {d : Option Decl} (h : declaration text first tail = .ok (d, rest)) :
    rest.length < (first :: tail).length := by
  have hq := afterQualifiers_length (first :: tail)
  unfold declaration at h
  dsimp only at h
  split at h
  · obtain ⟨⟨_, r⟩, h₁, h⟩ := bind_eq_ok.1 h
    cases h
    exact Nat.lt_of_lt_of_le (importDecl_length h₁) hq
  · split at h
    · obtain ⟨⟨_, r⟩, h₁, h⟩ := bind_eq_ok.1 h
      cases h
      exact Nat.lt_of_lt_of_le (listenerDecl_length h₁) hq
    · split at h
      · obtain ⟨⟨_, r⟩, h₁, h⟩ := bind_eq_ok.1 h
        cases h
        exact Nat.lt_of_lt_of_le (serviceDecl_length h₁) hq
      · obtain ⟨r, h₁, h⟩ := bind_eq_ok.1 h
        cases h
        rcases construct_length h₁ with rfl | hlt
        · simp
        · exact Nat.lt_of_lt_of_le hlt hq

/-- Reads declarations up to the end of the tokens (`parse_module`). -/
def declarations (text : List Char) (tokens : List Token) : Except Failure (List Decl) :=
  match tokens with
  | [] => .ok []
  | t :: tail =>
    if t.is "@" then
      match h : annotationStep (t :: tail) with
      | .error e => .error e
      | .ok rest =>
        have := annotationStep_length h
        declarations text rest
    else match h : declaration text t tail with
      | .error e => .error e
      | .ok (d, rest) =>
        have := declaration_length h
        match declarations text rest with
        | .error e => .error e
        | .ok ds => .ok (d.toList ++ ds)
termination_by tokens.length
decreasing_by all_goals exact this

end Parse

end ServiceLint
