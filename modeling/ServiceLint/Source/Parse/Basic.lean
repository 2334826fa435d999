import ServiceLint.Source.Nesting
import ServiceLint.Source.Tree

/-!
# Parsing steps (`syntax.parser`)

A parsing step reads from the front of a token list and returns what it read with the tokens that
are left. This module holds the steps that others are made of. Each comes with a lemma that it
leaves fewer tokens, by which the loops built from it end.
-/
namespace ServiceLint.Parse

/-- Whether the first token is the keyword or punctuator `s` (`at`). -/
def startsWith (s : String) : List Token → Bool
  | t :: _ => t.is s
  | [] => false

/-- Reads the keyword or punctuator `s` (`expect`). -/
def expect (s : String) (expected : Expectation) : List Token → Except Failure (Token × List Token)
  | [] => .error (.endOfText expected)
  | t :: rest => if t.is s then .ok (t, rest) else .error (.unexpected expected t.text (some t.start))

def nextStart? (tokens : List Token) : Option Nat := tokens.head?.map (·.start)

/-- Reads an identifier, quoted or not (`expect_name`). -/
def expectName (expected : Expectation) : List Token → Except Failure (Token × List Token)
  | [] => .error (.endOfText expected)
  | t :: rest => if t.isName then .ok (t, rest) else .error (.unexpected expected t.text (some t.start))

theorem expect_length {s : String} {expected : Expectation} {tokens rest : List Token} {t : Token}
    (h : expect s expected tokens = .ok (t, rest)) : rest.length < tokens.length := by
  unfold expect at h
  split at h
  · cases h
  · split at h <;> cases h
    simp

theorem expectName_length {expected : Expectation} {tokens rest : List Token} {t : Token}
    (h : expectName expected tokens = .ok (t, rest)) : rest.length < tokens.length := by
  unfold expectName at h
  split at h
  · cases h
  · split at h <;> cases h
    simp

/-- A step followed by another succeeds when both do. -/
theorem bind_eq_ok {ε α β : Type} {x : Except ε α} {f : α → Except ε β} {b : β} :
    (x >>= f) = .ok b ↔ ∃ a, x = .ok a ∧ f a = .ok b := by
  cases x with
  | error e => simp [bind, Except.bind]
  | ok a => simp [bind, Except.bind]

/-! ## Annotations -/

def annotationTail (tokens : List Token) : Except Failure (List Token) :=
  if startsWith ":" tokens then do
    let (_, rest) ← expectName .annotationName tokens.tail
    return rest
  else .ok tokens

/-- Passes over the value of an annotation, if there is one. -/
def annotationValue (tokens : List Token) : Except Failure (List Token) :=
  if startsWith "\x7b" tokens then do
    let (_, rest) ← group .annotationValue [] tokens
    return rest
  else .ok tokens

/-- Passes over an annotation (`skip_annotation`): `@name` or `@qualifier:name`, and a value in
braces if there is one. -/
def annotationStep (tokens : List Token) : Except Failure (List Token) := do
  let (_, rest) ← expect "@" .annotationStart tokens
  let (_, rest) ← expectName .annotationName rest
  let rest ← annotationTail rest
  annotationValue rest

theorem annotationTail_length {tokens rest : List Token} (h : annotationTail tokens = .ok rest) :
    rest.length ≤ tokens.length := by
  unfold annotationTail at h
  split at h
  · obtain ⟨⟨t, r⟩, hn, hr⟩ := bind_eq_ok.1 h
    cases hr
    have := expectName_length hn
    simp only [List.length_tail] at this
    omega
  · cases h; exact Nat.le_refl _

theorem annotationValue_length {tokens rest : List Token} (h : annotationValue tokens = .ok rest) :
    rest.length ≤ tokens.length := by
  unfold annotationValue at h
  split at h
  · obtain ⟨⟨t, r⟩, hg, hr⟩ := bind_eq_ok.1 h
    cases hr
    exact Nat.le_of_lt (group_length hg)
  · cases h; exact Nat.le_refl _

theorem annotationStep_length {tokens rest : List Token} (h : annotationStep tokens = .ok rest) :
    rest.length < tokens.length := by
  obtain ⟨⟨_, r₁⟩, h₁, h⟩ := bind_eq_ok.1 h
  obtain ⟨⟨_, r₂⟩, h₂, h⟩ := bind_eq_ok.1 h
  obtain ⟨r₃, h₃, h⟩ := bind_eq_ok.1 h
  have := expect_length h₁
  have := expectName_length h₂
  have := annotationTail_length h₃
  have := annotationValue_length h
  omega

/-- Passes over the annotations at the front. -/
def annotations (tokens : List Token) : Except Failure (List Token) :=
  if startsWith "@" tokens then
    match h : annotationStep tokens with
    | .error e => .error e
    | .ok rest =>
      have := annotationStep_length h
      annotations rest
  else .ok tokens
termination_by tokens.length

theorem annotations_length {tokens rest : List Token} (h : annotations tokens = .ok rest) :
    rest.length ≤ tokens.length := by
  fun_induction annotations tokens with
  | case1 => cases h
  | case2 tokens _ r ha hlt ih => exact Nat.le_trans (ih h) (Nat.le_of_lt hlt)
  | case3 => cases h; exact Nat.le_refl _

/-! ## Type names -/

/-- The type that the tokens name, when they are a name or a qualified name and nothing else
(`type_ref_from`). -/
def typeRef? : List Token → Option TypeRef
  | [name] => if name.isName then some ⟨none, name.text⟩ else none
  | [qualifier, colon, name] =>
    if qualifier.isName && colon.text == ":" && name.isName then
      some ⟨some qualifier.text, name.text⟩
    else none
  | _ => none

/-- Reads the type name at the front, if there is one (`parse_type_ref`). -/
def leadingType : List Token → Option TypeRef × List Token
  | first :: rest =>
    if first.isName then
      match rest with
      | colon :: name :: rest' =>
        if colon.is ":" && name.isName then (some ⟨some first.text, name.text⟩, rest')
        else (some ⟨none, first.text⟩, colon :: name :: rest')
      | rest => (some ⟨none, first.text⟩, rest)
    else (none, first :: rest)
  | [] => (none, [])

theorem leadingType_length (tokens : List Token) : (leadingType tokens).2.length ≤ tokens.length := by
  unfold leadingType
  split
  · split
    · split
      · split <;> simp only [List.length_cons] <;> omega
      · exact Nat.le_succ _
    · exact Nat.le_refl _
  · exact Nat.le_refl _

end ServiceLint.Parse
