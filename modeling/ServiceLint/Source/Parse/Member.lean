import ServiceLint.Source.Parse.Param

/-!
# Parsing the members of a service (`syntax.parser`)

A member is a function or a field, after any annotations and qualifiers. Bodies are passed over.
-/
namespace ServiceLint.Parse

/-- Words that may stand before a member (`MEMBER_QUALIFIERS`). -/
def memberQualifiers : List String :=
  ["public", "private", "isolated", "final", "remote", "resource", "transactional"]

/-- Splits after the qualifiers at the front. A qualifier followed by an equals sign is the name of
a field. -/
def qualifiers : List Token → List Token × List Token
  | [] => ([], [])
  | t :: rest =>
    if memberQualifiers.any t.is && !startsWith "=" rest then
      match qualifiers rest with
      | (found, rest') => (t :: found, rest')
    else ([], t :: rest)

theorem qualifiers_length (tokens : List Token) :
    (qualifiers tokens).2.length ≤ tokens.length := by
  fun_induction qualifiers tokens with
  | case1 => exact Nat.le_refl _
  | case2 _ _ _ _ _ he ih =>
    rw [he] at ih
    exact Nat.le_succ_of_le ih
  | case3 => exact Nat.le_refl _

/-- The name of a field (`field_name`): the name directly before the first equals sign outside all
delimiters, or before the end. `last` is the token before the given ones. -/
def fieldName (last : Option Token) (depth : Nat) : List Token → Option String
  | [] => (last.filter (·.isName)).map (·.text)
  | t :: rest =>
    if t.opens?.isSome then fieldName (some t) (depth + 1) rest
    else if t.closes?.isSome then fieldName (some t) (depth - 1) rest
    else if t.isPunct "=" && depth == 0 then (last.filter (·.isName)).map (·.text)
    else fieldName (some t) depth rest

/-- Reads a field whose first token, perhaps a qualifier, is `first`. -/
def field (first : Token) (tokens : List Token) : Except Failure (Member × List Token) := do
  let (semi, rest) ← semicolon .fieldEnd [] tokens
  let name := fieldName none 0 (passed tokens rest).dropLast
  return (⟨⟨first.start, semi.stop⟩, .field name⟩, rest)

/-- Reads the tokens of a resource path after its first one: everything up to the parameter list. -/
def resourcePath (tokens : List Token) : Except Failure (List Token × List Token) :=
  match tokens.dropWhile (!·.is "(") with
  | [] => .error (.endOfText .resourcePathEnd)
  | rest => .ok (tokens.takeWhile (!·.is "("), rest)

/-- Reads the rest of a function's name: a path for a resource, else nothing. -/
def nameTail (quals : List String) (tokens : List Token) :
    Except Failure (List Token × List Token) :=
  if quals.contains "resource" then resourcePath tokens else .ok ([], tokens)

/-- Passes over the body of a function, or the semicolon that stands for it; returns the last
token. -/
def functionEnd (tokens : List Token) : Except Failure (Token × List Token) := do
  let rest ← upTo (fun t => t.is "\x7b" || t.is ";") .functionBody [] tokens
  match rest with
  | t :: tail => if t.is ";" then return (t, tail) else group .functionClose [] rest
  | [] => throw (.endOfText .functionBody)

/-- Reads a function whose first token, perhaps a qualifier, is `first` (`parse_function`). -/
def function (text : List Char) (first : Token) (quals : List String) (tokens : List Token) :
    Except Failure (Member × List Token) := do
  let (_, rest) ← expect "function" .functionKeyword tokens
  let (nameToken, rest) ← expectName .functionName rest
  let (path, rest) ← nameTail quals rest
  let nameTokens := nameToken :: path
  let ((ps, paramsSpan), rest) ← params text rest
  let (last, rest) ← functionEnd rest
  return (⟨⟨first.start, last.stop⟩, .method {
    qualifiers := quals
    name := " ".intercalate (nameTokens.map (·.text))
    nameSpan := ⟨nameToken.start, (nameTokens.getLast?.getD nameToken).stop⟩
    params := ps
    paramsSpan }⟩, rest)

/-- Reads a member (`parse_member`). -/
def member (text : List Char) (tokens : List Token) : Except Failure (Member × List Token) := do
  let rest ← annotations tokens
  match rest with
  | [] => throw (.endOfText .member)
  | first :: _ =>
    let found := qualifiers rest
    if startsWith "function" found.2 then function text first (found.1.map (·.text)) found.2
    else field first found.2

theorem resourcePath_length {tokens path rest : List Token}
    (h : resourcePath tokens = .ok (path, rest)) : rest.length ≤ tokens.length := by
  unfold resourcePath at h
  split at h
  · cases h
  · cases h
    exact (List.dropWhile_suffix (p := (!·.is "(")) (l := tokens)).length_le

theorem nameTail_length {quals : List String} {tokens path rest : List Token}
    (h : nameTail quals tokens = .ok (path, rest)) : rest.length ≤ tokens.length := by
  unfold nameTail at h
  split at h
  · exact resourcePath_length h
  · cases h; exact Nat.le_refl _

theorem functionEnd_length {tokens rest : List Token} {t : Token}
    (h : functionEnd tokens = .ok (t, rest)) : rest.length < tokens.length := by
  obtain ⟨r, h₁, h⟩ := bind_eq_ok.1 h
  have := upTo_length h₁
  split at h
  · split at h
    · cases h
      simp only [List.length_cons] at this
      omega
    · have := group_length h
      omega
  · cases h

theorem field_length {first : Token} {tokens rest : List Token} {m : Member}
    (h : field first tokens = .ok (m, rest)) : rest.length < tokens.length := by
  obtain ⟨⟨_, r⟩, h₁, h⟩ := bind_eq_ok.1 h
  cases h
  exact semicolon_length h₁

theorem function_length {text : List Char} {first : Token} {quals : List String}
    {tokens rest : List Token} {m : Member}
    (h : function text first quals tokens = .ok (m, rest)) : rest.length < tokens.length := by
  obtain ⟨⟨_, r₁⟩, h₁, h⟩ := bind_eq_ok.1 h
  obtain ⟨⟨_, r₂⟩, h₂, h⟩ := bind_eq_ok.1 h
  obtain ⟨⟨_, r₃⟩, h₃, h⟩ := bind_eq_ok.1 h
  obtain ⟨⟨_, r₄⟩, h₄, h⟩ := bind_eq_ok.1 h
  obtain ⟨⟨_, r₅⟩, h₅, h⟩ := bind_eq_ok.1 h
  cases h
  have := expect_length h₁
  have := expectName_length h₂
  have := nameTail_length h₃
  have := params_length h₄
  have := functionEnd_length h₅
  omega

/-- Reading a member leaves fewer tokens. -/
theorem member_length {text : List Char} {tokens rest : List Token} {m : Member}
    (h : member text tokens = .ok (m, rest)) : rest.length < tokens.length := by
  obtain ⟨r, h₁, h⟩ := bind_eq_ok.1 h
  have := annotations_length h₁
  split at h
  · cases h
  · next first tail =>
    have := qualifiers_length (first :: tail)
    dsimp only at h
    split at h
    · have := function_length h
      omega
    · have := field_length h
      omega

/-- Reads members up to the closing brace of the service, which is returned. -/
def members (text : List Char) (tokens : List Token) :
    Except Failure (List Member × Token × List Token) :=
  match tokens with
  | [] => .error (.endOfText .serviceClose)
  | t :: tail =>
    if t.is "\x7d" then .ok ([], t, tail)
    else match h : member text (t :: tail) with
      | .error e => .error e
      | .ok (m, rest) =>
        have := member_length h
        match members text rest with
        | .error e => .error e
        | .ok (ms, close, rest') => .ok (m :: ms, close, rest')
termination_by tokens.length
decreasing_by exact this

theorem members_length {text : List Char} {tokens rest : List Token} {ms : List Member}
    {close : Token} (h : members text tokens = .ok (ms, close, rest)) :
    rest.length < tokens.length := by
  fun_induction members text tokens generalizing ms with
  | case1 => cases h
  | case2 => cases h; simp
  | case3 => cases h
  | case4 => cases h
  | case5 _ _ _ _ _ _ hlt _ _ _ he ih =>
    cases h
    exact Nat.lt_trans (ih he) hlt

end ServiceLint.Parse
