import ServiceLint.Source.Parse.Member

/-!
# Parsing declarations (`syntax.parser`)

Imports, listeners and services. A declaration may start with qualifiers, so the byte offset at which
it starts is given.
-/
namespace ServiceLint.Parse

/-! ## Imports -/

/-- Reads the further segments of a dotted path. -/
def pathTail : List Token → Except Failure (List String × List Token)
  | dot :: name :: rest =>
    if dot.is "." then
      if name.isName then
        match pathTail rest with
        | .error e => .error e
        | .ok (names, rest') => .ok (name.text :: names, rest')
      else .error (.unexpected .moduleName name.text (some name.start))
    else .ok ([], dot :: name :: rest)
  | [dot] => if dot.is "." then .error (.endOfText .moduleName) else .ok ([], [dot])
  | [] => .ok ([], [])

theorem pathTail_length {tokens rest : List Token} {names : List String}
    (h : pathTail tokens = .ok (names, rest)) : rest.length ≤ tokens.length := by
  fun_induction pathTail tokens generalizing names with
  | case1 => cases h
  | case2 _ _ _ _ _ _ _ he ih =>
    cases h
    have := ih he
    simp only [List.length_cons]
    omega
  | case3 => cases h
  | case4 => cases h; exact Nat.le_refl _
  | case5 => cases h
  | case6 => cases h; exact Nat.le_refl _
  | case7 => cases h; exact Nat.le_refl _

/-- Reads `/name` after the organisation `first`, if it is there: the organisation and the first
segment of the path. -/
def orgPart (first : Token) (tokens : List Token) :
    Except Failure ((Option String × String) × List Token) :=
  if startsWith "/" tokens then do
    let (name, rest) ← expectName .moduleName tokens.tail
    return ((some first.text, name.text), rest)
  else .ok ((none, first.text), tokens)

/-- Reads `as name`, if it is there. Leading quotes are no part of the alias. -/
def aliasPart (tokens : List Token) : Except Failure (Option String × List Token) :=
  if startsWith "as" tokens then do
    let (name, rest) ← expectName .importAlias tokens.tail
    return (some (String.ofList (name.text.toList.dropWhile (· == '\x27'))), rest)
  else .ok (none, tokens)

/-- Reads an import (`parse_import`). -/
def importDecl (tokens : List Token) : Except Failure (Import × List Token) := do
  let (keyword, rest) ← expect "import" .importKeyword tokens
  let (first, rest) ← expectName .moduleName rest
  let ((org, head), rest) ← orgPart first rest
  let (path, rest) ← pathTail rest
  let (alias?, rest) ← aliasPart rest
  let (semi, rest) ← expect ";" .importEnd rest
  return ({ span := ⟨keyword.start, semi.stop⟩, org, path := head :: path, alias? }, rest)

theorem orgPart_length {first : Token} {tokens rest : List Token} {p : Option String × String}
    (h : orgPart first tokens = .ok (p, rest)) : rest.length ≤ tokens.length := by
  unfold orgPart at h
  split at h
  · obtain ⟨⟨_, r⟩, h₁, h⟩ := bind_eq_ok.1 h
    cases h
    have := expectName_length h₁
    simp only [List.length_tail] at this
    omega
  · cases h; exact Nat.le_refl _

theorem aliasPart_length {tokens rest : List Token} {a : Option String}
    (h : aliasPart tokens = .ok (a, rest)) : rest.length ≤ tokens.length := by
  unfold aliasPart at h
  split at h
  · obtain ⟨⟨_, r⟩, h₁, h⟩ := bind_eq_ok.1 h
    cases h
    have := expectName_length h₁
    simp only [List.length_tail] at this
    omega
  · cases h; exact Nat.le_refl _

theorem importDecl_length {tokens rest : List Token} {d : Import}
    (h : importDecl tokens = .ok (d, rest)) : rest.length < tokens.length := by
  obtain ⟨⟨_, r₁⟩, h₁, h⟩ := bind_eq_ok.1 h
  obtain ⟨⟨_, r₂⟩, h₂, h⟩ := bind_eq_ok.1 h
  obtain ⟨⟨_, r₃⟩, h₃, h⟩ := bind_eq_ok.1 h
  obtain ⟨⟨_, r₄⟩, h₄, h⟩ := bind_eq_ok.1 h
  obtain ⟨⟨_, r₅⟩, h₅, h⟩ := bind_eq_ok.1 h
  obtain ⟨⟨_, r₆⟩, h₆, h⟩ := bind_eq_ok.1 h
  cases h
  have := expect_length h₁
  have := expectName_length h₂
  have := orgPart_length h₃
  have := pathTail_length h₄
  have := aliasPart_length h₅
  have := expect_length h₆
  omega

/-! ## Listeners -/

/-- Reads the type and the name of a listener, up to the equals sign, which is left. -/
def listenerHead (tokens : List Token) :
    Except Failure ((Token × Option TypeRef) × List Token) :=
  match tokens.dropWhile (!·.is "=") with
  | [] => .error (.endOfText .listenerEquals)
  | equals :: rest => match (tokens.takeWhile (!·.is "=")).reverse with
    | [] => .error (.unexpected .listenerName "=" (nextStart? (equals :: rest)))
    | name :: type => .ok ((name, typeRef? type.reverse), equals :: rest)

/-- Reads the type after `new`, if the initial value starts with it. -/
def initialType (tokens : List Token) : Option TypeRef × List Token :=
  if startsWith "new" tokens then leadingType tokens.tail else (none, tokens)

/-- Reads a listener that starts at byte offset `start` (`parse_listener`). -/
def listenerDecl (start : Nat) (tokens : List Token) : Except Failure (Listener × List Token) := do
  let (_, rest) ← expect "listener" .listenerKeyword tokens
  let ((name, declaredType), rest) ← listenerHead rest
  let (_, rest) ← expect "=" .equalsSign rest
  let init := initialType rest
  let (semi, rest) ← semicolon .listenerEnd [] init.2
  return ({ span := ⟨start, semi.stop⟩, name := name.text, declaredType, initType := init.1 }, rest)

theorem listenerHead_length {tokens rest : List Token} {p : Token × Option TypeRef}
    (h : listenerHead tokens = .ok (p, rest)) : rest.length ≤ tokens.length := by
  unfold listenerHead at h
  have := (List.dropWhile_suffix (p := (!·.is "=")) (l := tokens)).length_le
  split at h
  · cases h
  · next hd =>
    split at h <;> cases h
    rwa [hd] at this

theorem initialType_length (tokens : List Token) :
    (initialType tokens).2.length ≤ tokens.length := by
  unfold initialType
  split
  · have := leadingType_length tokens.tail
    simp only [List.length_tail] at this
    omega
  · exact Nat.le_refl _

theorem listenerDecl_length {start : Nat} {tokens rest : List Token} {d : Listener}
    (h : listenerDecl start tokens = .ok (d, rest)) : rest.length < tokens.length := by
  obtain ⟨⟨_, r₁⟩, h₁, h⟩ := bind_eq_ok.1 h
  obtain ⟨⟨_, r₂⟩, h₂, h⟩ := bind_eq_ok.1 h
  obtain ⟨⟨_, r₃⟩, h₃, h⟩ := bind_eq_ok.1 h
  obtain ⟨⟨_, r₅⟩, h₅, h⟩ := bind_eq_ok.1 h
  cases h
  have := expect_length h₁
  have := listenerHead_length h₂
  have := expect_length h₃
  have := initialType_length r₃
  have := semicolon_length h₅
  omega

/-! ## Services -/

/-- Reads the type of a service, up to `on`, which is left. A brace may not stand there. -/
def serviceHead (tokens : List Token) : Except Failure (List Token × List Token) :=
  match tokens.dropWhile (fun t => !t.is "on" && !t.isPunct "\x7b") with
  | [] => .error (.endOfText .serviceOn)
  | t :: rest =>
    if t.is "on" then
      .ok (tokens.takeWhile (fun t => !t.is "on" && !t.isPunct "\x7b"), t :: rest)
    else .error (.unexpected .serviceOn "\x7b" (some t.start))

/-- The attach point written by `first` and the tokens after it. -/
def classify (first : Token) (more : List Token) : AttachPoint :=
  let span : Span := ⟨first.start, (more.getLast?.getD first).stop⟩
  if more.isEmpty && first.kind == .ident then .listener first.text span
  else if first.text == "new" then .new (typeRef? (more.takeWhile (·.text != "("))) span
  else .other span

/-- The attach point written by the first tokens, before the second ones. There must be one. -/
def attachFrom : List Token → List Token → Except Failure (AttachPoint × List Token)
  | first :: more, rest => .ok (classify first more, rest)
  | [], rest => .error (.unexpected .attachPoint ((rest.head?.map (·.text)).getD "") (nextStart? rest))

/-- Reads an attach point (`parse_attach_point`): everything up to a comma or brace outside all
other delimiters. -/
def attachPoint (tokens : List Token) : Except Failure (AttachPoint × List Token) := do
  let rest ← upTo (fun t => t.is "," || t.is "\x7b") .serviceOpen [] tokens
  attachFrom (passed tokens rest) rest

theorem attachPoint_length {tokens rest : List Token} {a : AttachPoint}
    (h : attachPoint tokens = .ok (a, rest)) : rest.length < tokens.length := by
  obtain ⟨r, h₁, h⟩ := bind_eq_ok.1 h
  have hle := upTo_length h₁
  unfold attachFrom at h
  split at h
  · next hp =>
    cases h
    rcases Nat.lt_or_eq_of_le hle with hlt | heq
    · exact hlt
    · simp [passed, heq] at hp
  · cases h

/-- Reads the attach points, divided by commas. -/
def attachPoints (tokens : List Token) : Except Failure (List AttachPoint × List Token) :=
  match h : attachPoint tokens with
  | .error e => .error e
  | .ok (a, rest) =>
    have := attachPoint_length h
    if startsWith "," rest then
      match attachPoints rest.tail with
      | .error e => .error e
      | .ok (as, rest') => .ok (a :: as, rest')
    else .ok ([a], rest)
termination_by tokens.length
decreasing_by
  simp only [List.length_tail]
  omega

theorem attachPoints_length {tokens rest : List Token} {as : List AttachPoint}
    (h : attachPoints tokens = .ok (as, rest)) : rest.length < tokens.length := by
  fun_induction attachPoints tokens generalizing as with
  | case1 => cases h
  | case2 => cases h
  | case3 _ _ _ _ hlt _ _ _ he ih =>
    cases h
    have := ih he
    simp only [List.length_tail] at this
    omega
  | case4 _ _ _ _ hlt => cases h; exact hlt

def textOf? (text : List Char) (tokens : List Token) : Option String :=
  match tokens.head?, tokens.getLast? with
  | some first, some last => some (Token.slice text first last)
  | _, _ => none

/-- Reads a service that starts at byte offset `start` (`parse_service`). -/
def serviceDecl (text : List Char) (start : Nat) (tokens : List Token) :
    Except Failure (Service × List Token) := do
  let (_, rest) ← expect "service" .serviceKeyword tokens
  let (type, rest) ← serviceHead rest
  let (_, rest) ← expect "on" .onKeyword rest
  let (attachPoints, rest) ← attachPoints rest
  let (openBrace, rest) ← expect "\x7b" .serviceOpen rest
  let (members, closeBrace, rest) ← members text rest
  return ({
    span := ⟨start, closeBrace.stop⟩
    typeDesc := textOf? text type
    attachPoints
    openBrace := openBrace.span
    closeBrace := closeBrace.span
    members }, rest)

theorem serviceHead_length {tokens type rest : List Token}
    (h : serviceHead tokens = .ok (type, rest)) : rest.length ≤ tokens.length := by
  unfold serviceHead at h
  have := (List.dropWhile_suffix
    (p := fun t : Token => !t.is "on" && !t.isPunct "\x7b") (l := tokens)).length_le
  split at h
  · cases h
  · next hd =>
    split at h <;> cases h
    rwa [hd] at this

theorem serviceDecl_length {text : List Char} {start : Nat} {tokens rest : List Token}
    {d : Service} (h : serviceDecl text start tokens = .ok (d, rest)) :
    rest.length < tokens.length := by
  obtain ⟨⟨_, r₁⟩, h₁, h⟩ := bind_eq_ok.1 h
  obtain ⟨⟨_, r₂⟩, h₂, h⟩ := bind_eq_ok.1 h
  obtain ⟨⟨_, r₃⟩, h₃, h⟩ := bind_eq_ok.1 h
  obtain ⟨⟨_, r₄⟩, h₄, h⟩ := bind_eq_ok.1 h
  obtain ⟨⟨_, r₅⟩, h₅, h⟩ := bind_eq_ok.1 h
  obtain ⟨⟨_, _, r₆⟩, h₆, h⟩ := bind_eq_ok.1 h
  cases h
  have := expect_length h₁
  have := serviceHead_length h₂
  have := expect_length h₃
  have := attachPoints_length h₄
  have := expect_length h₅
  have := members_length h₆
  omega

end ServiceLint.Parse
