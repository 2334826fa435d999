import ServiceLint.Source.Parse.Basic

/-!
# Parsing parameter lists (`syntax.parser`)

A parameter list is cut at the commas outside all nested delimiters. Each part is a type, a name and
possibly a default value after an equals sign.
-/
namespace ServiceLint.Parse

/-- The tokens of one parameter, the comma or parenthesis that ends it, and the tokens after that. -/
def paramTokens (stack : List Delimiter) :
    List Token → Except Failure (List Token × Token × List Token)
  | [] => .error (.endOfText (if stack.isEmpty then .paramsClose else .closingDelimiter))
  | t :: rest =>
    if stack.isEmpty && (t.isPunct ")" || t.isPunct ",") then .ok ([], t, rest)
    else match nest stack t with
      | .error e => .error e
      | .ok stack' => match paramTokens stack' rest with
        | .error e => .error e
        | .ok (tokens, stop, rest') => .ok (t :: tokens, stop, rest')

theorem paramTokens_length {stack : List Delimiter} {tokens part rest : List Token} {stop : Token}
    (h : paramTokens stack tokens = .ok (part, stop, rest)) : rest.length < tokens.length := by
  fun_induction paramTokens stack tokens generalizing part with
  | case1 => cases h
  | case2 => cases h; simp
  | case3 => cases h
  | case4 => cases h
  | case5 _ _ _ _ _ _ _ _ _ he ih =>
    cases h
    exact Nat.lt_succ_of_lt (ih he)

/-- The parameter that the tokens declare; none when there are no tokens (`make_param`). The name is
the last token before the first equals sign, and what stands before it is the type. -/
def param? (text : List Char) (tokens : List Token) : Except Failure (Option Param) :=
  match tokens with
  | [] => .ok none
  | first :: _ =>
    let last := tokens.getLast?.getD first
    let decl := tokens.takeWhile (!·.isPunct "=")
    match decl.reverse with
    | [] => .error (.unexpected .paramName "=" (some first.start))
    | [_] => .error (.unexpected .paramTypeAndName (Token.slice text first last) (some first.start))
    | name :: typeLast :: _ =>
      if !name.isName || typeLast.text == ":" then
        .error (.unexpected .paramTypeAndName (Token.slice text first last) (some first.start))
      else
        .ok (some {
          typeText := Token.slice text first typeLast
          name := name.text
          span := ⟨first.start, last.stop⟩
          hasDefault := decl.length < tokens.length })

/-- The parameters after an opening parenthesis, the parenthesis that closes it, and the tokens after
that. The last part may be empty. -/
def paramsTail (text : List Char) (tokens : List Token) :
    Except Failure (List Param × Token × List Token) :=
  match h : paramTokens [] tokens with
  | .error e => .error e
  | .ok (part, stop, rest) =>
    have := paramTokens_length h
    match param? text part with
    | .error e => .error e
    | .ok p =>
      if stop.isPunct ")" then .ok (p.toList, stop, rest)
      else match p with
        | none => .error (.unexpected .param "," (some stop.start))
        | some p => match paramsTail text rest with
          | .error e => .error e
          | .ok (ps, close, rest') => .ok (p :: ps, close, rest')
termination_by tokens.length

theorem paramsTail_length {text : List Char} {tokens rest : List Token} {ps : List Param}
    {close : Token} (h : paramsTail text tokens = .ok (ps, close, rest)) :
    rest.length < tokens.length := by
  fun_induction paramsTail text tokens generalizing ps with
  | case1 => cases h
  | case2 => cases h
  | case3 => cases h; assumption
  | case4 => cases h
  | case5 => cases h
  | case6 _ _ _ _ _ hlt _ _ _ _ _ he _ ih =>
    cases h
    exact Nat.lt_trans (ih he) hlt

/-- Reads a parameter list (`parse_params`): the parameters and the span of the list with its
parentheses. -/
def params (text : List Char) (tokens : List Token) :
    Except Failure ((List Param × Span) × List Token) := do
  let (openParen, rest) ← expect "(" .paramsOpen tokens
  let (ps, close, rest) ← paramsTail text rest
  return ((ps, ⟨openParen.start, close.stop⟩), rest)

theorem params_length {text : List Char} {tokens rest : List Token} {ps : List Param × Span}
    (h : params text tokens = .ok (ps, rest)) : rest.length < tokens.length := by
  obtain ⟨⟨_, r₁⟩, h₁, h⟩ := bind_eq_ok.1 h
  obtain ⟨⟨_, _, r₂⟩, h₂, h⟩ := bind_eq_ok.1 h
  cases h
  exact Nat.lt_trans (paramsTail_length h₂) (expect_length h₁)

end ServiceLint.Parse
