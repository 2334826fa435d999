import ServiceLint.Source.ParseError

/-!
# Nesting of delimiters (`syntax.parser`)

Parentheses, brackets and braces nest. `nest` keeps the stack of open delimiters, innermost first,
while tokens are read; the routines below pass over tokens with it. Each of them returns a rest of
the tokens it was given.
-/
namespace ServiceLint

inductive Delimiter where
  | paren
  | bracket
  | brace
deriving DecidableEq, Repr

namespace Token

/-- The delimiter that the token opens (`opens`). -/
def opens? (t : Token) : Option Delimiter :=
  if t.isPunct "(" then some .paren
  else if t.isPunct "[" then some .bracket
  else if t.isPunct "\x7b" then some .brace
  else none

/-- The delimiter that the token closes (`closes`). -/
def closes? (t : Token) : Option Delimiter :=
  if t.isPunct ")" then some .paren
  else if t.isPunct "]" then some .bracket
  else if t.isPunct "\x7d" then some .brace
  else none

end Token

namespace Parse

/-- The open delimiters after a token. A closing delimiter must match the innermost open one. -/
def nest (stack : List Delimiter) (t : Token) : Except Failure (List Delimiter) :=
  match t.opens? with
  | some d => .ok (d :: stack)
  | none => match t.closes? with
    | none => .ok stack
    | some d => match stack with
      | top :: rest => if top = d then .ok rest else .error (.unbalanced t)
      | [] => .error (.unbalanced t)

/-- Passes over a group of tokens through the delimiter that closes it, which is returned
(`skip_balanced`). The group starts with its opening delimiter when the stack is empty. -/
def group (expected : Expectation) (stack : List Delimiter) :
    List Token → Except Failure (Token × List Token)
  | [] => .error (.endOfText expected)
  | t :: rest =>
    match nest stack t with
    | .error e => .error e
    | .ok stack' =>
      if t.closes?.isSome && stack'.isEmpty then .ok (t, rest) else group expected stack' rest

/-- Passes over tokens through the next semicolon outside all delimiters, which is returned
(`skip_to_semicolon`). -/
def semicolon (expected : Expectation) (stack : List Delimiter) :
    List Token → Except Failure (Token × List Token)
  | [] => .error (.endOfText expected)
  | t :: rest =>
    if stack.isEmpty && t.isPunct ";" then .ok (t, rest)
    else match nest stack t with
      | .error e => .error e
      | .ok stack' => semicolon expected stack' rest

/-- Passes over a declaration that is not kept (`skip_construct`): through its semicolon, through
the brace that closes it, or to the end of the text. -/
def construct (stack : List Delimiter) : List Token → Except Failure (List Token)
  | [] => if stack.isEmpty then .ok [] else .error (.endOfText .closingDelimiter)
  | t :: rest =>
    if stack.isEmpty && t.isPunct ";" then .ok rest
    else match nest stack t with
      | .error e => .error e
      | .ok stack' =>
        if stack'.isEmpty && t.closes? == some .brace then .ok rest else construct stack' rest

/-- Passes over tokens up to one that satisfies `stop` outside all delimiters, which is not passed.
A closing delimiter that closes nothing is passed like any other token. -/
def upTo (stop : Token → Bool) (expected : Expectation) (stack : List Delimiter) :
    List Token → Except Failure (List Token)
  | [] => .error (.endOfText (if stack.isEmpty then expected else .closingDelimiter))
  | t :: rest =>
    if stack.isEmpty && stop t then .ok (t :: rest)
    else if stack.isEmpty && t.closes?.isSome then upTo stop expected [] rest
    else match nest stack t with
      | .error e => .error e
      | .ok stack' => upTo stop expected stack' rest

/-- The tokens that were passed when `rest` is left of `tokens`. -/
def passed (tokens rest : List Token) : List Token := tokens.take (tokens.length - rest.length)

/-! ## Progress -/

theorem group_length {expected : Expectation} {stack : List Delimiter} {tokens rest : List Token}
    {t : Token} (h : group expected stack tokens = .ok (t, rest)) :
    rest.length < tokens.length := by
  fun_induction group expected stack tokens with
  | case1 => cases h
  | case2 => cases h
  | case3 => cases h; simp
  | case4 _ _ _ _ _ _ ih =>
    have := ih h
    simp only [List.length_cons]
    omega

theorem semicolon_length {expected : Expectation} {stack : List Delimiter}
    {tokens rest : List Token} {t : Token} (h : semicolon expected stack tokens = .ok (t, rest)) :
    rest.length < tokens.length := by
  fun_induction semicolon expected stack tokens with
  | case1 => cases h
  | case2 => cases h; simp
  | case3 => cases h
  | case4 _ _ _ _ _ _ ih =>
    have := ih h
    simp only [List.length_cons]
    omega

theorem construct_length {stack : List Delimiter} {tokens rest : List Token}
    (h : construct stack tokens = .ok rest) : rest = [] ∨ rest.length < tokens.length := by
  fun_induction construct stack tokens with
  | case1 => cases h; exact Or.inl rfl
  | case2 => cases h
  | case3 => cases h; exact Or.inr (by simp)
  | case4 => cases h
  | case5 => cases h; exact Or.inr (by simp)
  | case6 _ _ _ _ _ _ _ ih =>
    rcases ih h with hnil | hlt
    · exact Or.inl hnil
    · exact Or.inr (by simp only [List.length_cons]; omega)

theorem upTo_length {stop : Token → Bool} {expected : Expectation} {stack : List Delimiter}
    {tokens rest : List Token} (h : upTo stop expected stack tokens = .ok rest) :
    rest.length ≤ tokens.length := by
  fun_induction upTo stop expected stack tokens with
  | case1 => cases h
  | case2 => cases h; simp
  | case3 _ _ _ _ _ ih => exact Nat.le_succ_of_le (ih h)
  | case4 => cases h
  | case5 _ _ _ _ _ _ _ ih => exact Nat.le_succ_of_le (ih h)

end Parse

end ServiceLint
