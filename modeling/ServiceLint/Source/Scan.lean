import ServiceLint.Text.Alphabetic
import ServiceLint.Text.Numeric
import ServiceLint.Text.WhiteSpace
import ServiceLint.Source.ParseError

/-!
# Reading tokens (`syntax.lexer`)

`tokenize` divides a source text into tokens. White space and comments stand between tokens and are
passed over. Any character that starts nothing else is a punctuator of its own, so the only errors
are literals left open.

`lexeme_append` says that reading one token loses nothing: its characters and the rest make up the
text it was read from.
-/
namespace ServiceLint

/-! ## Character classes -/

/-- Whether `c` can start an identifier (`is_ident_start`). -/
def isIdentStart (c : Char) : Bool := Text.isAlphabetic c || c == '_'

/-- Whether `c` can continue an identifier (`is_ident_continue`). -/
def isIdentPart (c : Char) : Bool := Text.isAlphabetic c || Text.isNumeric c || c == '_'

def isNumberPart (c : Char) : Bool := c.isAlphanum || c == '_'

/-- Punctuators of several characters, each before its own beginnings (`COMPOUND_PUNCT`). -/
def compoundPuncts : List String :=
  ["...", "..<", "->", "=>", "==", "!=", "<=", ">=", "&&", "||"]

/-! ## One token -/

/-- Splits what follows an opening double quote after the closing one. A backslash keeps the next
character from closing the literal; a line feed ends the line with the literal still open. -/
def stringBody : List Char → Option (List Char × List Char)
  | [] => none
  | '"' :: cs => some (['"'], cs)
  | '\n' :: _ => none
  | '\\' :: c :: cs => (stringBody cs).map fun (body, rest) => ('\\' :: c :: body, rest)
  | c :: cs => (stringBody cs).map fun (body, rest) => (c :: body, rest)

/-- Splits what follows an opening backtick after the closing one. -/
def templateBody (cs : List Char) : Option (List Char × List Char) :=
  match cs.dropWhile (· ≠ '\x60') with
  | [] => none
  | close :: rest => some (cs.takeWhile (· ≠ '\x60') ++ [close], rest)

/-- Splits what follows the first digit of a number after the number. A point belongs to the number
when a digit follows it. -/
def numberBody (cs : List Char) : List Char × List Char :=
  match cs.dropWhile isNumberPart with
  | '.' :: d :: rest =>
    if d.isDigit then
      (cs.takeWhile isNumberPart ++ '.' :: (d :: rest).takeWhile isNumberPart,
        (d :: rest).dropWhile isNumberPart)
    else (cs.takeWhile isNumberPart, '.' :: d :: rest)
  | rest => (cs.takeWhile isNumberPart, rest)

/-- Splits a text that starts with a punctuator after it. -/
def punctAt (c : Char) (cs : List Char) : List Char × List Char :=
  match compoundPuncts.find? fun p => p.toList.isPrefixOf (c :: cs) with
  | some p => ((c :: cs).take p.toList.length, (c :: cs).drop p.toList.length)
  | none => ([c], cs)

/-- Reads the token that starts with `c`: its kind, its characters and the characters after it. -/
def lexeme (c : Char) (cs : List Char) : Except Literal (TokenKind × List Char × List Char) :=
  if c = '"' then
    match stringBody cs with
    | some (body, rest) => .ok (.string, c :: body, rest)
    | none => .error .string
  else if c = '\x60' then
    match templateBody cs with
    | some (body, rest) => .ok (.template, c :: body, rest)
    | none => .error .template
  else if c = '\x27' && cs.head?.any isIdentStart then
    .ok (.quotedIdent, c :: cs.takeWhile isIdentPart, cs.dropWhile isIdentPart)
  else if isIdentStart c then
    .ok (.ident, c :: cs.takeWhile isIdentPart, cs.dropWhile isIdentPart)
  else if c.isDigit then
    .ok (.number, c :: (numberBody cs).1, (numberBody cs).2)
  else .ok (.punct, (punctAt c cs).1, (punctAt c cs).2)

theorem stringBody_append {cs body rest : List Char} (h : stringBody cs = some (body, rest)) :
    body ++ rest = cs := by
  fun_induction stringBody cs generalizing body rest with
  | case1 => cases h
  | case2 cs => cases h; rfl
  | case3 => cases h
  | case4 c cs ih =>
    obtain ⟨⟨b, r⟩, hb, he⟩ := Option.map_eq_some_iff.1 h
    cases he
    simp [ih hb]
  | case5 c cs _ _ _ ih =>
    obtain ⟨⟨b, r⟩, hb, he⟩ := Option.map_eq_some_iff.1 h
    cases he
    simp [ih hb]

theorem templateBody_append {cs body rest : List Char} (h : templateBody cs = some (body, rest)) :
    body ++ rest = cs := by
  unfold templateBody at h
  split at h
  · cases h
  · next close tail hd =>
    cases h
    have := List.takeWhile_append_dropWhile (p := (· ≠ '\x60')) (l := cs)
    rw [hd] at this
    simpa using this

theorem numberBody_append (cs : List Char) : (numberBody cs).1 ++ (numberBody cs).2 = cs := by
  have key := List.takeWhile_append_dropWhile (p := isNumberPart) (l := cs)
  unfold numberBody
  split
  · next d rest hd =>
    rw [hd] at key
    split
    · have tail := List.takeWhile_append_dropWhile (p := isNumberPart) (l := d :: rest)
      simpa only [List.append_assoc, List.cons_append, tail] using key
    · exact key
  · exact key

theorem punctAt_append (c : Char) (cs : List Char) :
    (punctAt c cs).1 ++ (punctAt c cs).2 = c :: cs := by
  unfold punctAt
  split
  · simp only [List.take_append_drop]
  · rfl

theorem punctAt_ne_nil (c : Char) (cs : List Char) : (punctAt c cs).1 ≠ [] := by
  unfold punctAt
  split
  · next p hp =>
    have := List.mem_of_find?_eq_some hp
    simp only [compoundPuncts, List.mem_cons, List.not_mem_nil, or_false] at this
    rcases this with rfl | rfl | rfl | rfl | rfl | rfl | rfl | rfl | rfl | rfl <;> simp
  · simp

/-- A token's characters and the rest make up the text it was read from. -/
theorem lexeme_append {c : Char} {cs chars rest : List Char} {kind : TokenKind}
    (h : lexeme c cs = .ok (kind, chars, rest)) : chars ++ rest = c :: cs := by
  unfold lexeme at h
  split at h
  · split at h
    · next hb => cases h; simp [stringBody_append hb]
    · cases h
  · split at h
    · split at h
      · next hb => cases h; simp [templateBody_append hb]
      · cases h
    · split at h
      · cases h; simp
      · split at h
        · cases h; simp
        · split at h
          · cases h; simp [numberBody_append]
          · cases h; exact punctAt_append c cs

/-- A token has at least one character. -/
theorem lexeme_ne_nil {c : Char} {cs chars rest : List Char} {kind : TokenKind}
    (h : lexeme c cs = .ok (kind, chars, rest)) : chars ≠ [] := by
  unfold lexeme at h
  split at h
  · split at h <;> cases h; simp
  · split at h
    · split at h <;> cases h; simp
    · split at h
      · cases h; simp
      · split at h
        · cases h; simp
        · split at h
          · cases h; simp
          · cases h; exact punctAt_ne_nil c cs

theorem lexeme_rest_length {c : Char} {cs chars rest : List Char} {kind : TokenKind}
    (h : lexeme c cs = .ok (kind, chars, rest)) : rest.length < (c :: cs).length := by
  have := congrArg List.length (lexeme_append h)
  have := List.length_pos_iff.2 (lexeme_ne_nil h)
  simp only [List.length_append] at *
  omega

/-! ## All tokens -/

/-- Whether a comment starts with `c`: two slashes or a hash sign. -/
def startsComment (c : Char) (cs : List Char) : Bool :=
  c == '#' || (c == '/' && cs.head? == some '/')

/-- The tokens of a text that starts at byte offset `start`: the loop of `tokenize`. A comment ends
before the line feed (`skip_line`). -/
def scan (start : Nat) : List Char → Except ParseError (List Token)
  | [] => .ok []
  | c :: cs =>
    if Text.isWhiteSpace c then scan (start + c.utf8Size) cs
    else if startsComment c cs then
      scan (start + Text.size (c :: cs.takeWhile (· ≠ '\n'))) (cs.dropWhile (· ≠ '\n'))
    else
      match h : lexeme c cs with
      | .error literal => .error (.unterminated literal start)
      | .ok (kind, chars, rest) =>
        have := lexeme_rest_length h
        match scan (start + Text.size chars) rest with
        | .error e => .error e
        | .ok tokens => .ok (⟨kind, start, String.ofList chars⟩ :: tokens)
termination_by cs => cs.length
decreasing_by
  · simp
  · have := (List.dropWhile_suffix (p := (· ≠ '\n')) (l := cs)).length_le
    simp only [List.length_cons]
    omega
  · assumption

def tokenize (text : List Char) : Except ParseError (List Token) := scan 0 text

end ServiceLint
