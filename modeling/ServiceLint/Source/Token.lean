import ServiceLint.Text.Bytes
import ServiceLint.Text.Position

/-!
# Tokens (`syntax.lexer`)

A token is a stretch of source text with its kind. Its end follows from its start and its text.
-/
namespace ServiceLint

/-- Kinds of tokens. -/
inductive TokenKind where
  /-- An identifier or a keyword. -/
  | ident
  /-- An identifier with a leading quote. -/
  | quotedIdent
  /-- A string literal with its quotes. -/
  | string
  /-- A template literal with its backticks. -/
  | template
  /-- A numeric literal. -/
  | number
  /-- A punctuator: a compound one or any other single character. -/
  | punct
deriving DecidableEq, Repr

/-- A token: its kind, the byte offset where it starts, and its text. -/
structure Token where
  kind : TokenKind
  start : Nat
  text : String
deriving DecidableEq, Repr

namespace Token

/-- Byte offset just after the token. -/
def stop (t : Token) : Nat := t.start + Text.size t.text.toList

def span (t : Token) : Span := ⟨t.start, t.stop⟩

/-- Whether the token can name something (`is_name`). -/
def isName (t : Token) : Bool := t.kind == .ident || t.kind == .quotedIdent

/-- Whether the token is the keyword or punctuator `s` (`nth_is`). -/
def is (t : Token) (s : String) : Bool := (t.kind == .ident || t.kind == .punct) && t.text == s

def isPunct (t : Token) (s : String) : Bool := t.kind == .punct && t.text == s

end Token

end ServiceLint
