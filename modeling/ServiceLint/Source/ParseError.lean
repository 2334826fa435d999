import ServiceLint.Source.Token

/-!
# Parse errors (`syntax.error`, `syntax.parser`)

What can be wrong with a source text. Reading tokens reports a literal that is left open. Parsing
reports a `Failure`, in which the end of the text has no offset yet; together with the text it becomes a
`ParseError`, which carries the byte offset and the words that are printed.
-/
namespace ServiceLint

/-- Literals that need a closing delimiter. -/
inductive Literal where
  | string
  | template
deriving DecidableEq, Repr

def Literal.describe : Literal → String
  | .string => "string literal"
  | .template => "template"

/-- What the parser needs at the place where it fails. -/
inductive Expectation where
  | annotationStart
  | annotationName
  | annotationValue
  | closingDelimiter
  | importKeyword
  | moduleName
  | importAlias
  | importEnd
  | listenerKeyword
  | listenerEquals
  | equalsSign
  | listenerName
  | listenerEnd
  | serviceKeyword
  | serviceOn
  | onKeyword
  | attachPoint
  | serviceOpen
  | serviceClose
  | closeBrace
  | member
  | fieldEnd
  | functionKeyword
  | functionName
  | resourcePathEnd
  | paramsOpen
  | paramsClose
  | param
  | paramName
  | paramTypeAndName
  | functionBody
  | functionClose
deriving DecidableEq, Repr

def Expectation.describe : Expectation → String
  | .annotationStart => "annotation"
  | .annotationName => "annotation name"
  | .annotationValue => "annotation value"
  | .closingDelimiter => "closing delimiter"
  | .importKeyword => "import"
  | .moduleName => "module name"
  | .importAlias => "import prefix"
  | .importEnd => "';' after import"
  | .listenerKeyword => "listener"
  | .listenerEquals => "'=' in listener declaration"
  | .equalsSign => "'='"
  | .listenerName => "listener name"
  | .listenerEnd => "';' after listener declaration"
  | .serviceKeyword => "service"
  | .serviceOn => "'on' in service declaration"
  | .onKeyword => "'on'"
  | .attachPoint => "listener after 'on'"
  | .serviceOpen => "'\x7b' to open service body"
  | .serviceClose => "'\x7d' to close service body"
  | .closeBrace => "'\x7d'"
  | .member => "service member"
  | .fieldEnd => "';' after field"
  | .functionKeyword => "function"
  | .functionName => "function name"
  | .resourcePathEnd => "'(' after resource path"
  | .paramsOpen => "'(' to open parameter list"
  | .paramsClose => "')' to close parameter list"
  | .param => "parameter"
  | .paramName => "parameter name"
  | .paramTypeAndName => "parameter type and name"
  | .functionBody => "function body"
  | .functionClose => "'\x7d' to close function body"

/-- Why parsing a list of tokens fails. -/
inductive Failure where
  /-- The tokens end where something is still needed. -/
  | endOfText (expected : Expectation)
  /-- The text `found` stands at `offset` where something else is needed. Without an offset it is the end of the text
  that is meant. -/
  | unexpected (expected : Expectation) (found : String) (offset : Option Nat)
  /-- The closing delimiter matches no open one. -/
  | unbalanced (closer : Token)
deriving DecidableEq, Repr

/-- Why a text is not accepted. -/
inductive ParseError where
  /-- The literal that starts at `offset` is never closed. -/
  | unterminated (literal : Literal) (offset : Nat)
  /-- The text ends, at `offset`, where something is still needed. -/
  | unexpectedEnd (expected : Expectation) (offset : Nat)
  /-- The text `found` stands at `offset` where something else is needed. -/
  | expected (expected : Expectation) (found : String) (offset : Nat)
  /-- The closing delimiter at `offset` matches no open one. -/
  | unbalanced (delimiter : String) (offset : Nat)
deriving DecidableEq, Repr

namespace ParseError

/-- Byte offset the error points at (`ParseError.offset`). -/
def offset : ParseError → Nat
  | .unterminated _ o | .unexpectedEnd _ o | .expected _ _ o | .unbalanced _ o => o

def message : ParseError → String
  | .unterminated literal o => s!"unterminated {literal.describe} starting at offset {o}"
  | .unexpectedEnd e o => s!"unexpected end of file at offset {o}: expected {e.describe}"
  | .expected e found o => s!"expected {e.describe} at offset {o}, found '{found}'"
  | .unbalanced delimiter o => s!"unbalanced '{delimiter}' at offset {o}"

end ParseError

/-- The source text from the first to the last of some tokens (`slice`). -/
def Token.slice (text : List Char) (first last : Token) : String :=
  String.ofList (Text.slice text first.start last.stop)

/-- The failure as an error of the text that was parsed. -/
def Failure.toError (text : List Char) : Failure → ParseError
  | .endOfText e => .unexpectedEnd e (Text.size text)
  | .unexpected e found offset => .expected e found (offset.getD (Text.size text))
  | .unbalanced t => .unbalanced t.text t.start

end ServiceLint
