import ExprLang.Token.Basic

/-!
# Errors in program text

An error keeps the line and the lexeme of the place it was found at, and whether that place is the
end of the text: a text whose last error is at its end may still be completed.
-/

namespace ExprLang

/-- What the parser was looking for. -/
inductive Expected
  | expression
  | argumentsEnd
  | groupEnd
  | variableName
  | assignment
  | blockEnd
  | parameterName
  | parametersEnd
  deriving DecidableEq, Repr

namespace Expected

def message : Expected → Bytes
  | .expression => bytes "Expect expression."
  | .argumentsEnd => bytes "Expect ')' after arguments."
  | .groupEnd => bytes "Expect ')' after expression."
  | .variableName => bytes "Expect variable name."
  | .assignment => bytes "Expect ':=' after variable name."
  | .blockEnd => bytes "Expect '\x7d' after block."
  | .parameterName => bytes "Expect parameter name."
  | .parametersEnd => bytes "Expect '|' after parameters."

end Expected

inductive SyntaxCause
  | unterminatedString
  | unexpectedCharacter (c : Char)
  | unexpectedToken (expected : Expected)
  | invalidNumber
  deriving DecidableEq, Repr

namespace SyntaxCause

/-- The name of the kind of error. -/
def kind : SyntaxCause → Bytes
  | .unterminatedString => bytes "unterminated string"
  | .unexpectedCharacter _ => bytes "unexpected character"
  | .unexpectedToken _ => bytes "unexpected token"
  | .invalidNumber => bytes "invalid number literal"

def message : SyntaxCause → Bytes
  | .unterminatedString => bytes "Unterminated string"
  | .unexpectedCharacter c => bytes "Unexpected character " ++ Text.Utf8.encode c
  | .unexpectedToken expected => expected.message
  | .invalidNumber => bytes "Invalid number literal."

end SyntaxCause

structure SyntaxError where
  cause : SyntaxCause
  line : Int
  lexeme : Bytes
  atEnd : Bool
  deriving DecidableEq, Repr

namespace SyntaxError

def message (e : SyntaxError) : Bytes := e.cause.message

/-- One line for the user. -/
def report (e : SyntaxError) : Bytes :=
  bytes "line " ++ Text.decimalInt e.line ++ bytes ": " ++ e.message

/-- The error for a token that cannot stand where it does. -/
def ofToken (cause : SyntaxCause) (t : Token) : SyntaxError :=
  ⟨cause, t.line, t.lexeme, decide (t.kind = .eof)⟩

/-- Only the last error can come from the text ending too early. -/
def incomplete (errors : List SyntaxError) : Bool :=
  match errors.getLast? with
  | some e => e.atEnd
  | none => false

end SyntaxError

end ExprLang
