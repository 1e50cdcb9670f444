import ExprLang.Text.Quoted

/-!
# Tokens

A token has a kind, the text it was read from, the line it ends on and, for literals, a payload.
Every kind has a number and a name; a number that belongs to no kind of the language is kept as an
unknown kind.
-/

namespace ExprLang

inductive TokenKind
  | eof
  | leftParen | rightParen | leftBrace | rightBrace | bar | comma | colon | semicolon
  | equal | notEqual | greater | less | greaterEqual | lessEqual
  | plus | minus | slash | star | bang | assign
  | newline
  | identifier | int | float | string
  | andWord | orWord | typeWord | ifWord | elseWord | trueWord | falseWord | forWord | toWord
  | unknown (code : Int)
  deriving DecidableEq, Repr

namespace TokenKind

/-- The kinds of the language, in the order of their numbers. -/
def all : List TokenKind := [
  .eof,
  .leftParen, .rightParen, .leftBrace, .rightBrace, .bar, .comma, .colon, .semicolon,
  .equal, .notEqual, .greater, .less, .greaterEqual, .lessEqual,
  .plus, .minus, .slash, .star, .bang, .assign,
  .newline,
  .identifier, .int, .float, .string,
  .andWord, .orWord, .typeWord, .ifWord, .elseWord, .trueWord, .falseWord, .forWord, .toWord]

/-- Numbers start at `-1` for the end of the text. -/
def code : TokenKind → Int
  | .unknown code => code
  | kind => (all.idxOf kind : Int) - 1

def ofCode (code : Int) : TokenKind :=
  if code < -1 then .unknown code else (all[(code + 1).toNat]?).getD (.unknown code)

def name : TokenKind → Bytes
  | .eof => bytes "EOF"
  | .leftParen => bytes "LPAREN"
  | .rightParen => bytes "RPAREN"
  | .leftBrace => bytes "LBRACE"
  | .rightBrace => bytes "RBRACE"
  | .bar => bytes "VBAR"
  | .comma => bytes "COMMA"
  | .colon => bytes "COLON"
  | .semicolon => bytes "SEMICOLON"
  | .equal => bytes "EQ"
  | .notEqual => bytes "NEQ"
  | .greater => bytes "GT"
  | .less => bytes "LT"
  | .greaterEqual => bytes "GEQ"
  | .lessEqual => bytes "LEQ"
  | .plus => bytes "PLUS"
  | .minus => bytes "MINUS"
  | .slash => bytes "SLASH"
  | .star => bytes "STAR"
  | .bang => bytes "BANG"
  | .assign => bytes "ASSIGN"
  | .newline => bytes "NEWLINE"
  | .identifier => bytes "IDENT"
  | .int => bytes "INT"
  | .float => bytes "FLOAT"
  | .string => bytes "STR"
  | .andWord => bytes "AND"
  | .orWord => bytes "OR"
  | .typeWord => bytes "TYPE"
  | .ifWord => bytes "IF"
  | .elseWord => bytes "ELSE"
  | .trueWord => bytes "TRUE"
  | .falseWord => bytes "FALSE"
  | .forWord => bytes "FOR"
  | .toWord => bytes "TO"
  | .unknown code => bytes "TokenType(" ++ Text.decimalInt code ++ bytes ")"

/-- Line breaks and semicolons separate statements. -/
def isSeparator (kind : TokenKind) : Bool := kind == .newline || kind == .semicolon

end TokenKind

/-- What a literal token carries besides its lexeme. -/
inductive Payload
  | bool (value : Bool)
  | text (value : Bytes)
  deriving DecidableEq, Repr

namespace Payload

def spelled : Payload → Bytes
  | .bool b => bytes (if b then "true" else "false")
  | .text s => s

end Payload

structure Token where
  kind : TokenKind
  lexeme : Bytes
  payload : Option Payload
  line : Int
  deriving DecidableEq, Repr

namespace Token

/-- The token that ends a text. -/
def eof (line : Int) : Token := ⟨.eof, [], none, line⟩

/-- Line, name and quoted lexeme, then the payload if there is one. -/
def describe (t : Token) : Bytes :=
  Text.decimalInt t.line ++ bytes " " ++ t.kind.name ++ bytes " " ++ Text.quote t.lexeme ++
    match t.payload with
    | some p => bytes " " ++ p.spelled
    | none => []

/-- The text of a string token. -/
def text? (t : Token) : Option Bytes :=
  match t.payload with
  | some (.text s) => some s
  | _ => none

end Token

end ExprLang
