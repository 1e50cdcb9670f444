import ExprLang.Token.Piece
import ExprLang.SyntaxError

/-!
# Scanning

Tokens and errors are read off the pieces of a text. A token stands on the line it ends on, a line
break on the line it ends; the list of tokens is closed by one end token.
-/

namespace ExprLang

/-- Each piece with the line it starts on. -/
def Piece.locate (line : Int) : List Piece → List (Int × Piece)
  | [] => []
  | p :: ps => (line, p) :: Piece.locate (line + Text.newlines p.text) ps

/-- The token a piece is, if it starts on the given line. -/
def Piece.token? (line : Int) : Piece → Option Token
  | .token kind lexeme payload =>
    some ⟨kind, lexeme, payload,
      if kind = .newline then line else line + Text.newlines lexeme⟩
  | _ => none

/-- The error a piece is, if it starts on the given line. -/
def Piece.error? (line : Int) : Piece → Option SyntaxError
  | .stray c text => some ⟨.unexpectedCharacter c, line, text, false⟩
  | .unclosed text => some ⟨.unterminatedString, line + Text.newlines text, [], true⟩
  | _ => none

structure Scanned where
  tokens : List Token
  errors : List SyntaxError
  deriving DecidableEq, Repr

def scan (source : Bytes) : Scanned :=
  let pieces := Piece.locate 1 (Piece.split source)
  { tokens := pieces.filterMap (fun p => p.2.token? p.1) ++ [.eof (1 + Text.newlines source)]
    errors := pieces.filterMap fun p => p.2.error? p.1 }

end ExprLang
