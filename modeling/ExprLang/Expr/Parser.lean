import ExprLang.Expr.Basic
import ExprLang.Number.Numeral
import ExprLang.SyntaxError

/-!
# Parsing

A recursive descent over the tokens before the end token. Operators of one level form a chain to
the left; assignments, conditionals, loops and functions reach as far to the right as they can.
Line breaks are skipped where an operand, an argument or a closing parenthesis is due, before
`else`, and between the statements of a block.

Every function takes fuel, which `Parser.fuelFor` computes from the number of tokens: each token
read pays for the descent through the levels that may follow it.
-/

namespace ExprLang

namespace Parser

/-- Why a statement could not be parsed, with the tokens not yet read at that point. -/
inductive Fault
  | unexpected (expected : Expected) (rest : List Token)
  | invalidNumber (token : Token) (rest : List Token)
  | malformed (token : Token)
  | outOfFuel

/-- What was read, and the tokens after it. -/
structure Read (α : Type) where
  value : α
  rest : List Token

/-! ## Single tokens -/

def skipNewlines (ts : List Token) : List Token := ts.dropWhile fun t => t.kind == .newline

def skipSeparators (ts : List Token) : List Token := ts.dropWhile fun t => t.kind.isSeparator

/-- Read one token of the given kind. -/
def expect (kind : TokenKind) (what : Expected) (ts : List Token) : Except Fault (Read Token) :=
  match ts with
  | [] => .error (.unexpected what [])
  | t :: rest => if t.kind = kind then .ok ⟨t, rest⟩ else .error (.unexpected what (t :: rest))

def intLiteral (t : Token) (rest : List Token) : Except Fault (Read Expr) :=
  match Number.readInt? t.lexeme with
  | some n => .ok ⟨.literal (.int n), rest⟩
  | none => .error (.invalidNumber t rest)

def floatLiteral (t : Token) (rest : List Token) : Except Fault (Read Expr) :=
  match Number.readFloat? t.lexeme with
  | some x => .ok ⟨.literal (.float x), rest⟩
  | none => .error (.invalidNumber t rest)

def stringLiteral (t : Token) (rest : List Token) : Except Fault (Read Expr) :=
  match t.text? with
  | some s => .ok ⟨.literal (.string s), rest⟩
  | none => .error (.malformed t)

/-- Parameter names up to and including the closing bar. -/
def parameters : List Token → Except Fault (Read (List Bytes))
  | [] => .error (.unexpected .parametersEnd [])
  | t :: rest =>
    if t.kind = .bar then .ok ⟨[], rest⟩
    else if t.kind = .identifier then do
      let ⟨names, rest⟩ ← parameters rest
      .ok ⟨t.lexeme :: names, rest⟩
    else .error (.unexpected .parameterName (t :: rest))

/-! ## Expressions -/

mutual

/-- An expression whose operators bind at least as tightly as the given level; `none` stands for
the level of unary operators. -/
def operand : Nat → Option Level → List Token → Except Fault (Read Expr)
  | 0, _, _ => .error .outOfFuel
  | fuel + 1, none, ts => unary fuel (skipNewlines ts)
  | fuel + 1, some l, ts => do
    let ⟨left, ts⟩ ← operand fuel l.tighter ts
    chain fuel l left ts

/-- The operators of one level that follow a left operand. -/
def chain : Nat → Level → Expr → List Token → Except Fault (Read Expr)
  | 0, _, _, _ => .error .outOfFuel
  | _ + 1, _, left, [] => .ok ⟨left, []⟩
  | fuel + 1, l, left, t :: ts =>
    match l.operator? t.kind with
    | none => .ok ⟨left, t :: ts⟩
    | some op => do
      let ⟨right, ts⟩ ← operand fuel l.right ts
      chain fuel l (.binary left op t.lexeme t.line right) ts

def unary : Nat → List Token → Except Fault (Read Expr)
  | 0, _ => .error .outOfFuel
  | _ + 1, [] => .error (.unexpected .expression [])
  | fuel + 1, t :: ts =>
    match UnaryOp.ofKind? t.kind with
    | some op => do
      let ⟨e, ts⟩ ← unary fuel (skipNewlines ts)
      .ok ⟨.unary op t.lexeme t.line e, ts⟩
    | none => do
      let ⟨callee, ts⟩ ← primary fuel t ts
      calls fuel callee ts

/-- The argument lists that directly follow a callee. -/
def calls : Nat → Expr → List Token → Except Fault (Read Expr)
  | 0, _, _ => .error .outOfFuel
  | _ + 1, callee, [] => .ok ⟨callee, []⟩
  | fuel + 1, callee, t :: ts =>
    if t.kind = .leftParen then do
      let ⟨args, ts⟩ ← arguments fuel (skipNewlines ts)
      calls fuel (.call callee t.line args) ts
    else .ok ⟨callee, t :: ts⟩

/-- Arguments up to and including the closing parenthesis. -/
def arguments : Nat → List Token → Except Fault (Read (List Expr))
  | 0, _ => .error .outOfFuel
  | _ + 1, [] => .error (.unexpected .expression [])
  | fuel + 1, t :: ts =>
    if t.kind = .rightParen then .ok ⟨[], ts⟩
    else do
      let ⟨e, ts⟩ ← operand fuel (some .or) (t :: ts)
      let ⟨es, ts⟩ ← moreArguments fuel (skipNewlines ts)
      .ok ⟨e :: es, ts⟩

def moreArguments : Nat → List Token → Except Fault (Read (List Expr))
  | 0, _ => .error .outOfFuel
  | _ + 1, [] => .error (.unexpected .argumentsEnd [])
  | fuel + 1, t :: ts =>
    if t.kind = .comma then do
      let ⟨e, ts⟩ ← operand fuel (some .or) ts
      let ⟨es, ts⟩ ← moreArguments fuel (skipNewlines ts)
      .ok ⟨e :: es, ts⟩
    else if t.kind = .rightParen then .ok ⟨[], ts⟩
    else .error (.unexpected .argumentsEnd (t :: ts))

/-- The expression that starts with the given token. -/
def primary : Nat → Token → List Token → Except Fault (Read Expr)
  | 0, _, _ => .error .outOfFuel
  | fuel + 1, t, ts =>
    match t.kind with
    | .forWord => do
      let ⟨name, ts⟩ ← expect .identifier .variableName ts
      let ⟨_, ts⟩ ← expect .assign .assignment ts
      let ⟨items, ts⟩ ← operand fuel (some .or) ts
      let ⟨body, ts⟩ ← operand fuel (some .or) ts
      .ok ⟨.each t.line name.lexeme items body, ts⟩
    | .ifWord => do
      let ⟨test, ts⟩ ← operand fuel (some .or) ts
      let ⟨yes, ts⟩ ← operand fuel (some .or) ts
      let ⟨no, ts⟩ ← branches fuel ts
      .ok ⟨.cond t.line test yes no, ts⟩
    | .identifier =>
      match ts with
      | [] => .ok ⟨.variable t.lexeme t.line, []⟩
      | u :: us =>
        if u.kind = .assign then do
          let ⟨value, us⟩ ← operand fuel (some .or) us
          .ok ⟨.assign t.lexeme t.line value, us⟩
        else .ok ⟨.variable t.lexeme t.line, u :: us⟩
    | .leftBrace => do
      let ⟨body, ts⟩ ← block fuel (skipSeparators ts)
      .ok ⟨.block t.line body, ts⟩
    | .bar => do
      let ⟨params, ts⟩ ← parameters ts
      let ⟨body, ts⟩ ← operand fuel (some .or) ts
      .ok ⟨.function t.line params body, ts⟩
    | .falseWord => .ok ⟨.literal (.bool false), ts⟩
    | .trueWord => .ok ⟨.literal (.bool true), ts⟩
    | .int => intLiteral t ts
    | .float => floatLiteral t ts
    | .string => stringLiteral t ts
    | .leftParen => do
      let ⟨inner, ts⟩ ← operand fuel (some .or) ts
      let ⟨_, ts⟩ ← expect .rightParen .groupEnd (skipNewlines ts)
      .ok ⟨.grouping inner, ts⟩
    | _ => .error (.unexpected .expression (t :: ts))

/-- The `else` parts of a conditional. Line breaks before `else` are read only if it follows. -/
def branches : Nat → List Token → Except Fault (Read Branches)
  | 0, _ => .error .outOfFuel
  | fuel + 1, ts =>
    match skipNewlines ts with
    | [] => .ok ⟨.done, ts⟩
    | t :: rest =>
      if t.kind = .elseWord then
        match rest with
        | [] => .error (.unexpected .expression [])
        | u :: us =>
          if u.kind = .ifWord then do
            let ⟨test, us⟩ ← operand fuel (some .or) us
            let ⟨yes, us⟩ ← operand fuel (some .or) us
            let ⟨no, us⟩ ← branches fuel us
            .ok ⟨.elseIf test yes no, us⟩
          else do
            let ⟨body, us⟩ ← operand fuel (some .or) (u :: us)
            .ok ⟨.otherwise body, us⟩
      else .ok ⟨.done, ts⟩

/-- Statements up to and including the closing brace. -/
def block : Nat → List Token → Except Fault (Read (List Expr))
  | 0, _ => .error .outOfFuel
  | _ + 1, [] => .error (.unexpected .blockEnd [])
  | fuel + 1, t :: ts =>
    if t.kind = .rightBrace then .ok ⟨[], ts⟩
    else do
      let ⟨e, ts⟩ ← operand fuel (some .or) (t :: ts)
      let ⟨es, ts⟩ ← block fuel (skipSeparators ts)
      .ok ⟨e :: es, ts⟩

end

/-- Enough fuel for one statement. -/
def fuelFor (ts : List Token) : Nat := 16 * (ts.length + 1)

def statement (ts : List Token) : Except Fault (Read Expr) := operand (fuelFor ts) (some .or) ts

/-! ## Programs -/

/-- Where to go on after a statement that failed with these tokens left: at least one token is
dropped, and the next statement starts after a separator or at `if` or `type`. -/
def recover : List Token → List Token
  | [] => []
  | t :: ts =>
    if t.kind.isSeparator then ts
    else
      match ts with
      | [] => []
      | u :: us =>
        if u.kind = .typeWord ∨ u.kind = .ifWord then u :: us else recover (u :: us)

/-- What parsing a list of tokens gives. A string token without a text, which no scan produces,
ends the parse. -/
structure Program where
  statements : List Expr
  errors : List SyntaxError
  malformed : Option Token

namespace Program

def empty : Program := ⟨[], [], none⟩

def addStatement (e : Expr) (p : Program) : Program := { p with statements := e :: p.statements }

def addError (e : SyntaxError) (p : Program) : Program := { p with errors := e :: p.errors }

end Program

/-- The statements of at most `fuel` tokens that end with `stop`. -/
def program (stop : Token) : Nat → List Token → Program
  | 0, _ => .empty
  | fuel + 1, ts =>
    match skipSeparators ts with
    | [] => .empty
    | t :: rest =>
      match statement (t :: rest) with
      | .ok ⟨e, left⟩ => (program stop fuel left).addStatement e
      | .error (.unexpected what left) =>
        (program stop fuel (recover left)).addError
          (.ofToken (.unexpectedToken what) (left.head?.getD stop))
      | .error (.invalidNumber number left) =>
        (program stop fuel (recover left)).addError (.ofToken .invalidNumber number)
      | .error (.malformed token) => { Program.empty with malformed := some token }
      | .error .outOfFuel => .empty

end Parser

export Parser (Program)

/-- The end token of a list, or one on the line of the last token if the list has none. -/
def stopToken (ts : List Token) : Token :=
  (ts.find? fun t => t.kind == .eof).getD (.eof ((ts.getLast?.map Token.line).getD 1))

/-- Parse a list of tokens; nothing after the first end token matters. -/
def parse (ts : List Token) : Program :=
  let body := ts.takeWhile fun t => t.kind != .eof
  Parser.program (stopToken ts) (body.length + 1) body

end ExprLang
