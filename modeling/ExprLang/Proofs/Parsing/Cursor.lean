import ExprLang.Proofs.Parsing.Program

/-!
# Parsing with a cursor

The parser once more, as a machine that keeps the whole list of tokens and a cursor into it. Here
a wrong index, a cursor behind the end token or a loop that goes round in place is a crash, so that
a run that ends without one never did any of this. `Safety` shows that such a run is the only kind
there is, and that it gives what `parse` gives.
-/

namespace ExprLang.Cursor

/-! ## Actions -/

structure State where
  position : Nat
  errors : List SyntaxError

inductive Crash
  /-- A token was looked up outside the list. -/
  | outOfRange
  /-- The cursor was moved behind an end token. -/
  | pastEnd
  /-- A round of a loop left the cursor where it was. -/
  | idle
  /-- A string token carries no text. -/
  | noText (token : Token)
  | outOfFuel

/-- An action gives a value, fails after reporting an error, or crashes. -/
inductive Outcome (α : Type)
  | done (value : α) (state : State)
  | failed (state : State)
  | crashed (reason : Crash)

def Action (α : Type) : Type := State → Outcome α

instance : Monad Action where
  pure a := fun s => .done a s
  bind x f := fun s =>
    match x s with
    | .done a s => f a s
    | .failed s => .failed s
    | .crashed reason => .crashed reason

def crash {α : Type} (reason : Crash) : Action α := fun _ => .crashed reason

def fail {α : Type} (cause : SyntaxCause) (t : Token) : Action α := fun s =>
  .failed { s with errors := s.errors ++ [.ofToken cause t] }

def position : Action Nat := fun s => .done s.position s

/-- The end of a round of a loop that began at `start`. -/
def progressed (start : Nat) : Action Unit := do
  if start < (← position) then pure () else crash .idle

/-! ## Single tokens -/

section Tokens

variable (tokens : List Token)

def tokenAt (index : Nat) : Action Token :=
  match tokens[index]? with
  | some t => pure t
  | none => crash .outOfRange

def peek : Action Token := do
  let index ← position
  tokenAt tokens index

/-- The token that was read last. -/
def previous : Action Token := do
  match ← position with
  | 0 => crash .outOfRange
  | index + 1 => tokenAt tokens index

/-- The token some places ahead, or the last one. -/
def peekAt (offset : Nat) : Action Token := do
  let index ← position
  tokenAt tokens (if tokens.length ≤ index + offset then tokens.length - 1 else index + offset)

/-- Move the cursor without a look at the tokens. -/
def move (n : Nat) : Action Unit := fun s =>
  if ∀ t ∈ tokens.take (s.position + n), t.kind ≠ .eof then
    .done () { s with position := s.position + n }
  else .crashed .pastEnd

def atEnd : Action Bool := do
  let t ← peek tokens
  pure (t.kind == .eof)

def sees (p : TokenKind → Bool) : Action Bool := do
  if ← atEnd tokens then pure false
  else
    let t ← peek tokens
    pure (p t.kind)

/-- Go on by one token unless it is the end token. -/
def advance : Action Token := do
  if !(← atEnd tokens) then move tokens 1
  previous tokens

def accept (kind : TokenKind) : Action Bool := do
  if ← sees tokens (· == kind) then
    move tokens 1
    pure true
  else pure false

/-- Read a token of one of the kinds that stand for something. -/
def acceptAs {β : Type} (f : TokenKind → Option β) : Action (Option β) := do
  if ← atEnd tokens then pure none
  else
    let t ← peek tokens
    match f t.kind with
    | none => pure none
    | some b =>
      move tokens 1
      pure (some b)

def expect (kind : TokenKind) (what : Expected) : Action Token := do
  if ← sees tokens (· == kind) then advance tokens
  else
    let t ← peek tokens
    fail (.unexpectedToken what) t

/-- A loop over single tokens has at most one round for each of them. Irreducible, so that no
elaboration of a proof starts to run the loops. -/
@[irreducible] def rounds : Nat := tokens.length + 1

def skipWhile (p : TokenKind → Bool) : Nat → Action Unit
  | 0 => crash .outOfFuel
  | fuel + 1 => do
    if ← sees tokens p then
      move tokens 1
      skipWhile p fuel

def skipNewlines : Action Unit := skipWhile tokens (· == .newline) (rounds tokens)

def skipSeparators : Action Unit := skipWhile tokens TokenKind.isSeparator (rounds tokens)

/-- How many line breaks stand ahead, of which `offset` are known. -/
def newlinesAhead : Nat → Nat → Action Nat
  | 0, _ => crash .outOfFuel
  | fuel + 1, offset => do
    let t ← peekAt tokens offset
    if t.kind = .newline then newlinesAhead fuel (offset + 1) else pure offset

/-- Read a token and the line breaks before it, but only together. -/
def acceptAfterNewlines (kind : TokenKind) : Action Bool := do
  let offset ← newlinesAhead tokens (rounds tokens) 0
  let t ← peekAt tokens offset
  if t.kind = kind then
    move tokens (offset + 1)
    pure true
  else pure false

/-! ## Expressions -/

def number : Action Expr := do
  let t ← previous tokens
  let literal? :=
    if t.kind = .float then (Number.readFloat? t.lexeme).map Literal.float
    else (Number.readInt? t.lexeme).map Literal.int
  match literal? with
  | some literal => pure (.literal literal)
  | none => fail .invalidNumber t

def string : Action Expr := do
  let t ← previous tokens
  match t.text? with
  | some s => pure (.literal (.string s))
  | none => crash (.noText t)

def parameters : Nat → Action (List Bytes)
  | 0 => crash .outOfFuel
  | fuel + 1 => do
    let start ← position
    if (← sees tokens (· == .bar)) || (← atEnd tokens) then
      let _ ← expect tokens .bar .parametersEnd
      pure []
    else
      let name ← expect tokens .identifier .parameterName
      progressed start
      let names ← parameters fuel
      pure (name.lexeme :: names)

/-- A name with `:=` behind it. -/
def seesAssignment : Action Bool := do
  if ← sees tokens (· == .identifier) then
    let t ← peekAt tokens 1
    pure (t.kind == .assign)
  else pure false

mutual

def operand : Nat → Option Level → Action Expr
  | 0, _ => crash .outOfFuel
  | fuel + 1, none => unary fuel
  | fuel + 1, some l => do
    let left ← operand fuel l.tighter
    chain fuel l left

def chain : Nat → Level → Expr → Action Expr
  | 0, _, _ => crash .outOfFuel
  | fuel + 1, l, left => do
    let start ← position
    match ← acceptAs tokens l.operator? with
    | none => pure left
    | some op =>
      let t ← previous tokens
      let right ← operand fuel l.right
      progressed start
      chain fuel l (.binary left op t.lexeme t.line right)

def unary : Nat → Action Expr
  | 0 => crash .outOfFuel
  | fuel + 1 => do
    skipNewlines tokens
    match ← acceptAs tokens UnaryOp.ofKind? with
    | some op =>
      let t ← previous tokens
      let e ← unary fuel
      pure (.unary op t.lexeme t.line e)
    | none =>
      let callee ← primary fuel
      calls fuel callee

def calls : Nat → Expr → Action Expr
  | 0, _ => crash .outOfFuel
  | fuel + 1, callee => do
    let start ← position
    if ← accept tokens .leftParen then
      let t ← previous tokens
      let args ← arguments fuel
      progressed start
      calls fuel (.call callee t.line args)
    else pure callee

def arguments : Nat → Action (List Expr)
  | 0 => crash .outOfFuel
  | fuel + 1 => do
    skipNewlines tokens
    if ← sees tokens (· == .rightParen) then
      let _ ← expect tokens .rightParen .argumentsEnd
      pure []
    else
      let e ← operand fuel (some .or)
      let es ← moreArguments fuel
      pure (e :: es)

def moreArguments : Nat → Action (List Expr)
  | 0 => crash .outOfFuel
  | fuel + 1 => do
    skipNewlines tokens
    let start ← position
    if ← accept tokens .comma then
      let e ← operand fuel (some .or)
      progressed start
      let es ← moreArguments fuel
      pure (e :: es)
    else
      let _ ← expect tokens .rightParen .argumentsEnd
      pure []

def primary : Nat → Action Expr
  | 0 => crash .outOfFuel
  | fuel + 1 => do
    if ← accept tokens .forWord then
      let t ← previous tokens
      let name ← expect tokens .identifier .variableName
      let _ ← expect tokens .assign .assignment
      let items ← operand fuel (some .or)
      let body ← operand fuel (some .or)
      pure (.each t.line name.lexeme items body)
    else if ← accept tokens .ifWord then
      let t ← previous tokens
      let test ← operand fuel (some .or)
      let yes ← operand fuel (some .or)
      let no ← branches fuel
      pure (.cond t.line test yes no)
    else if ← seesAssignment tokens then
      let name ← advance tokens
      let _ ← advance tokens
      let value ← operand fuel (some .or)
      pure (.assign name.lexeme name.line value)
    else if ← accept tokens .leftBrace then
      let t ← previous tokens
      skipSeparators tokens
      let body ← block fuel
      pure (.block t.line body)
    else if ← accept tokens .bar then
      let t ← previous tokens
      let params ← parameters tokens (rounds tokens)
      let body ← operand fuel (some .or)
      pure (.function t.line params body)
    else if ← accept tokens .falseWord then
      pure (.literal (.bool false))
    else if ← accept tokens .trueWord then
      pure (.literal (.bool true))
    else if ← accept tokens .int then
      number tokens
    else if ← accept tokens .float then
      number tokens
    else if ← accept tokens .string then
      string tokens
    else if ← accept tokens .identifier then
      let t ← previous tokens
      pure (.variable t.lexeme t.line)
    else if ← accept tokens .leftParen then
      let inner ← operand fuel (some .or)
      skipNewlines tokens
      let _ ← expect tokens .rightParen .groupEnd
      pure (.grouping inner)
    else
      let t ← peek tokens
      fail (.unexpectedToken .expression) t

def branches : Nat → Action Branches
  | 0 => crash .outOfFuel
  | fuel + 1 => do
    let start ← position
    if ← acceptAfterNewlines tokens .elseWord then
      if ← accept tokens .ifWord then
        let test ← operand fuel (some .or)
        let yes ← operand fuel (some .or)
        progressed start
        let no ← branches fuel
        pure (.elseIf test yes no)
      else
        let body ← operand fuel (some .or)
        pure (.otherwise body)
    else pure .done

def block : Nat → Action (List Expr)
  | 0 => crash .outOfFuel
  | fuel + 1 => do
    let start ← position
    if (← sees tokens (· == .rightBrace)) || (← atEnd tokens) then
      let _ ← expect tokens .rightBrace .blockEnd
      pure []
    else
      let e ← operand fuel (some .or)
      skipSeparators tokens
      progressed start
      let es ← block fuel
      pure (e :: es)

end

/-! ## Programs -/

def statement : Action Expr := operand tokens (16 * rounds tokens) (some .or)

/-- The rounds of the recovery after an error, which began with one step ahead. -/
def synchronizeLoop : Nat → Action Unit
  | 0 => crash .outOfFuel
  | fuel + 1 => do
    let start ← position
    if ← atEnd tokens then pure ()
    else
      let before ← previous tokens
      if before.kind.isSeparator then pure ()
      else
        let t ← peek tokens
        if t.kind = .typeWord ∨ t.kind = .ifWord then pure ()
        else
          let _ ← advance tokens
          progressed start
          synchronizeLoop fuel

def synchronize : Action Unit := do
  let _ ← advance tokens
  synchronizeLoop tokens (rounds tokens)

/-- A statement, or nothing after an error and the recovery from it. -/
def attempt : Action (Option Expr) := fun s =>
  match statement tokens s with
  | .done e s => .done (some e) s
  | .failed s =>
    match synchronize tokens s with
    | .done _ s => .done none s
    | .failed s => .failed s
    | .crashed reason => .crashed reason
  | .crashed reason => .crashed reason

end Tokens

/-- One round of the main loop: the places where it began and ended, the statement unless it
failed, and the errors it reported. -/
structure Attempt where
  start : Nat
  stop : Nat
  statement? : Option Expr
  errors : List SyntaxError

def state : Action State := fun s => .done s s

def attempts (tokens : List Token) : Nat → Action (List Attempt)
  | 0 => crash .outOfFuel
  | fuel + 1 => do
    if ← atEnd tokens then pure []
    else
      let before ← state
      let statement? ← attempt tokens
      let after ← state
      skipSeparators tokens
      progressed before.position
      let rest ← attempts tokens fuel
      pure (⟨before.position, after.position, statement?,
        after.errors.drop before.errors.length⟩ :: rest)

/-- The list with an end token behind it unless it ends with one. -/
def complete (ts : List Token) : List Token :=
  if ts.getLast?.map Token.kind = some .eof then ts
  else ts ++ [.eof ((ts.getLast?.map Token.line).getD 1)]

def run (ts : List Token) : Outcome (List Attempt) :=
  let tokens := complete ts
  (do
    skipSeparators tokens
    attempts tokens (rounds tokens) : Action (List Attempt)) ⟨0, []⟩

end ExprLang.Cursor
