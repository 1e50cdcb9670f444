import ExprLang.Eval
import ExprLang.Expr.Parser
import ExprLang.Expr.Printer
import ExprLang.Log
import ExprLang.Token.Scan

/-!
# Running programs

An interpreter keeps its globals from one run to the next. A run scans and parses the whole source
first: with syntax errors nothing is evaluated and the globals stay as they are. Otherwise the
statements are evaluated in order up to the first error, and the bindings made until then stay.
-/

namespace ExprLang

/-- The syntax errors of a source, those of the scan first. -/
def check (source : Bytes) : List SyntaxError :=
  let scanned := scan source
  scanned.errors ++ (parse scanned.tokens).errors

inductive Outcome
  | value (v : Value)
  | syntaxErrors (errors : List SyntaxError)
  | runtimeError (e : RuntimeError)
  | outOfFuel

namespace Outcome

/-- What is told to the user about a run that failed, one error to a line. -/
def errorText? : Outcome → Option Bytes
  | .value _ => none
  | .syntaxErrors errors => some ((bytes "\n").intercalate (errors.map SyntaxError.report))
  | .runtimeError e => some e.report
  | .outOfFuel => some (bytes "evaluation nested too deeply")

end Outcome

namespace Machine

/-- A machine whose only frame holds the builtins. -/
def start (root : Root) (fresh : Nat) : Machine := ⟨⟨Frame.globals root, []⟩, [], fresh⟩

/-- The lines printed, in order. -/
def output (m : Machine) : List Bytes := m.printed.reverse

/-- Evaluate one statement. -/
def evaluate (fuel : Nat) (m : Machine) (e : Expr) : Outcome × Machine :=
  match eval fuel e m with
  | .ok v m' => (.value v, m')
  | .error (.error e) m' => (.runtimeError e, m')
  | .error .outOfFuel m' => (.outOfFuel, m')

end Machine

structure Interpreter where
  machine : Machine
  /-- Whether each statement is printed before it is evaluated. -/
  verbose : Bool

structure Run where
  outcome : Outcome
  printed : List Bytes
  log : List LogEntry
  after : Interpreter

namespace LogEntry

def ofSyntaxError (e : SyntaxError) : LogEntry :=
  ⟨.error, e.message,
    (if e.lexeme = [] then [] else [(bytes "lexeme", .text e.lexeme)]) ++
      [(bytes "line", .number e.line)]⟩

def ofRuntimeError (e : RuntimeError) : LogEntry :=
  ⟨.debug, e.message, [(bytes "error", .text e.cause.kind), (bytes "line", .number e.line)]⟩

/-- A step of a run, with a count. -/
def milestone (message field : String) (n : Nat) : LogEntry :=
  ⟨.debug, bytes message, [(bytes field, .number n)]⟩

end LogEntry

namespace Interpreter

def new (verbose : Bool) : Interpreter := ⟨.start ⟨0, false⟩ 1, verbose⟩

/-- The value of a global. -/
def global? (i : Interpreter) (name : Bytes) : Option Value := i.machine.scope.lookup name

/-- Print a statement in verbose mode. -/
def announce (i : Interpreter) (e : Expr) : Interpreter :=
  if i.verbose then
    { i with machine := { i.machine with printed := e.format :: i.machine.printed } }
  else i

/-- Evaluate statements in order, the first of them the `n`th of its program. The last value
counts. -/
def runStatements (fuel : Nat) : Interpreter → Value → Nat → List Expr →
    Outcome × List LogEntry × Interpreter
  | i, last, _, [] => (.value last, [], i)
  | i, _, n, e :: es =>
    let entry := LogEntry.milestone "evaluating" "statement" n
    let i := i.announce e
    match i.machine.evaluate fuel e with
    | (.value v, m) =>
      let (outcome, log, after) := runStatements fuel { i with machine := m } v (n + 1) es
      (outcome, entry :: log, after)
    | (.runtimeError e, m) =>
      (.runtimeError e, [entry, .ofRuntimeError e], { i with machine := m })
    | (outcome, m) => (outcome, [entry], { i with machine := m })

/-- Run a source. -/
def run (fuel : Nat) (i : Interpreter) (source : Bytes) : Run :=
  let scanned := scan source
  let program := parse scanned.tokens
  let log :=
    scanned.errors.map LogEntry.ofSyntaxError ++
      [.milestone "scanned source" "tokens" scanned.tokens.length] ++
      program.errors.map LogEntry.ofSyntaxError ++
      [.milestone "parsed source" "statements" program.statements.length]
  match scanned.errors ++ program.errors with
  | [] =>
    let start : Interpreter := { i with machine := { i.machine with printed := [] } }
    let (outcome, steps, after) := runStatements fuel start .null 0 program.statements
    { outcome
      printed := after.machine.output
      log := log ++ steps
      after := { after with machine := { after.machine with printed := [] } } }
  | errors => ⟨.syntaxErrors errors, [], log, i⟩

end Interpreter

/-- Run a source in an interpreter of its own. The value, if there is one, and the lines printed;
the text of an error is printed last. -/
def runSource (fuel : Nat) (source : Bytes) : Option Value × List Bytes :=
  let run := (Interpreter.new false).run fuel source
  match run.outcome with
  | .value v => (some v, run.printed)
  | outcome => (none, run.printed ++ outcome.errorText?.toList)

end ExprLang
