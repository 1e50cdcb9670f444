import ExprLang.Console
import ExprLang.Text.Blank

/-!
# The interactive loop

Lines are collected into chunks: a chunk ends with the first line at which its text is not merely
cut short. An interrupt drops the lines collected so far, and the end of the input drops them and
ends the loop. A chunk is a command if it starts with a colon, and otherwise a program that is
remembered and run. The loop is described by the list of everything it does.
-/

namespace ExprLang.Repl

/-- What a read can give. -/
inductive Input
  | line (text : Bytes)
  | interrupt
  | stop
  deriving DecidableEq, Repr

/-! ## Chunks -/

/-- The lines collected so far, joined by line breaks. The empty text stands for no lines. -/
abbrev Pending := Bytes

def Pending.add (p : Pending) (line : Bytes) : Bytes :=
  if p.isEmpty then line else p ++ Text.newline :: line

/-- What an input makes of the lines collected so far. -/
inductive Progress
  | pending (p : Pending)
  | chunk (source : Bytes)
  | finished
  deriving DecidableEq, Repr

def Pending.read (p : Pending) : Input → Progress
  | .line text =>
    let source := p.add text
    if SyntaxError.incomplete (check source) then .pending source else .chunk source
  | .interrupt => .pending []
  | .stop => .finished

/-- The complete chunks of an input. -/
def chunks : Pending → List Input → List Bytes
  | _, [] => []
  | p, i :: inputs =>
    match p.read i with
    | .pending p => chunks p inputs
    | .chunk source => source :: chunks [] inputs
    | .finished => []

/-! ## The loop -/

/-- What the loop does. -/
inductive Event
  | prompt (text : Bytes)
  | out (text : Bytes)
  | err (text : Bytes)
  | remember (entry : Bytes)
  deriving DecidableEq, Repr

structure Session where
  interpreter : Interpreter
  console : Console
  prompt : Bytes

def continuationPrompt : Bytes := bytes "... "

def quitCommands : List Bytes := [bytes ":quit", bytes ":q"]

/-- A program on one line, as it is remembered. -/
def entry (code : Bytes) : Bytes := Text.replaceByte Text.newline (byte ' ') code

namespace Session

def promptFor (s : Session) (p : Pending) : Bytes :=
  if p.isEmpty then s.prompt else continuationPrompt

/-- Handle a chunk. There is no session after a command to quit. -/
def submit (fuel : Nat) (s : Session) (chunk : Bytes) : List Event × Option Session :=
  let code := Text.trim chunk
  if code.isEmpty then ([], some s)
  else if code.head? = some (byte ':') then
    if quitCommands.contains (Text.lower code) then ([], none)
    else ([.out (bytes "unknown command. Type :quit to exit.\n")], some s)
  else
    let run := s.interpreter.run fuel code
    let shown := s.console.shown run
    ([.remember (entry code), .out shown.out, .err shown.err],
      some { s with interpreter := run.after })

/-- What happens when the input ends. -/
def farewell : List Event := [.out (bytes "\n")]

/-- All that happens from the prompt for the next line on, and the inputs never read. -/
def converse (fuel : Nat) : Session → Pending → List Input → List Event × List Input
  | s, p, [] => (.prompt (s.promptFor p) :: farewell, [])
  | s, p, i :: inputs =>
    let (events, unread) :=
      match p.read i with
      | .pending p => converse fuel s p inputs
      | .chunk source =>
        match s.submit fuel source with
        | (events, some s) =>
          let (more, unread) := converse fuel s [] inputs
          (events ++ more, unread)
        | (events, none) => (events, inputs)
      | .finished => (farewell, inputs)
    (.prompt (s.promptFor p) :: events, unread)

end Session

/-! ## What was shown -/

namespace Event

def prompt? : Event → Option Bytes
  | .prompt text => some text
  | _ => none

/-- What an event puts on the output, prompts apart. -/
def out? : Event → Option Bytes
  | .out text => some text
  | _ => none

def err? : Event → Option Bytes
  | .err text => some text
  | _ => none

def remembered? : Event → Option Bytes
  | .remember e => some e
  | _ => none

/-- What an event puts on the screen of the output, prompts included. -/
def screen? : Event → Option Bytes
  | .prompt text => some text
  | .out text => some text
  | _ => none

end Event

end ExprLang.Repl
