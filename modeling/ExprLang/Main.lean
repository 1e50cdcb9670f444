import ExprLang.CommandLine

/-!
# The program

Reads files, the environment and lines, and writes what the stages of a call reply.
-/

namespace ExprLang.CommandLine

def textOf (s : Bytes) : String := (String.fromUTF8? ⟨s.toArray⟩).getD ""

def readFile (name : Bytes) : IO (Except FileError Bytes) := do
  try
    let contents ← IO.FS.readBinFile (textOf name)
    return .ok contents.toList
  catch e =>
    match e with
    | .inappropriateType _ _ details =>
      return .error (if details.endsWith "s a directory" then .isDirectory else .notDirectory)
    | _ => return .error .missing

def writeOut (s : Bytes) : IO Unit := do
  let out ← IO.getStdout
  out.write ⟨s.toArray⟩
  out.flush

def writeErr (s : Bytes) : IO Unit := do
  let err ← IO.getStderr
  err.write ⟨s.toArray⟩
  err.flush

def Reply.send (r : Reply) : IO UInt32 := do
  writeOut r.out
  writeErr r.err
  return r.code.toUInt32

/-- Act on events and keep the history. -/
def perform (history : Repl.History) (events : List Repl.Event) : IO Repl.History := do
  for event in events do
    writeOut (event.screen?.getD [])
    writeErr (event.err?.getD [])
  return (events.filterMap (·.remembered?)).foldl Repl.History.add history

def readInput : IO Repl.Input := do
  let line ← (← IO.getStdin).getLine
  match Text.nextLine? line.toUTF8.toList with
  | some line => return .line line.text
  | none => return .stop

/-- Read and handle lines until the loop ends; the history is returned. -/
partial def converse (session : Repl.Session) (pending : Repl.Pending) (history : Repl.History) :
    IO Repl.History := do
  writeOut (session.promptFor pending)
  match pending.read (← readInput) with
  | .pending p => converse session p history
  | .finished => perform history Repl.Session.farewell
  | .chunk source =>
    match session.submit defaultFuel source with
    | (events, some session) => converse session [] (← perform history events)
    | (events, none) => perform history events

def runRepl (environment : Settings.Environment) (setup : Setup) (isTerminal : Bool) :
    IO UInt32 := do
  writeOut banner
  let path? := Settings.historyPath? environment setup.settings
  let before ←
    match path? with
    | some path => pure (historyAfter (← readFile path) [])
    | none => pure []
  let after ←
    if Text.hasHidden setup.settings.prompt then perform before Repl.Session.farewell
    else converse (setup.session isTerminal) [] before
  if let some path := path? then
    try IO.FS.writeBinFile (textOf path) ⟨after.text.toArray⟩ catch _ => pure ()
  return 0

def call (arguments : List Bytes) : IO UInt32 := do
  match Flags.empty.read arguments with
  | .error e => e.reply.send
  | .ok (flags, rest) =>
    let home ← IO.getEnv "HOME"
    let settingsFile ← IO.getEnv "HENRY_CONFIG"
    let environment : Settings.Environment :=
      ⟨bytes (home.getD ""), bytes (settingsFile.getD "")⟩
    let loaded ←
      match Settings.filePath? environment with
      | none => pure (.ok .default)
      | some path => pure (Settings.load path (← readFile path))
    match Setup.make flags loaded with
    | .error reply => reply.send
    | .ok setup =>
      let isTerminal ← (← IO.getStderr).isTty
      match Command.ofArguments rest with
      | .file task name verbose =>
        (task.reply defaultFuel (setup.console isTerminal) (setup.settings.verbose || verbose)
          name (← readFile name)).send
      | .repl => runRepl environment setup isTerminal
      | command => ((command.reply?).getD ⟨[], [], 0⟩).send

end ExprLang.CommandLine

def main (arguments : List String) : IO UInt32 :=
  ExprLang.CommandLine.call (arguments.map ExprLang.bytes)
