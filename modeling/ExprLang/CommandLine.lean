import ExprLang.CommandLine.Flags
import ExprLang.Repl
import ExprLang.Repl.History
import ExprLang.Settings
import ExprLang.Text.Hidden

/-!
# The command line

A call goes through three stages, each of which can end it with a reply: the flags are read, the
settings file is read and changed by the flags, and the remaining arguments name a command. The
stages are pure; `run` puts them together over a folder of files, the environment and the text of
the input.
-/

namespace ExprLang.CommandLine

structure Reply where
  out : Bytes
  err : Bytes
  code : Nat
  deriving DecidableEq, Repr

def Reply.fail (code : Nat) (err : Bytes) : Reply := ⟨[], err, code⟩

/-- The reply of a call that breaks down. Only such a call fails without a word. -/
def Reply.breakdown : Reply := ⟨[], [], 2⟩

def version : Bytes := bytes "0.1.0"

def usage : Bytes :=
  bytes "Usage:\n" ++
  bytes "  henry [flags] run FILE [--verbose]\n" ++
  bytes "  henry [flags] FILE\n" ++
  bytes "  henry [flags] repl\n" ++
  bytes "  henry [flags] tokens FILE\n" ++
  bytes "  henry [flags] ast FILE\n" ++
  bytes "  henry version\n" ++
  bytes "\n" ++
  bytes "Flags:\n"

def flagUsage : Bytes :=
  bytes "  -log-level string\n" ++
  bytes "    \tdiagnostics level: panic, fatal, error, warn, info, debug\n" ++
  bytes "  -no-color\n" ++
  bytes "    \tdisable colored output\n" ++
  bytes "  -verbose\n" ++
  bytes "    \tprint each statement before evaluating it\n"

/-! ## Flags and settings -/

def FlagError.reply (e : FlagError) : Reply :=
  .fail 2 ((e.message?.map lineText).getD [] ++ usage ++ flagUsage)

/-- Flags win over the settings file. -/
def Flags.apply (f : Flags) (s : Settings) : Settings :=
  { s with
    verbose := f.verbose.getD s.verbose
    color := (f.noColor.map (!·)).getD s.color
    logLevel := f.logLevel.getD s.logLevel }

/-- Settings that have been checked. -/
structure Setup where
  settings : Settings
  level : LogLevel

/-- Apply the flags to what the settings file gave. -/
def Setup.make (f : Flags) (loaded : Except SettingsError Settings) : Except Reply Setup :=
  match loaded with
  | .error e => .error ((e.message?.map fun message => .fail 1 (lineText message)).getD .breakdown)
  | .ok s =>
    let settings := f.apply s
    match LogLevel.ofName? settings.logLevel with
    | some level => .ok ⟨settings, level⟩
    | none => .error (.fail 2 (lineText (LogLevel.unknownMessage settings.logLevel)))

/-- Lines are coloured only on a terminal. -/
def Setup.console (s : Setup) (isTerminal : Bool) : Console :=
  ⟨s.level, s.settings.color && isTerminal⟩

/-! ## Commands -/

/-- What can be done with a source file. -/
inductive Task
  | run | tokens | tree
  deriving DecidableEq, Repr

inductive Command
  | file (task : Task) (name : Bytes) (verbose : Bool)
  /-- A task whose arguments do not name one file. -/
  | noFile
  | repl
  | version
  | help
  | missing
  deriving DecidableEq, Repr

def isVerboseFlag (argument : Bytes) : Bool :=
  argument = bytes "--verbose" || argument = bytes "-verbose"

/-- A task for the one file among the arguments. Empty arguments before it are ignored, and the
verbose flag may stand anywhere. -/
def Task.command (task : Task) (arguments : List Bytes) : Command :=
  match (arguments.filter (!isVerboseFlag ·)).dropWhile List.isEmpty with
  | [name] => .file task name (arguments.any isVerboseFlag)
  | _ => .noFile

def helpWords : List Bytes := [bytes "help", bytes "-h", bytes "--help"]

/-- The command that the arguments after the flags name. -/
def Command.ofArguments (arguments : List Bytes) : Command :=
  match arguments with
  | [] => .missing
  | first :: rest =>
    if first = bytes "run" then Task.run.command rest
    else if first = bytes "repl" then .repl
    else if first = bytes "tokens" then Task.tokens.command rest
    else if first = bytes "ast" then Task.tree.command rest
    else if first = bytes "version" then .version
    else if helpWords.contains first then .help
    else Task.run.command arguments

/-! ## Tasks on a source file -/

/-- The reply to syntax errors after `out` has been written. -/
def syntaxReply (c : Console) (out : Bytes) (errors : List SyntaxError) : Reply :=
  if errors.isEmpty then ⟨out, [], 0⟩
  else
    ⟨out,
      logLines c.level (errors.map LogEntry.ofSyntaxError) ++
        c.errorLines ((bytes "\n").intercalate (errors.map SyntaxError.report)), 1⟩

/-- Do a task with the text of a source file. -/
def Task.perform (fuel : Nat) (c : Console) (verbose : Bool) (source : Bytes) : Task → Reply
  | .run =>
    let run := (Interpreter.new verbose).run fuel source
    let shown := c.shown run
    ⟨shown.out, shown.err, if run.outcome.errorText?.isSome then 1 else 0⟩
  | .tokens =>
    let scanned := scan source
    syntaxReply c (scanned.tokens.flatMap fun t => lineText t.describe) scanned.errors
  | .tree =>
    let scanned := scan source
    if scanned.errors.isEmpty then
      let program := parse scanned.tokens
      syntaxReply c (program.statements.flatMap fun e => lineText e.format) program.errors
    else syntaxReply c [] scanned.errors

/-- Do a task with a file. -/
def Task.reply (fuel : Nat) (c : Console) (verbose : Bool) (name : Bytes)
    (contents : Except FileError Bytes) (task : Task) : Reply :=
  match contents with
  | .error e => .fail 1 (c.errorLines (e.message name))
  | .ok source =>
    let entry : LogEntry := ⟨.debug, bytes "read source", [(bytes "file", .text name)]⟩
    let reply := task.perform fuel c verbose source
    { reply with err := logLines c.level [entry] ++ reply.err }

/-! ## The interactive loop -/

def banner : Bytes := bytes "henry " ++ version ++ bytes ", type :quit to exit\n"

def Setup.session (s : Setup) (isTerminal : Bool) : Repl.Session :=
  ⟨.new s.settings.verbose, s.console isTerminal, s.settings.prompt⟩

/-- What the loop does on the text of the input. A prompt with hidden characters cannot be shown,
so that no line is read. -/
def Setup.converse (fuel : Nat) (s : Setup) (input : Bytes) : List Repl.Event :=
  if Text.hasHidden s.settings.prompt then Repl.Session.farewell
  else
    ((s.session false).converse fuel []
      ((Text.lines input).map fun line => .line line.text)).1

/-- The reply of a loop. -/
def replReply (events : List Repl.Event) : Reply :=
  ⟨banner ++ (events.filterMap (·.screen?)).flatten, (events.filterMap (·.err?)).flatten, 0⟩

/-- The history after a loop that found the given history file. -/
def historyAfter (contents : Except FileError Bytes) (events : List Repl.Event) : Repl.History :=
  let before :=
    match contents with
    | .ok text => Repl.History.ofText text
    | .error _ => []
  (events.filterMap (·.remembered?)).foldl Repl.History.add before

/-! ## A whole call -/

/-- Reply to the commands that need no file. -/
def Command.reply? : Command → Option Reply
  | .noFile => some (.fail 1 usage)
  | .version => some ⟨bytes "henry " ++ lineText CommandLine.version, [], 0⟩
  | .help => some (.fail 0 (usage ++ flagUsage))
  | .missing => some (.fail 2 (usage ++ flagUsage))
  | .file _ _ _ => none
  | .repl => none

/-- What a call finds. -/
structure Scene where
  folder : Folder
  environment : Settings.Environment
  input : Bytes

/-- The settings that a scene holds. -/
def Scene.settings (s : Scene) : Except SettingsError Settings :=
  match Settings.filePath? s.environment with
  | none => .ok .default
  | some path => Settings.load path (s.folder.read path)

/-- Carry out a command; the folder after it is given too. -/
def Scene.carryOut (fuel : Nat) (s : Scene) (setup : Setup) (command : Command) : Reply × Folder :=
  match command with
  | .file task name verbose =>
    (task.reply fuel (setup.console false) (setup.settings.verbose || verbose) name
      (s.folder.read name), s.folder)
  | .repl =>
    let events := setup.converse fuel s.input
    let folder :=
      match Settings.historyPath? s.environment setup.settings with
      | some path => s.folder.write path (historyAfter (s.folder.read path) events).text
      | none => s.folder
    (replReply events, folder)
  | command => ((command.reply?).getD ⟨[], [], 0⟩, s.folder)

/-- A call with the given arguments. -/
def Scene.run (fuel : Nat) (s : Scene) (arguments : List Bytes) : Reply × Folder :=
  match Flags.empty.read arguments with
  | .error e => (e.reply, s.folder)
  | .ok (flags, rest) =>
    match Setup.make flags s.settings with
    | .error reply => (reply, s.folder)
    | .ok setup => s.carryOut fuel setup (Command.ofArguments rest)

end ExprLang.CommandLine
