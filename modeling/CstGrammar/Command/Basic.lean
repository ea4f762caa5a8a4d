import CstGrammar.Grammar.Load
import CstGrammar.Json.Basic

namespace CstGrammar

/-- What the command is to read, where it is to write, and in which layout. Where no path is given,
it reads and writes the standard streams. -/
structure Conversion where
  input : Option String := none
  output : Option String := none
  pretty : Bool := false
  deriving DecidableEq, Repr

inductive UsageError
  | unexpected (argument : String)
  | missingValue (option : String)
  | repeated (option : String)
  deriving DecidableEq, Repr

def UsageError.message : UsageError → String
  | unexpected argument =>
    "Found argument '" ++ argument ++ "' which wasn't expected, or isn't valid in this context"
  | missingValue option =>
    "The argument '" ++ option ++ "' requires a value but none was supplied"
  | repeated option =>
    "The argument '" ++ option ++ "' was provided more than once, but cannot be used multiple times"

structure LogLine where
  severity : Severity
  target : String
  message : String
  fields : List (String × String) := []
  deriving DecidableEq, Repr

namespace LogLine

def ofEvent (e : Event) : LogLine := ⟨e.severity, "ungrammar::parser", e.message, e.fields⟩

def ofCommand (severity : Severity) (message : String) (fields : List (String × String) := []) :
    LogLine :=
  ⟨severity, "ungrammar2json", message, fields⟩

def text (l : LogLine) : String :=
  l.severity.label ++ " " ++ l.target ++ ": " ++ l.message ++
    String.join (l.fields.map (fun (name, value) ↦ " " ++ name ++ "=" ++ value))

end LogLine

namespace Command

/-- What a run shows and how it ends. The report goes from the failure itself to its cause. -/
structure Outcome where
  exitCode : Nat
  output : String := ""
  log : List LogLine := []
  report : List String := []
  usageError : Option UsageError := none
  deriving DecidableEq, Repr

def Outcome.brokenOff : Outcome := { exitCode := 101 }

end Command

open Command

/-- What the command needs from the system that it runs on and from the libraries that it uses. -/
structure Host (m : Type → Type) where
  Sink : Type
  /-- Takes over the settings files into the environment. Nothing else happens if that breaks off
  the run. -/
  loadSettings : m Bool
  /-- Which messages are shown, as the environment has it. -/
  shown : m (LogLine → Bool)
  /-- What is asked for, or else how the run ends. -/
  request : (arguments : List String) → Except Outcome Conversion
  readInput : m (Except FileError ByteArray)
  readFile : (path : String) → m (Except FileError ByteArray)
  createFile : (path : String) → m (Except FileError Sink)
  writeFile : Sink → (content : ByteArray) → m (Except FileError Unit)
  print : String → m (Except FileError Unit)

namespace Command

def dump (pretty : Bool) (g : Grammar) : String :=
  g.toJson.text (if pretty then Json.pretty else Json.compact) ++ "\n"

def announce (p : Parse) : List LogLine :=
  p.log.map .ofEvent ++
    if p.errors.isEmpty then
      [.ofCommand .info "parsed grammar" [("rules", toString p.grammar.size)]]
    else p.errors.map (fun e ↦ .ofCommand .error e.text)

variable {m : Type → Type} [Monad m]

def readSource (host : Host m) (input : Option String) : m (Except FileError String) := do
  let bytes ← match input with
    | some path => host.readFile path
    | none => host.readInput
  return bytes.bind decodeText

/-- Writes the grammar to a file that is created for it, or else to the standard output. -/
def deliver (host : Host m) (c : Conversion) (log : List LogLine) (g : Grammar) : m Outcome := do
  match c.output with
  | none =>
    match ← host.print (dump c.pretty g) with
    | .ok () => return { exitCode := 0, log, output := dump c.pretty g }
    | .error e => return { exitCode := 1, log, report := [e.message] }
  | some path =>
    match ← host.createFile path with
    | .ok sink =>
      match ← host.writeFile sink (dump c.pretty g).toUTF8 with
      | .ok () => return { exitCode := 0, log }
      | .error e => return { exitCode := 1, log, report := [e.message] }
    | .error e => return { exitCode := 1, log, report := ["failed to create " ++ path, e.message] }

def convert (host : Host m) (c : Conversion) : m Outcome := do
  let reading : LogLine := match c.input with
    | some path => .ofCommand .debug "reading input" [("path", path)]
    | none => .ofCommand .debug "reading stdin"
  match ← readSource host c.input with
  | .error e =>
    return {
      exitCode := 1
      log := [reading]
      report := ["failed to read " ++ c.input.getD "stdin", e.message] }
  | .ok source =>
    let p := Parse.ofSource source
    let log := reading :: announce p
    match p.accepted with
    | .error errors =>
      return { exitCode := 1, log, report := ["error parsing ungrammar: " ++ errors.summary] }
    | .ok g => deliver host c log g

def run (host : Host m) (arguments : List String) : m Outcome := do
  if ← host.loadSettings then
    let shown ← host.shown
    match host.request arguments with
    | .error outcome =>
      discard (host.print outcome.output)
      return outcome
    | .ok c =>
      let outcome ← convert host c
      return { outcome with log := outcome.log.filter shown }
  else return .brokenOff

end Command

abbrev Environment := List (String × String)

/-- Files as a system keeps them, and what the libraries make of them and of the environment. What
fails leaves the files as they are. -/
structure Platform where
  Files : Type
  File : Type
  Input : Type
  settings : Files → Environment → Option Environment
  shown : Environment → LogLine → Bool
  request : List String → Except Outcome Conversion
  readInput : Input → Except FileError ByteArray
  read : Files → (path : String) → Except FileError ByteArray
  create : Files → (path : String) → Except FileError (File × Files)
  write : Files → File → ByteArray → Except FileError Files
  print : String → Except FileError Unit

structure Machine (P : Platform) where
  environment : Environment := []
  directory : P.Files
  input : P.Input

def Platform.host (P : Platform) : Host (StateM (Machine P)) where
  Sink := P.File
  loadSettings := do
    let machine ← get
    match P.settings machine.directory machine.environment with
    | some environment =>
      set { machine with environment }
      return true
    | none => return false
  shown := return P.shown (← get).environment
  request := P.request
  readInput := return P.readInput (← get).input
  readFile path := return P.read (← get).directory path
  createFile path := do
    let machine ← get
    match P.create machine.directory path with
    | .ok (file, directory) =>
      set { machine with directory }
      return .ok file
    | .error e => return .error e
  writeFile file content := do
    let machine ← get
    match P.write machine.directory file content with
    | .ok directory =>
      set { machine with directory }
      return .ok ()
    | .error e => return .error e
  print text := return P.print text

end CstGrammar
