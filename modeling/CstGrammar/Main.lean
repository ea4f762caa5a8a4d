import CstGrammar.Command.Run

namespace CstGrammar.Command

def fileError : IO.Error → FileError
  | .noFileOrDirectory .. => .notFound
  | .inappropriateType _ code _ =>
    if code = 20 ∨ code = -20 then .notDirectory else .isDirectory
  | .invalidArgument _ code text =>
    if code = 36 ∨ code = -36 then .nameTooLong else .other text
  | e => .other (toString e)

def attempt {α : Type} (action : IO α) : IO (Except FileError α) :=
  return (← action.toBaseIO).mapError fileError

partial def readToEnd (stream : IO.FS.Stream) (read : ByteArray := .empty) : IO ByteArray := do
  let more ← stream.read 65536
  if more.isEmpty then return read else readToEnd stream (read ++ more)

def getEnv (name : String) : IO (Option String) :=
  if '\x00' ∈ name.toList then return none else IO.getEnv name

/-- The settings file in the working directory, or else in the nearest directory above it. -/
def readSettings : IO (Option ByteArray) := do
  let depth := (Path.split (← IO.currentDir).toString).length
  for n in List.range (depth + 1) do
    let path := String.join (List.replicate n "../") ++ Settings.fileName
    match ← attempt (IO.FS.readBinFile path) with
    | .ok bytes => return some bytes
    | .error .notFound | .error .isDirectory => continue
    | .error _ => return none
  return none

def systemHost : Host (StateT Environment IO) where
  Sink := IO.FS.Handle
  loadSettings := do
    let content := (← readSettings).getD .empty
    let names := (Settings.assignments content).flatMap Settings.Assignment.names
    let known ← (Environment.logSetting :: names).filterMapM fun name ↦ do
      return (← getEnv name).map (name, ·)
    match Environment.extend? known content with
    | some known =>
      set known
      return true
    | none => return false
  shown := return (← get).shown
  request := Arguments.request
  readInput := attempt do readToEnd (← IO.getStdin)
  readFile path := attempt (IO.FS.readBinFile path)
  createFile path := attempt (IO.FS.Handle.mk path .write)
  writeFile file content := attempt do
    file.write content
    file.flush
  print text := attempt (IO.print text)

end CstGrammar.Command

open CstGrammar

def main (arguments : List String) : IO UInt32 := do
  let (outcome, _) ← (Command.run Command.systemHost arguments).run []
  for line in outcome.log do
    IO.eprintln line.text
  for e in outcome.usageError do
    IO.eprintln ("error: " ++ e.message)
  if !outcome.report.isEmpty then
    IO.eprintln ("Error: " ++ "\n".intercalate outcome.report)
  return outcome.exitCode.toUInt32
