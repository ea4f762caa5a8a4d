import CstGrammar.Command.Arguments
import CstGrammar.File.Directory
import CstGrammar.Settings.File

namespace CstGrammar

structure Directive where
  target : String
  limit : Nat
  deriving DecidableEq, Repr

namespace Directive

def limit? (word : String) : Option Nat :=
  let word := word.map Char.toLower
  if word = "off" then some 0
  else (Severity.ofName? word).map Severity.rank <|> word.toNat?.filter (· ≤ 5)

def inTarget (c : Char) : Bool := c.isAlphanum || c ∈ ['_', ':', '-']

/-- A directive is a limit, a target, or both with an equals sign between them. A target without a
limit shows everything. -/
def ofText? (text : String) : Option Directive := do
  if let some limit := limit? text then return { target := "", limit }
  let target := text.toList.takeWhile inTarget
  guard (target ≠ [])
  match text.toList.dropWhile inTarget with
  | [] | ['='] => return { target := String.ofList target, limit := Severity.trace.rank }
  | '=' :: word => return { target := String.ofList target, limit := ← limit? (String.ofList word) }
  | _ => none

def parse (setting : String) : List Directive :=
  match (Text.pieces ',' setting.toList).filterMap (fun cs ↦ ofText? (String.ofList cs)) with
  | [] => [{ target := "", limit := Severity.error.rank }]
  | ds => ds

/-- The longest target decides; of the directives with that target, the last. -/
def shows (ds : List Directive) (l : LogLine) : Bool :=
  let fitting := ds.filter (fun d ↦ d.target.toList.isPrefixOf l.target.toList)
  let longest := fitting.foldl (fun n d ↦ max n d.target.length) 0
  (fitting.findRev? (fun d ↦ d.target.length = longest)).any (l.severity.rank ≤ ·.limit)

end Directive

namespace Environment

def logSetting : String := "RUST_LOG"

def shown (known : Environment) : LogLine → Bool :=
  Directive.shows (Directive.parse ((Settings.Bindings.value? known logSetting).getD ""))

def extend? (known : Environment) (content : ByteArray) : Option Environment :=
  Settings.extend? known (Settings.assignments content)

end Environment

def Settings.fileName : String := ".env"

/-- A platform to try the command on: files at and below a working directory, and libraries as they
act on plain input. -/
def Directory.platform : Platform where
  Files := Directory
  File := Place
  Input := ByteArray
  settings d known := ((d.findAbove? Settings.fileName).map known.extend?).getD (some known)
  shown := Environment.shown
  request := Arguments.request
  readInput := .ok
  read := Directory.read
  create := Directory.create
  write d p content := .ok (d.write p content)
  print _ := .ok ()

def Machine.host : Host (StateM (Machine Directory.platform)) := Directory.platform.host

end CstGrammar
