import CstGrammar.Command.Run
import CstGrammar.Proofs.Json.Grammar
import CstGrammar.Proofs.Parser.Placeholders

namespace CstGrammar

open Command

namespace Machine

variable {P : Platform}

def source (machine : Machine P) (input : Option String) : Except FileError String :=
  (match input with
    | some path => P.read machine.directory path
    | none => P.readInput machine.input).bind decodeText

variable {machine : Machine P}

end Machine

namespace Command

variable {P : Platform} {content : P.Files → P.File → Option ByteArray} {Keeps : P.File → Prop}

/-- How a conversion may end that has come to `text` by reading, and what it makes of the files. -/
inductive Ends (text : Except FileError String) (d : P.Files) (c : Conversion) :
    Outcome → P.Files → Prop
  | unreadable {e log} : text = .error e →
      Ends text d c
        { exitCode := 1, log, report := ["failed to read " ++ c.input.getD "stdin", e.message] } d
  | malformed {source log} : text = .ok source → (Parse.ofSource source).errors ≠ [] →
      Ends text d c
        { exitCode := 1
          log
          report := ["error parsing ungrammar: " ++ (Parse.ofSource source).errors.summary] } d
  | uncreatable {source path e log} : text = .ok source → (Parse.ofSource source).errors = [] →
      c.output = some path → P.create d path = .error e →
      Ends text d c { exitCode := 1, log, report := ["failed to create " ++ path, e.message] } d
  | shown {source log} : text = .ok source → (Parse.ofSource source).errors = [] →
      c.output = none →
      Ends text d c
        { exitCode := 0, log, output := dump c.pretty (Parse.ofSource source).grammar } d
  | written {source path file created next log} : text = .ok source →
      (Parse.ofSource source).errors = [] → c.output = some path →
      P.create d path = .ok (file, created) →
      P.write created file (dump c.pretty (Parse.ofSource source).grammar).toUTF8 = .ok next →
      Ends text d c { exitCode := 0, log } next

section Ends

variable {text : Except FileError String} {d next : P.Files} {c : Conversion} {outcome : Outcome}

end Ends

end Command

namespace Directory

end Directory

namespace Command

end Command

end CstGrammar
