import CstGrammar.Command.Basic

namespace CstGrammar

namespace Command

def versionText : String := "ungrammar2json 0.1.0\n"

def helpText : String := String.join (List.map (· ++ "\n")
  ["ungrammar2json 0.1.0",
    "Dump an Ungrammar file as JSON",
    "",
    "USAGE:",
    "    ungrammar2json [FLAGS] [OPTIONS] [input]",
    "",
    "FLAGS:",
    "    -h, --help       Prints help information",
    "    -p, --pretty     Pretty-print the JSON",
    "    -V, --version    Prints version information",
    "",
    "OPTIONS:",
    "    -o, --output <output>    File to write the JSON to. Writes to stdout if omitted",
    "",
    "ARGS:",
    "    <input>    Ungrammar file to read. Reads stdin if omitted"])

namespace Outcome

def help : Outcome := { exitCode := 0, output := helpText }

def version : Outcome := { exitCode := 0, output := versionText }

def misused (e : UsageError) : Outcome := { exitCode := 1, usageError := some e }

end Outcome

end Command

open Command

namespace Arguments

structure Seen where
  input : Option String := none
  outputs : List String := []
  outputUses : Nat := 0
  prettyUses : Nat := 0

inductive Step
  | go (seen : Seen) (isOutput : Bool)
  | stop (outcome : Outcome)

namespace Seen

def withOutput (s : Seen) (value : List Char) : Seen :=
  { s with
    outputs := s.outputs ++ [String.ofList (value.dropWhile (· = '='))]
    outputUses := s.outputUses + 1 }

def awaitOutput (s : Seen) : Seen := { s with outputUses := s.outputUses + 1 }

def withPretty (s : Seen) : Seen := { s with prettyUses := s.prettyUses + 1 }

def request (s : Seen) : Except Outcome Conversion :=
  if s.outputUses ≠ 0 ∧ s.outputs = [] then .error (.misused (.missingValue "--output <output>"))
  else if 1 < s.outputUses then .error (.misused (.repeated "--output <output>"))
  else if 1 < s.prettyUses then .error (.misused (.repeated "--pretty"))
  else .ok ⟨s.input, s.outputs.head?, 0 < s.prettyUses⟩

end Seen

def short (seen : Seen) : List Char → Step
  | [] => .go seen false
  | ['o'] => .go seen.awaitOutput true
  | 'o' :: value => .go (seen.withOutput value) false
  | 'p' :: rest => short seen.withPretty rest
  | 'h' :: _ => .stop .help
  | 'V' :: _ => .stop .version
  | c :: _ => .stop (.misused (.unexpected (String.ofList ['-', c])))

def long (seen : Seen) (option : List Char) : Step :=
  let value := option.dropWhile (· ≠ '=')
  match String.ofList (option.takeWhile (· ≠ '=')) with
  | "output" => if value = [] then .go seen.awaitOutput true else .go (seen.withOutput value) false
  | "pretty" => .go seen.withPretty false
  | "help" => .stop .help
  | "version" => .stop .version
  | name => .stop (.misused (.unexpected ("--" ++ name)))

def positional (seen : Seen) (argument : String) : Step :=
  if seen.input.isSome then .stop (.misused (.unexpected argument))
  else .go { seen with input := some argument } false

def step (seen : Seen) (isOutput : Bool) (argument : String) : Step :=
  match argument.toList with
  | '-' :: '-' :: option => long seen (option.dropWhile (· = '-'))
  | '-' :: c :: options => short seen (c :: options)
  | _ =>
    if isOutput then .go { seen with outputs := seen.outputs ++ [argument] } false
    else positional seen argument

/-- Goes through the arguments; once two dashes have come, no more of them are options. -/
def scan (seen : Seen) (literal isOutput : Bool) : List String → Except Outcome Conversion
  | [] => seen.request
  | argument :: more =>
    if argument = "--" ∧ ¬ literal then scan seen true isOutput more
    else
      match if literal then positional seen argument else step seen isOutput argument with
      | .go seen isOutput => scan seen literal isOutput more
      | .stop outcome => .error outcome

def request (arguments : List String) : Except Outcome Conversion := scan {} false false arguments

end Arguments

end CstGrammar
