import CstGrammar.Token.Basic

namespace CstGrammar

inductive Problem
  /-- Anything that comes with its own words, such as a fault inside a token. -/
  | stated (message : String)
  | expectedRule (found : String)
  | expectedClosing (found : String)
  | expectedRuleAfterLabel (found : String)
  | duplicateName (name : String)
  deriving DecidableEq, Repr

def Problem.message : Problem → String
  | stated message => message
  | expectedRule found => "expected rule, got " ++ found
  | expectedClosing found => "expected ')', got " ++ found
  | expectedRuleAfterLabel found => "expected rule after label, got " ++ found
  | duplicateName name => "duplicate rule name " ++ name

structure ParseError where
  location : Location
  problem : Problem
  deriving DecidableEq, Repr

namespace ParseError

def message (e : ParseError) : String := e.problem.message

def text (e : ParseError) : String := e.location.text ++ ": " ++ e.message

end ParseError

abbrev ErrorList := List ParseError

namespace ErrorList

def summary : ErrorList → String
  | [] => "no errors"
  | [e] => e.text
  | e :: more => e.text ++ " (and " ++ toString more.length ++ " more errors)"

def accept {α : Type} (errors : ErrorList) (value : α) : Except ErrorList α :=
  if errors.isEmpty then .ok value else .error errors

end ErrorList

inductive Severity
  | error | warn | info | debug | trace
  deriving DecidableEq, Repr

namespace Severity

def label : Severity → String
  | error => "ERROR"
  | warn => "WARN"
  | info => "INFO"
  | debug => "DEBUG"
  | trace => "TRACE"

def rank : Severity → Nat
  | error => 1
  | warn => 2
  | info => 3
  | debug => 4
  | trace => 5

def ofName? : String → Option Severity
  | "error" => some error
  | "warn" => some warn
  | "info" => some info
  | "debug" => some debug
  | "trace" => some trace
  | _ => none

end Severity

/-- What a parse does, as far as its log tells. -/
inductive Event
  /-- One more token has come into view. -/
  | pulled (token : Token)
  | reported (error : ParseError)
  /-- Tokens were skipped up to the next definition or to the end. -/
  | synchronized (skipped : Nat) (location : Location)
  /-- The body of a group has a reported error, so its closing parenthesis is not looked for. -/
  | groupFailed
  | finished (rules errors : Nat)
  deriving DecidableEq, Repr

namespace Event

def error? : Event → Option ParseError
  | reported e => some e
  | _ => none

def severity : Event → Severity
  | pulled _ | groupFailed => .trace
  | reported _ | synchronized .. | finished .. => .debug

def message : Event → String
  | pulled _ => "next token"
  | reported _ => "parse error"
  | synchronized .. => "synchronized"
  | groupFailed => "group body failed, not expecting ')'"
  | finished .. => "parsed grammar"

def fields : Event → List (String × String)
  | pulled token => [("token", token.text)]
  | reported e => [("error", e.text)]
  | synchronized skipped loc => [("skipped", toString skipped), ("at", loc.text)]
  | groupFailed => []
  | finished rules errors => [("rules", toString rules), ("errors", toString errors)]

end Event

end CstGrammar
