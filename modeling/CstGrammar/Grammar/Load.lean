import CstGrammar.Parser.Grammar

namespace CstGrammar

inductive FileError
  | notFound
  | isDirectory
  | notDirectory
  | nameTooLong
  | invalidText
  | other (message : String)
  deriving DecidableEq, Repr

def FileError.message : FileError → String
  | notFound => "No such file or directory (os error 2)"
  | isDirectory => "Is a directory (os error 21)"
  | notDirectory => "Not a directory (os error 20)"
  | nameTooLong => "File name too long (os error 36)"
  | invalidText => "stream did not contain valid UTF-8"
  | other message => message

def decodeText (bytes : ByteArray) : Except FileError String :=
  match String.fromUTF8? bytes with
  | some text => .ok text
  | none => .error .invalidText

inductive LoadError
  | unreadable (cause : FileError)
  | malformed (errors : ErrorList)
  deriving DecidableEq, Repr

def LoadError.message : LoadError → String
  | unreadable _ => "io error"
  | malformed errors => errors.summary

def Grammar.load (content : Except FileError ByteArray) : Except LoadError Grammar :=
  match content.bind decodeText with
  | .error e => .error (.unreadable e)
  | .ok source => (Parse.ofSource source).accepted.mapError .malformed

end CstGrammar
