import CstGrammar.Token.Lexeme

namespace CstGrammar

def lexemes (source : List Char) : List Lexeme :=
  match h : Lexeme.first? source with
  | none => []
  | some (x, rest) =>
    have := Lexeme.length_lt_of_first? h
    x :: lexemes rest
termination_by source.length

structure TokenStream where
  tokens : List Token
  finish : Location
  deriving DecidableEq, Repr

namespace TokenStream

def locate (before : Location) : List Lexeme → List Token
  | [] => []
  | x :: xs => x.token before :: locate (before.after x.whole) xs

def ofChars (source : List Char) : TokenStream :=
  ⟨locate .start (lexemes source), Location.start.after source⟩

def ofSource (source : String) : TokenStream := ofChars source.toList

def toList (s : TokenStream) : List Token := s.tokens ++ [.eof s.finish]

end TokenStream

/-- A source text that is read token by token. -/
structure Lexer where
  /-- The position that reading has come to. -/
  before : Location
  /-- The text not read yet. -/
  rest : List Char
  /-- Whether iteration has met the end of the text. -/
  exhausted : Bool := false
  deriving DecidableEq, Repr

namespace Lexer

def ofSource (source : String) : Lexer := { before := .start, rest := source.toList }

/-- Takes the next token. At the end of the text this is the end marker, however often it is asked.
-/
def pull (l : Lexer) : Token × Lexer :=
  match Lexeme.first? l.rest with
  | none =>
    let finish := l.before.after l.rest
    (.eof finish, { l with before := finish, rest := [] })
  | some (x, rest) => (x.token l.before, { l with before := l.before.after x.whole, rest })

def next? (l : Lexer) : Option Token × Lexer :=
  if l.exhausted then (none, l)
  else
    let r := l.pull
    if r.1.isEof then (none, { r.2 with exhausted := true }) else (some r.1, r.2)

theorem length_rest_pull_lt {l : Lexer} (h : ¬ l.pull.1.isEof) :
    l.pull.2.rest.length < l.rest.length := by
  unfold pull at h ⊢
  split at h
  · exact absurd rfl h
  · next x rest hf => simpa [hf] using Lexeme.length_lt_of_first? hf

def drain (l : Lexer) : List Token × Lexer :=
  if l.exhausted then ([], l)
  else
    let r := l.pull
    if h : r.1.isEof then ([], { r.2 with exhausted := true })
    else
      have := length_rest_pull_lt h
      let rs := drain r.2
      (r.1 :: rs.1, rs.2)
termination_by l.rest.length

end Lexer

end CstGrammar
