import CstGrammar.Text.Visible
import CstGrammar.Token.Basic
import CstGrammar.Token.Literal

namespace CstGrammar

namespace Trivia

def isBlank (c : Char) : Bool := c = ' ' || c = '\t' || c = '\r' || c = '\n'

/-- Splits a text behind its longest run of blanks and comments. A comment starts with two slashes
and goes on to the end of the line; `inComment` tells whether the text starts inside one. -/
def split (inComment : Bool) : List Char → List Char × List Char
  | [] => ([], [])
  | c :: rest =>
    if inComment then
      let r := split (c != '\n') rest
      (c :: r.1, r.2)
    else if isBlank c then
      let r := split false rest
      (c :: r.1, r.2)
    else if c = '/' ∧ rest.head? = some '/' then
      let r := split true rest
      (c :: r.1, r.2)
    else ([], c :: rest)

theorem split_append (b : Bool) (cs : List Char) : (split b cs).1 ++ (split b cs).2 = cs := by
  fun_induction split b cs <;> simp_all +zetaDelta

theorem length_split_le (b : Bool) (cs : List Char) : (split b cs).2.length ≤ cs.length := by
  have h := congrArg List.length (split_append b cs)
  rw [List.length_append] at h
  omega

end Trivia

inductive LexicalError
  | unknownCharacter (c : Char)
  | unterminatedLiteral
  | invalidEscape
  deriving DecidableEq, Repr

def LexicalError.message : LexicalError → String
  | unknownCharacter c => "unknown token starting with " ++ Text.mention c
  | unterminatedLiteral => "unterminated token literal"
  | invalidEscape => "invalid escape in token literal"

def isNameChar (c : Char) : Bool := c.isAlpha || c = '_'

/-- A token together with the characters of the source that it takes up, and without a position of
its own: that follows from what comes before it. -/
structure Lexeme where
  kind : Token.Kind
  value : String
  /-- The blanks and comments in front of it. -/
  gap : List Char
  /-- Its own characters. -/
  text : List Char
  /-- Those of its own characters that come before the one at which it is located. -/
  lead : List Char := []
  deriving DecidableEq, Repr

namespace Lexeme

def ofName (gap name : List Char) : Lexeme := ⟨.node, String.ofList name, gap, name, []⟩

def ofPunctuation (gap : List Char) (kind : Token.Kind) (c : Char) : Lexeme :=
  ⟨kind, String.singleton c, gap, [c], []⟩

def ofError (gap text lead : List Char) (e : LexicalError) : Lexeme :=
  ⟨.error, e.message, gap, text, lead⟩

/-- An invalid escape is the first fault to be named, at its backslash; a missing closing quote is
named at the opening one. -/
def ofLiteral (gap : List Char) (body : Literal.Body) : Lexeme :=
  let text := '\'' :: body.text
  if body.hasInvalid then
    ofError gap text ('\'' :: body.validRun.flatMap Literal.Piece.text) .invalidEscape
  else if body.ending = .closed then ⟨.literal, body.value, gap, text, []⟩
  else ofError gap text [] .unterminatedLiteral

def readAt (gap : List Char) (c : Char) (rest : List Char) : Lexeme × List Char :=
  if isNameChar c then
    (ofName gap (c :: rest.takeWhile isNameChar), rest.dropWhile isNameChar)
  else if c = '\'' then
    let r := Literal.Body.read rest
    (ofLiteral gap r.1, r.2)
  else match Token.Kind.ofPunctuation? c with
    | some kind => (ofPunctuation gap kind c, rest)
    | none => (ofError gap [c] [] (.unknownCharacter c), rest)

/-- The first lexeme of a text, and what follows it; none if the text has only blanks and comments.
-/
def first? (source : List Char) : Option (Lexeme × List Char) :=
  match Trivia.split false source with
  | (_, []) => none
  | (gap, c :: rest) => some (readAt gap c rest)

def whole (x : Lexeme) : List Char := x.gap ++ x.text

def token (x : Lexeme) (before : Location) : Token :=
  ⟨x.kind, x.value, (before.after (x.gap ++ x.lead)).next⟩

theorem length_readAt_le (gap : List Char) (c : Char) (rest : List Char) :
    (readAt gap c rest).2.length ≤ rest.length := by
  unfold readAt
  split
  · exact (List.dropWhile_suffix _).length_le
  · split
    · exact Literal.Body.length_read_le rest
    · split <;> exact Nat.le_refl _

theorem length_lt_of_first? {source rest : List Char} {x : Lexeme}
    (h : first? source = some (x, rest)) : rest.length < source.length := by
  unfold first? at h
  split at h
  · cases h
  · next gap c cs hs =>
    have hl := Trivia.length_split_le false source
    have hr := length_readAt_le gap c cs
    rw [hs] at hl
    rw [Option.some.inj h] at hr
    simp only [List.length_cons] at hl
    exact Nat.lt_of_le_of_lt hr hl

end Lexeme

end CstGrammar
