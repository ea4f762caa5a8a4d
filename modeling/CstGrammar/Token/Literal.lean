namespace CstGrammar.Literal

/-- A unit of the text behind an opening quote: a backslash with the character that follows it, or
any other character. -/
inductive Piece
  | plain (c : Char)
  | escape (c : Char)
  deriving DecidableEq, Repr

inductive Ending
  | closed
  | cut
  | dangling
  deriving DecidableEq, Repr

structure Body where
  pieces : List Piece
  ending : Ending
  deriving DecidableEq, Repr

namespace Piece

def text : Piece → List Char
  | plain c => [c]
  | escape c => ['\\', c]

def char : Piece → Char
  | plain c | escape c => c

def isValid : Piece → Bool
  | plain _ => true
  | escape c => c = '\'' || c = '\\'

def ofChar (c : Char) : Piece := if c = '\'' ∨ c = '\\' then escape c else plain c

end Piece

namespace Ending

def text : Ending → List Char
  | closed => ['\'']
  | cut => []
  | dangling => ['\\']

end Ending

namespace Body

/-- Reads on from an opening quote, and hands back what follows the literal. -/
def read : List Char → Body × List Char
  | [] => (⟨[], .cut⟩, [])
  | '\'' :: rest => (⟨[], .closed⟩, rest)
  | ['\\'] => (⟨[], .dangling⟩, [])
  | '\\' :: c :: rest =>
    let r := read rest
    (⟨.escape c :: r.1.pieces, r.1.ending⟩, r.2)
  | c :: rest =>
    let r := read rest
    (⟨.plain c :: r.1.pieces, r.1.ending⟩, r.2)

def text (b : Body) : List Char := b.pieces.flatMap Piece.text ++ b.ending.text

theorem text_read_append (cs : List Char) : (read cs).1.text ++ (read cs).2 = cs := by
  fun_induction read cs <;> simp_all +zetaDelta [text, Piece.text, Ending.text]

theorem length_read_le (cs : List Char) : (read cs).2.length ≤ cs.length := by
  have h := congrArg List.length (text_read_append cs)
  rw [List.length_append] at h
  omega

def validRun (b : Body) : List Piece := b.pieces.takeWhile Piece.isValid

def hasInvalid (b : Body) : Bool := b.pieces.any (!·.isValid)

def value (b : Body) : String := String.ofList (b.pieces.map Piece.char)

end Body

def quote (value : String) : List Char :=
  '\'' :: value.toList.flatMap (fun c ↦ (Piece.ofChar c).text) ++ ['\'']

end CstGrammar.Literal
