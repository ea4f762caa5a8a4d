namespace CstGrammar

/-- A position in a source text. Lines count from 1; the columns of a line count its characters from
1, and column 0 stands before the first of them. -/
structure Location where
  line : Nat
  column : Nat
  deriving DecidableEq, Repr, Inhabited

namespace Location

def start : Location := ⟨1, 0⟩

def next (loc : Location) : Location := ⟨loc.line, loc.column + 1⟩

/-- Where reading stands once `c` is read: on `c` itself, or in front of the new line that `c`
opens. -/
def step (loc : Location) (c : Char) : Location :=
  if c = '\n' then ⟨loc.line + 1, 0⟩ else loc.next

def after (loc : Location) (text : List Char) : Location := text.foldl step loc

instance : LT Location :=
  ⟨fun a b ↦ a.line < b.line ∨ a.line = b.line ∧ a.column < b.column⟩

instance (a b : Location) : Decidable (a < b) :=
  inferInstanceAs (Decidable (a.line < b.line ∨ a.line = b.line ∧ a.column < b.column))

instance : LE Location := ⟨fun a b ↦ ¬ b < a⟩

instance (a b : Location) : Decidable (a ≤ b) := inferInstanceAs (Decidable (¬ b < a))

/-- By line, then by column. -/
instance : Ord Location := ⟨fun a b ↦ compareOfLessAndEq a b⟩

instance : Max Location := maxOfLe

def text (loc : Location) : String := toString loc.line ++ ":" ++ toString loc.column

@[simp] theorem after_nil (loc : Location) : loc.after [] = loc := rfl

@[simp] theorem after_cons (loc : Location) (c : Char) (cs : List Char) :
    loc.after (c :: cs) = (loc.step c).after cs := rfl

theorem after_append (loc : Location) (cs ds : List Char) :
    loc.after (cs ++ ds) = (loc.after cs).after ds := List.foldl_append

end Location

namespace Token

inductive Kind
  | error | eof | node | literal | equals | star | pipe | question | colon | lparen | rparen
  deriving DecidableEq, Repr

def Kind.label : Kind → String
  | error => "ERROR"
  | eof => "EOF"
  | node => "NODE"
  | literal => "TOKEN"
  | equals => "EQ"
  | star => "STAR"
  | pipe => "PIPE"
  | question => "QMARK"
  | colon => "COLON"
  | lparen => "LPAREN"
  | rparen => "RPAREN"

def Kind.ofPunctuation? : Char → Option Kind
  | '=' => some equals
  | '*' => some star
  | '?' => some question
  | '(' => some lparen
  | ')' => some rparen
  | '|' => some pipe
  | ':' => some colon
  | _ => none

end Token

/-- An element of a source text. The value of a node is its name, that of a literal the text that
its quotes enclose, and that of an error the message. -/
structure Token where
  kind : Token.Kind
  value : String
  location : Location
  deriving DecidableEq, Repr

namespace Token

def eof (loc : Location) : Token := ⟨.eof, "<end of input>", loc⟩

def isEof (t : Token) : Bool := t.kind = .eof

def text (t : Token) : String :=
  "token\x7b" ++ t.kind.label ++ ", '" ++ t.value ++ "', " ++ t.location.text ++ "\x7d"

end Token

end CstGrammar
