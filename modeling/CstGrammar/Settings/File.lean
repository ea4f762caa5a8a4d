import CstGrammar.Text.Basic

namespace CstGrammar.Settings

abbrev Bindings := List (String × String)

namespace Bindings

/-- The value of a name: what follows the name and an equals sign in the first binding whose text
starts with them. So a name with an equals sign reaches into a value. -/
def value? (known : Bindings) (name : String) : Option String :=
  let start := (name ++ "=").toList
  known.findSome? fun (n, v) ↦
    let text := (n ++ "=" ++ v).toList
    if start.isPrefixOf text then some (String.ofList (text.drop start.length)) else none

def add? (known : Bindings) (name value : String) : Option Bindings :=
  if (known.value? name).isSome then some known
  else if '\x00' ∈ value.toList then none
  else some (known ++ [(name, value)])

end Bindings

inductive Part
  | char (c : Char)
  | reference (name : String)
  deriving DecidableEq, Repr

namespace Part

def text (known : Bindings) : Part → String
  | char c => c.toString
  | reference name => (known.value? name).getD ""

def name? : Part → Option String
  | char _ => none
  | reference name => some name

end Part

inductive Mode
  | plain (quoted : Bool)
  | escape (quoted : Bool)
  | name (quoted : Bool) (read : List Char)
  | bracedName (quoted : Bool) (read : List Char)
  | singleQuotes
  | ended
  deriving DecidableEq, Repr

def unescape? (c : Char) : Option Char :=
  if c = 'n' then some '\n' else if c ∈ ['\\', '\'', '"', '$', ' '] then some c else none

/-- The parts of a value, from a mode on. A name without braces takes away the special meaning of
the character behind it, except for another dollar sign. -/
def partsFrom? : Mode → List Char → Option (List Part)
  | .plain quoted, [] | .escape quoted, [] => if quoted then none else some []
  | .name quoted read, [] => if quoted then none else some [.reference (String.ofList read)]
  | .bracedName .., [] | .singleQuotes, [] => none
  | .ended, [] => some []
  | .plain quoted, c :: cs =>
    if c = '$' then partsFrom? (.name quoted []) cs
    else if c = '\\' then partsFrom? (.escape quoted) cs
    else if c = '"' then partsFrom? (.plain !quoted) cs
    else if c = '\'' ∧ ¬quoted then partsFrom? .singleQuotes cs
    else if (c = ' ' ∨ c = '\t') ∧ ¬quoted then partsFrom? .ended cs
    else (.char c :: ·) <$> partsFrom? (.plain quoted) cs
  | .escape quoted, c :: cs =>
    match unescape? c with
    | some e => (.char e :: ·) <$> partsFrom? (.plain quoted) cs
    | none => none
  | .name quoted read, c :: cs =>
    if Text.isAlphanumeric c then partsFrom? (.name quoted (read ++ [c])) cs
    else if c = '\x7b' ∧ read = [] then partsFrom? (.bracedName quoted []) cs
    else if c = '$' then (.reference (String.ofList read) :: ·) <$> partsFrom? (.name quoted []) cs
    else
      (fun ps ↦ .reference (String.ofList read) :: .char c :: ps) <$> partsFrom? (.plain quoted) cs
  | .bracedName quoted read, c :: cs =>
    if c = '\x7d' then
      (.reference (String.ofList read) :: ·) <$> partsFrom? (.plain quoted) cs
    else partsFrom? (.bracedName quoted (read ++ [c])) cs
  | .singleQuotes, c :: cs =>
    if c = '\'' then partsFrom? (.plain false) cs
    else (.char c :: ·) <$> partsFrom? .singleQuotes cs
  | .ended, c :: cs =>
    if c = '#' then some []
    else if c = ' ' ∨ c = '\t' then partsFrom? .ended cs
    else none

def parts? (cs : List Char) : Option (List Part) := partsFrom? (.plain false) cs

inductive Position
  | start
  | plain
  | spaced
  | escaped
  | quoted (mark : Char)
  | quotedEscaped (mark : Char)
  | comment
  deriving DecidableEq, Repr

namespace Position

def behind (c : Char) : Position :=
  if c = '\\' then escaped else if c = '"' ∨ c = '\'' then quoted c else plain

def next : Position → Char → Position
  | start, c => if c = '#' then comment else if Text.isSpace c then start else behind c
  | plain, c => if Text.isSpace c ∧ c ≠ '\r' then spaced else behind c
  | spaced, c => if c = '#' then comment else behind c
  | escaped, _ => plain
  | quoted mark, c =>
    if c = '\\' then quotedEscaped mark else if c = mark then plain else quoted mark
  | quotedEscaped mark, _ => quoted mark
  | comment, _ => comment

def inQuotes : Position → Bool
  | quoted _ | quotedEscaped _ => true
  | _ => false

def isOpen : Position → Bool
  | spaced | escaped => true
  | p => p.inQuotes

end Position

/-- The lines of a text without their comments, from a position on. A line goes on behind a line
feed in quotes. What is left open at the end of the text is no line. -/
def linesFrom (p : Position) : List Char → List (List Char)
  | [] => if p.isOpen then [] else [[]]
  | c :: cs =>
    if c = '\n' ∧ ¬p.inQuotes then [] :: linesFrom .start cs
    else
      match p.next c with
      | .comment => linesFrom .comment cs
      | q => (linesFrom q cs).modifyHead (c :: ·)

def lines (cs : List Char) : List (List Char) := linesFrom .start cs

structure Assignment where
  name : String
  value : List Part := []
  deriving DecidableEq, Repr

namespace Assignment

def startsName (c : Char) : Bool := c.isAlpha || c = '_'

def continuesName (c : Char) : Bool := c.isAlphanum || c = '_' || c = '.'

def splitName? (cs : List Char) : Option (List Char × List Char) :=
  if cs.head?.any startsName then
    some (cs.takeWhile continuesName, (cs.dropWhile continuesName).dropWhile Text.isSpace)
  else none

def split? (cs : List Char) : Option (List Char × List Char) :=
  match splitName? cs with
  | some (name, '=' :: value) => some (name, value)
  | _ => none

def ofLine? (line : List Char) : Option Assignment := do
  let line := Text.trim Text.isSpace line
  let (name, value) ← split? line <|> match splitName? line with
    | some (word, rest) => if word = "export".toList then split? rest else none
    | none => none
  let value := value.dropWhile Text.isSpace
  if value.head? = some '#' then return { name := String.ofList name }
  return { name := String.ofList name, value := ← parts? value }

def names (a : Assignment) : List String := a.name :: a.value.filterMap Part.name?

def text (a : Assignment) (known : Bindings) : String := String.join (a.value.map (Part.text known))

end Assignment

def leading {α : Type} (xs : List (Option α)) : List α := (xs.takeWhile Option.isSome).filterMap id

/-- The text of a settings file up to the first line that is not valid UTF-8, without a mark of the
byte order. -/
def decode (bytes : ByteArray) : List Char :=
  let lines := bytes.toList.splitBy (fun b _ ↦ b ≠ 10)
  let cs := (leading (lines.map (fun l ↦ String.fromUTF8? ⟨l.toArray⟩))).flatMap String.toList
  if cs.head? = some '\ufeff' then cs.tail else cs

def assignments (bytes : ByteArray) : List Assignment :=
  leading (((lines (decode bytes)).filter (fun l ↦ !l.all Text.isSpace)).map Assignment.ofLine?)

def extend? (known : Bindings) (as : List Assignment) : Option Bindings :=
  as.foldlM (fun known a ↦ known.add? a.name (a.text known)) known

end CstGrammar.Settings
