import CstGrammar.Grammar.Basic

namespace CstGrammar

/-- The JSON values that have no numbers and no truth values in them. The members of an object keep
their order. -/
inductive Json
  | null
  | string (value : String)
  | array (items : List Json)
  | object (members : List (String × Json))
  deriving Repr, Inhabited

namespace Json

def escaped (c : Char) : List Char :=
  match c with
  | '"' => ['\\', '"']
  | '\\' => ['\\', '\\']
  | '\x08' => ['\\', 'b']
  | '\x0c' => ['\\', 'f']
  | '\n' => ['\\', 'n']
  | '\r' => ['\\', 'r']
  | '\t' => ['\\', 't']
  | c =>
    if c.toNat < 32 then
      ['\\', 'u', '0', '0', Nat.digitChar (c.toNat / 16), Nat.digitChar (c.toNat % 16)]
    else [c]

def quoted (value : String) : List Char := '"' :: value.toList.flatMap escaped ++ ['"']

structure Layout where
  /-- What stands in front of an item at some depth, and in front of the end of what encloses it. -/
  lineBreak : (depth : Nat) → List Char
  /-- What stands behind the colon of a member. -/
  afterColon : List Char

def compact : Layout := ⟨fun _ ↦ [], []⟩

def pretty : Layout := ⟨fun depth ↦ '\n' :: List.replicate (2 * depth) ' ', [' ']⟩

def Layout.block (l : Layout) (depth : Nat) (opening closing : Char) (items : List (List Char)) :
    List Char :=
  if items.isEmpty then [opening, closing]
  else
    opening :: l.lineBreak (depth + 1) ++ List.intercalate (',' :: l.lineBreak (depth + 1)) items ++
      l.lineBreak depth ++ [closing]

mutual

def print (l : Layout) (depth : Nat) : Json → List Char
  | null => ['n', 'u', 'l', 'l']
  | string value => quoted value
  | array items => l.block depth '[' ']' (printItems l (depth + 1) items)
  | object members => l.block depth '\x7b' '\x7d' (printMembers l (depth + 1) members)

def printItems (l : Layout) (depth : Nat) : List Json → List (List Char)
  | [] => []
  | item :: items => print l depth item :: printItems l depth items

def printMembers (l : Layout) (depth : Nat) : List (String × Json) → List (List Char)
  | [] => []
  | (key, value) :: members =>
    (quoted key ++ ':' :: l.afterColon ++ print l depth value) :: printMembers l depth members

end

def text (l : Layout) (value : Json) : String := String.ofList (value.print l 0)

end Json

open Json in
/-- A rule as JSON: an object that names the operator, or the label and what it labels. A
placeholder is null, and the positions are left out. -/
def Rule.toJson : Rule → Json := fold
  { node name _ := object [("node", string name)]
    literal value _ := object [("token", string value)]
    labeled label rule _ := object [("label", string label), ("rule", rule.getD null)]
    seq rules := object [("seq", array rules)]
    alt rules := object [("alt", array (rules.map (·.getD null)))]
    opt rule := object [("opt", rule)]
    rep rule := object [("rep", rule)] }

def Grammar.toJson (g : Grammar) : Json :=
  .object (g.toList.map (fun (name, rule) ↦ (name, rule.toJson)))

end CstGrammar
