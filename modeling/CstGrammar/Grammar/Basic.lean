import Std.Data.ExtTreeMap
import CstGrammar.Rule.Basic
import CstGrammar.Rule.Shape
import CstGrammar.Text.Basic

namespace CstGrammar

/-- Rules by name, and where each name was given. The two maps have the same names as long as
nothing is taken out of one of them alone. -/
structure Grammar where
  rules : Std.ExtTreeMap String Rule := ∅
  nameLocations : Std.ExtTreeMap String Location := ∅
  deriving DecidableEq

namespace Grammar

instance : Inhabited Grammar := ⟨{}⟩

def insert (g : Grammar) (name : String) (loc : Location) (rule : Rule) : Grammar :=
  { rules := g.rules.insert name rule, nameLocations := g.nameLocations.insert name loc }

def get? (g : Grammar) (name : String) : Option Rule := g.rules[name]?

def locationOf? (g : Grammar) (name : String) : Option Location := g.nameLocations[name]?

def contains (g : Grammar) (name : String) : Bool := g.rules.contains name

def eraseRule (g : Grammar) (name : String) : Grammar := { g with rules := g.rules.erase name }

def eraseLocation (g : Grammar) (name : String) : Grammar :=
  { g with nameLocations := g.nameLocations.erase name }

def size (g : Grammar) : Nat := g.rules.size

def isEmpty (g : Grammar) : Bool := g.rules.isEmpty

def toList (g : Grammar) : List (String × Rule) := g.rules.toList

def names (g : Grammar) : List String := g.rules.keys

def isComplete (g : Grammar) : Bool := g.toList.all (·.2.isComplete)

/-- A line for each rule, with its name and canonical form, in the order of the lines. A line feed
in a name or in a literal makes two lines of one. -/
def lines (g : Grammar) : List String :=
  (g.toList.flatMap (fun (name, rule) ↦
    (Text.pieces '\n' (name.toList ++ ':' :: ' ' :: rule.canonical)).map String.ofList)).mergeSort
      (fun a b ↦ decide (a ≤ b))

end Grammar

end CstGrammar
