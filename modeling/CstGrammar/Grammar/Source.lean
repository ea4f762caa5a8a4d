import CstGrammar.Grammar.Basic
import CstGrammar.Token.Literal

namespace CstGrammar

/-- How tightly the parts of a rule hold together, from loose to tight. -/
inductive Precedence
  | alternation
  | sequence
  | element
  | operand
  deriving DecidableEq, Repr

namespace Precedence

def rank : Precedence → Nat
  | alternation => 0
  | sequence => 1
  | element => 2
  | operand => 3

def enclose (own needed : Precedence) (text : List Char) : List Char :=
  if own.rank < needed.rank then '(' :: text ++ [')'] else text

end Precedence

namespace Rule

open Precedence

/-- The rule as a source text that stands where `needed` is the loosest precedence allowed.
Parentheses appear only where the text would otherwise be read as another tree, and a placeholder is
left out. -/
def sourceAt : Rule → (needed : Precedence) → List Char := fold
  { node name _ := fun _ ↦ name.toList
    literal value _ := fun _ ↦ Literal.quote value
    labeled label rule _ := fun needed ↦
      enclose element needed (label.toList ++ ':' :: rule.elim [] (· element))
    seq rules := fun needed ↦
      enclose sequence needed (List.intercalate [' '] (rules.map (· element)))
    alt rules := fun needed ↦
      enclose alternation needed
        (List.intercalate [' ', '|', ' '] (rules.map (·.elim [] (· sequence))))
    opt rule := fun needed ↦ enclose element needed (rule operand ++ ['?'])
    rep rule := fun needed ↦ enclose element needed (rule operand ++ ['*']) }

def source (rule : Rule) : String := String.ofList (rule.sourceAt alternation)

end Rule

namespace Grammar

def definitionLine (name : String) (rule : Rule) : List Char :=
  name.toList ++ [' ', '=', ' '] ++ rule.sourceAt .alternation ++ ['\n']

def sourceChars (g : Grammar) : List Char :=
  g.toList.flatMap (fun (name, rule) ↦ definitionLine name rule)

def source (g : Grammar) : String := String.ofList g.sourceChars

end Grammar

end CstGrammar
