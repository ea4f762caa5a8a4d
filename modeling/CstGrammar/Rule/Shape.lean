import CstGrammar.Rule.Basic

namespace CstGrammar.Rule

inductive ShapeError
  /-- A sequence of no rules. -/
  | emptySequence
  /-- An attempt to build an alternation that does not start with a rule. -/
  | unledAlternation
  /-- An alternation that does not start with a rule, and so has no position. -/
  | unlocatedAlternation
  deriving DecidableEq, Repr

def ShapeError.message : ShapeError → String
  | emptySequence => "empty sequence"
  | unledAlternation => "alternation must start with a rule"
  | unlocatedAlternation => "alternation doesn't start with a rule"

def seq? : List Rule → Except ShapeError Rule
  | [] => .error .emptySequence
  | rule :: rules => .ok (.seq (rule :: rules))

def alt? : List (Option Rule) → Except ShapeError Rule
  | some rule :: rules => .ok (.alt (some rule :: rules))
  | _ => .error .unledAlternation

def isComplete : Rule → Bool := fold
  { node _ _ := true
    literal _ _ := true
    labeled _ rule _ := rule.getD false
    seq rules := rules.all id
    alt rules := rules.all (·.getD false)
    opt := id
    rep := id }

def location : Rule → Except ShapeError Location := fold
  { node _ loc := .ok loc
    literal _ loc := .ok loc
    labeled _ _ loc := .ok loc
    seq rules := rules.headD (.error .emptySequence)
    alt rules := (rules.head?.bind id).getD (.error .unlocatedAlternation)
    opt := id
    rep := id }

@[simp] theorem isComplete_node (name : String) (loc : Location) :
    (node name loc).isComplete = true := rfl

@[simp] theorem isComplete_literal (value : String) (loc : Location) :
    (literal value loc).isComplete = true := rfl

@[simp] theorem isComplete_labeled (label : String) (rule : Option Rule) (loc : Location) :
    (labeled label rule loc).isComplete = rule.any isComplete := by
  cases rule <;> simp [isComplete]

@[simp] theorem isComplete_seq (rules : List Rule) :
    (seq rules).isComplete = rules.all isComplete := by
  simp [isComplete]

@[simp] theorem isComplete_alt (rules : List (Option Rule)) :
    (alt rules).isComplete = rules.all (·.any isComplete) := by
  simp only [isComplete, fold_alt, List.all_map]
  congr 1
  funext rule
  cases rule <;> rfl

@[simp] theorem isComplete_opt (rule : Rule) : (opt rule).isComplete = rule.isComplete := rfl

@[simp] theorem isComplete_rep (rule : Rule) : (rep rule).isComplete = rule.isComplete := rfl

end CstGrammar.Rule
