import CstGrammar.Parser.Grammar
import CstGrammar.Proofs.Parser.Recovery
import CstGrammar.Proofs.Token.Scanner
import CstGrammar.Rule.Shape

namespace CstGrammar.Parser

/-- What comes of looking for a rule: a rule, nothing as none starts here, or a failure that has
been reported. -/
inductive Outcome
  | found (rule : Rule)
  | nothing
  | failed

def Outcome.ofRule? : Option Rule → Outcome
  | some rule => found rule
  | none => failed

/-- A parser at work: the two tokens in view, the lexer for those behind them, the errors found so
far, and the log. -/
structure Reader where
  token : Token
  next : Token
  lexer : Lexer
  errors : ErrorList
  log : List Event

namespace Reader

def ofLexer (l : Lexer) (errors : ErrorList) (log : List Event) : Reader :=
  ⟨l.pull.1, l.pull.2.pull.1, l.pull.2.pull.2, errors, log⟩

def tell (r : Reader) (e : Event) : Reader := { r with log := r.log ++ [e] }

/-- Adds an error to those found so far, and tells of it. -/
def emit (r : Reader) (e : ParseError) : Reader :=
  { r.tell (.reported e) with errors := r.errors ++ [e] }

def report (r : Reader) (problem : String → Problem) : Reader :=
  r.emit ⟨r.token.location, problem r.token.value⟩

def advance (r : Reader) : Reader :=
  if r.token.isEof then r
  else ⟨r.next, r.lexer.pull.1, r.lexer.pull.2, r.errors, r.log ++ [.pulled r.lexer.pull.1]⟩

def startsDefinition (r : Reader) : Bool := r.token.kind = .node && r.next.kind = .equals

def atBoundary (r : Reader) : Bool := r.token.isEof || r.startsDefinition

def skipTurn : Nat × Reader → Option (Turn (Nat × Reader) Reader)
  | (skipped, r) =>
    if r.atBoundary then some (.leave (r.tell (.synchronized skipped r.token.location)))
    else some (.again (skipped + 1, r.advance))

def synchronize (r : Reader) : Option Reader := loop skipTurn (0, r)

def fail (r : Reader) (problem : String → Problem) : Option Reader := (r.report problem).synchronize

def sequence? (first : Rule) (more : List Rule) : Option Rule :=
  if more.isEmpty then some first else (Rule.seq? (first :: more)).toOption

def alternation? (first : Rule) (more : List (Option Rule)) : Option Rule :=
  if more.isEmpty then some first else (Rule.alt? (some first :: more)).toOption

def suffixed (rule : Rule) (r : Reader) : Rule × Reader :=
  match r.token.kind with
  | .question => (.opt rule, r.advance)
  | .star => (.rep rule, r.advance)
  | _ => (rule, r)

def attach (label : Token) : Outcome × Reader → Option (Outcome × Reader)
  | (.found part, r) => some (.found (.labeled label.value part label.location), r)
  | (.failed, r) => some (.found (.labeled label.value none label.location), r)
  | (.nothing, r) => do
    let r ← r.fail .expectedRuleAfterLabel
    some (.found (.labeled label.value none label.location), r)

/-- The end of a group that was opened when there were `before` errors. -/
def closeGroup (before : Nat) : Outcome × Reader → Option (Outcome × Reader)
  | (.found rule, r) =>
    if before < r.errors.length then some (.found rule, r.tell .groupFailed)
    else if r.token.kind = .rparen then some (.found rule, r.advance)
    else do
      let r ← r.fail .expectedClosing
      some (.found rule, r)
  | x => some x

mutual

def alt (r : Reader) : Option (Outcome × Reader) := do
  match ← r |>.seq with
  | (.found first, r) =>
    let (more, r) ← r |>.alternatives
    let rule ← alternation? first more
    some (.found rule, r)
  | x => some x
partial_fixpoint

def alternatives (r : Reader) : Option (List (Option Rule) × Reader) :=
  if r.token.kind = .pipe then do
    let (head, r) ← r |>.alternative
    let (more, r) ← r |>.alternatives
    some (head :: more, r)
  else some ([], r)
partial_fixpoint

def alternative (r : Reader) : Option (Option Rule × Reader) := do
  match ← r.advance |>.seq with
  | (.found rule, r) => some (some rule, r)
  | (_, r) => some (none, r)
partial_fixpoint

def seq (r : Reader) : Option (Outcome × Reader) := do
  match ← r |>.single with
  | (.found first, r) =>
    let (more, r) ← r |>.elements
    let rule ← sequence? first more
    some (.found rule, r)
  | (.nothing, r) =>
    let r ← r.fail .expectedRule
    some (.failed, r)
  | x => some x
partial_fixpoint

def elements (r : Reader) : Option (List Rule × Reader) := do
  match ← r |>.single with
  | (.found rule, r) =>
    let (more, r) ← r |>.elements
    some (rule :: more, r)
  | (_, r) => some ([], r)
partial_fixpoint

def single (r : Reader) : Option (Outcome × Reader) := do
  match ← r |>.atom with
  | (.found rule, r) =>
    let (rule, r) := r.suffixed rule
    some (.found rule, r)
  | x => some x
partial_fixpoint

def atom (r : Reader) : Option (Outcome × Reader) :=
  match r.token.kind with
  | .node =>
    match r.next.kind with
    | .equals => some (.nothing, r)
    | .colon => r |>.labeled
    | _ => some (.found (.node r.token.value r.token.location), r.advance)
  | .literal => some (.found (.literal r.token.value r.token.location), r.advance)
  | .lparen => r |>.group
  | .error => do
    let r ← r.fail .stated
    some (.failed, r)
  | _ => some (.nothing, r)
partial_fixpoint

def labeled (r : Reader) : Option (Outcome × Reader) := do
  let x ← r.advance.advance |>.single
  attach r.token x
partial_fixpoint

def group (r : Reader) : Option (Outcome × Reader) := do
  let x ← r.advance |>.alt
  closeGroup r.errors.length x
partial_fixpoint

end

section Equations

variable {r r' r'' : Reader} {rule : Rule} {head : Option Rule} {rules : List Rule}
  {parts : List (Option Rule)}

/-- The assertions of the constructors hold wherever the parser builds a rule. -/
theorem sequence?_eq (first : Rule) (more : List Rule) :
    sequence? first more = some (sequence first more) := by
  cases more <;> rfl

theorem alternation?_eq (first : Rule) (more : List (Option Rule)) :
    alternation? first more = some (alternation first more) := by
  cases more <;> rfl

theorem alt_of_found (h : r.seq = some (.found rule, r'))
    (h' : r'.alternatives = some (parts, r'')) :
    r.alt = some (.found (alternation rule parts), r'') := by
  simp only [alt, h, Option.bind_eq_bind, Option.bind_some, h', alternation?_eq]

theorem alternatives_of_pipe (hk : r.token.kind = .pipe) (h : r.alternative = some (head, r'))
    (h' : r'.alternatives = some (parts, r'')) : r.alternatives = some (head :: parts, r'') := by
  rw [alternatives, if_pos hk]
  simp only [h, Option.bind_eq_bind, Option.bind_some, h']

theorem alternative_of_seq (h : r.advance.seq = some (.ofRule? head, r')) :
    r.alternative = some (head, r') := by
  rw [alternative, h]
  cases head <;> rfl

theorem seq_of_found (h : r.single = some (.found rule, r'))
    (h' : r'.elements = some (rules, r'')) :
    r.seq = some (.found (sequence rule rules), r'') := by
  simp only [seq, h, Option.bind_eq_bind, Option.bind_some, h', sequence?_eq]

theorem elements_of_found (h : r.single = some (.found rule, r'))
    (h' : r'.elements = some (rules, r'')) : r.elements = some (rule :: rules, r'') := by
  rw [elements]
  simp only [h, Option.bind_eq_bind, Option.bind_some, h']

theorem single_of_found (h : r.atom = some (.found rule, r')) :
    r.single = some (.found (r'.suffixed rule).1, (r'.suffixed rule).2) := by
  rw [single, h]
  rfl

theorem atom_of_label (hn : r.token.kind = .node) (hc : r.next.kind = .colon) :
    r.atom = r.labeled := by
  rw [atom, hn]
  simp only [hc]

theorem atom_of_opening (hk : r.token.kind = .lparen) : r.atom = r.group := by
  rw [atom, hk]

theorem labeled_eq (r : Reader) : r.labeled = r.advance.advance.single.bind (attach r.token) := by
  rw [labeled]
  rfl

theorem group_eq (r : Reader) : r.group = r.advance.alt.bind (closeGroup r.errors.length) := by
  rw [group]
  rfl

end Equations

def definition (r : Reader) : Option (Option (Token × Rule) × Reader) :=
  if r.startsDefinition then do
    match ← r.advance.advance.alt with
    | (.found rule, r') => some (some (r.token, rule), r')
    | (_, r') => some (none, r')
  else do
    let r ← r.synchronize
    some (none, r)

def enter (g : Grammar) : Option (Token × Rule) × Reader → Grammar × Reader
  | (none, r) => (g, r)
  | (some (name, rule), r) =>
    (g.insert name.value name.location rule, if g.contains name.value then
      r.emit ⟨name.location, .duplicateName name.value⟩ else r)

def grammarTurn : Grammar × Reader → Option (Turn (Grammar × Reader) (Grammar × Reader))
  | (g, r) =>
    if r.token.isEof then some (.leave (g, r)) else r.definition.map fun x ↦ .again (enter g x)

def parse (source : String) : Option Parse := do
  let (g, r) ← loop grammarTurn ({}, ofLexer (.ofSource source) [] [])
  some ⟨g, r.errors, r.log ++ [.finished g.size r.errors.length]⟩

end Reader

end CstGrammar.Parser
