import CstGrammar.Event
import CstGrammar.Rule.Basic

namespace CstGrammar.Parser

def startsDefinition : List Token → Bool
  | name :: equals :: _ => name.kind = .node && equals.kind = .equals
  | _ => false

def distance : List Token → Nat
  | [] => 0
  | t :: ts => if startsDefinition (t :: ts) then 0 else distance ts + 1

def resume (ts : List Token) : List Token := ts.drop (distance ts)

theorem length_resume_le (ts : List Token) : (resume ts).length ≤ ts.length := by
  rw [resume, List.length_drop]
  exact Nat.sub_le _ _

variable (finish : Location)

def look (ts : List Token) : Token := ts.headD (.eof finish)

/-- What the log tells while `n` tokens are taken. Two tokens are always in view, so the first token
taken brings the third one into view. -/
def pulls : Nat → List Token → List Event
  | 0, _ => []
  | n + 1, ts => .pulled (look finish (ts.drop 2)) :: pulls n ts.tail

def recovery (ts : List Token) : List Event :=
  pulls finish (distance ts) ts ++
    [.synchronized (distance ts) (look finish (resume ts)).location]

def errorAt (problem : String → Problem) (ts : List Token) : ParseError :=
  ⟨(look finish ts).location, problem (look finish ts).value⟩

def failure (problem : String → Problem) (ts : List Token) : List Event :=
  .reported (errorAt finish problem ts) :: recovery finish ts

/-- What comes of parsing where fewer than `bound` tokens are left afterwards. -/
structure Reply (α : Type) (bound : Nat) where
  value : α
  rest : List Token
  errors : ErrorList
  log : List Event
  rest_lt : rest.length < bound

abbrev Attempt := Reply (Option Rule)

def sequence (first : Rule) (more : List Rule) : Rule :=
  if more.isEmpty then first else .seq (first :: more)

def alternation (first : Rule) (more : List (Option Rule)) : Rule :=
  if more.isEmpty then first else .alt (some first :: more)

/-- The closing parenthesis of a group whose body is `rule`. If the body has a reported error, what
follows is the next definition, and no parenthesis is looked for. -/
def close {bound : Nat} (body : Attempt bound) (rule : Rule) : Attempt bound :=
  if body.errors ≠ [] then { body with log := body.log ++ [.groupFailed] }
  else if (look finish body.rest).kind = .rparen then
    { value := some rule
      rest := body.rest.tail
      errors := body.errors
      log := body.log ++ pulls finish 1 body.rest
      rest_lt := by have := body.rest_lt; rw [List.length_tail]; omega }
  else
    { value := some rule
      rest := resume body.rest
      errors := body.errors ++ [errorAt finish .expectedClosing body.rest]
      log := body.log ++ failure finish .expectedClosing body.rest
      rest_lt := Nat.lt_of_le_of_lt (length_resume_le _) body.rest_lt }

def suffix {bound : Nat} (r : Attempt bound) : Attempt bound :=
  let suffixed (rule : Rule) : Attempt bound :=
    { value := some rule
      rest := r.rest.tail
      errors := r.errors
      log := r.log ++ pulls finish 1 r.rest
      rest_lt := by have := r.rest_lt; rw [List.length_tail]; omega }
  match r.value, (look finish r.rest).kind with
  | some rule, .question => suffixed (.opt rule)
  | some rule, .star => suffixed (.rep rule)
  | _, _ => r

mutual

/-- `alt := seq ('|' seq)*`. An alternative that fails leaves a placeholder, unless it is the first.
-/
def alt (ts : List Token) : Attempt (ts.length + 1) :=
  match seq ts with
  | ⟨none, rest, errors, log, h⟩ => ⟨none, rest, errors, log, h⟩
  | ⟨some first, rest, errors, log, _⟩ =>
    let more := alternatives rest
    { value := some (alternation first more.value)
      rest := more.rest
      errors := errors ++ more.errors
      log := log ++ more.log
      rest_lt := by have := more.rest_lt; omega }
termination_by 8 * ts.length + 5

def alternatives (ts : List Token) : Reply (List (Option Rule)) (ts.length + 1) :=
  match ts with
  | [] => ⟨[], [], [], [], Nat.one_pos⟩
  | t :: ts =>
    if t.kind = .pipe then
      match seq ts with
      | ⟨head, rest, errors, log, _⟩ =>
        let more := alternatives rest
        { value := head :: more.value
          rest := more.rest
          errors := errors ++ more.errors
          log := pulls finish 1 (t :: ts) ++ log ++ more.log
          rest_lt := by have := more.rest_lt; rw [List.length_cons]; omega }
    else ⟨[], t :: ts, [], [], Nat.lt_succ_self _⟩
termination_by 8 * ts.length + 3

/-- `seq := single+`. An element that fails ends the sequence, which is lost only if that is the
first element. -/
def seq (ts : List Token) : Attempt (ts.length + 1) :=
  match single ts with
  | none =>
    { value := none
      rest := resume ts
      errors := [errorAt finish .expectedRule ts]
      log := failure finish .expectedRule ts
      rest_lt := Nat.lt_succ_of_le (length_resume_le ts) }
  | some ⟨none, rest, errors, log, h⟩ => ⟨none, rest, errors, log, Nat.lt_succ_of_lt h⟩
  | some ⟨some first, rest, errors, log, _⟩ =>
    let more := elements rest
    { value := some (sequence first more.value)
      rest := more.rest
      errors := errors ++ more.errors
      log := log ++ more.log
      rest_lt := by have := more.rest_lt; omega }
termination_by 8 * ts.length + 4

def elements (ts : List Token) : Reply (List Rule) (ts.length + 1) :=
  match single ts with
  | none => ⟨[], ts, [], [], Nat.lt_succ_self _⟩
  | some ⟨none, rest, errors, log, h⟩ => ⟨[], rest, errors, log, Nat.lt_succ_of_lt h⟩
  | some ⟨some rule, rest, errors, log, _⟩ =>
    let more := elements rest
    { value := rule :: more.value
      rest := more.rest
      errors := errors ++ more.errors
      log := log ++ more.log
      rest_lt := by have := more.rest_lt; omega }
termination_by 8 * ts.length + 3

/-- `single := atom ('?' | '*')?`. There is no reply if the next token cannot start a rule. -/
def single (ts : List Token) : Option (Attempt ts.length) :=
  (atom ts).map (suffix finish)
termination_by 8 * ts.length + 2

/-- `atom := NODE | TOKEN | NODE ':' single | '(' alt ')'`, where a name with an equals sign behind
it is left alone, as it starts the next definition. -/
def atom (ts : List Token) : Option (Attempt ts.length) :=
  match ts with
  | [] => none
  | t :: ts =>
    let leaf (rule : Rule) : Attempt (ts.length + 1) :=
      ⟨some rule, ts, [], pulls finish 1 (t :: ts), Nat.lt_succ_self _⟩
    match t.kind with
    | .node =>
      match (look finish ts).kind with
      | .equals => none
      | .colon => some (labeled t ts)
      | _ => some (leaf (.node t.value t.location))
    | .literal => some (leaf (.literal t.value t.location))
    | .lparen => some (group t ts)
    | .error =>
      some
        { value := none
          rest := resume ts
          errors := [errorAt finish .stated (t :: ts)]
          log := failure finish .stated (t :: ts)
          rest_lt := Nat.lt_succ_of_le (length_resume_le ts) }
    | _ => none
termination_by 8 * ts.length + 1

def labeled (label : Token) (ts : List Token) : Attempt (ts.length + 1) :=
  let taken := pulls finish 2 (label :: ts)
  match single ts.tail with
  | none =>
    { value := some (.labeled label.value none label.location)
      rest := resume ts.tail
      errors := [errorAt finish .expectedRuleAfterLabel ts.tail]
      log := taken ++ failure finish .expectedRuleAfterLabel ts.tail
      rest_lt := by have := length_resume_le ts.tail; rw [List.length_tail] at this; omega }
  | some ⟨rule, rest, errors, log, h⟩ =>
    { value := some (.labeled label.value rule label.location)
      rest := rest
      errors := errors
      log := taken ++ log
      rest_lt := by rw [List.length_tail] at h; omega }
termination_by 8 * ts.length + 6

def group (opening : Token) (ts : List Token) : Attempt (ts.length + 1) :=
  let inner := alt ts
  let body := { inner with log := pulls finish 1 (opening :: ts) ++ inner.log }
  match body.value with
  | none => body
  | some rule => close finish body rule
termination_by 8 * ts.length + 6

end

end CstGrammar.Parser
