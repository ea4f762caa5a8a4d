import CstGrammar.Parser.Rule

namespace CstGrammar.Parser

/-- Whether a rule can start at the next token, be it a faulty one. A name with an equals sign
behind it starts the next definition instead. -/
def startsRule : List Token → Bool
  | [] => false
  | t :: ts =>
    match t.kind with
    | .node => !startsDefinition (t :: ts)
    | .literal | .lparen | .error => true
    | _ => false

/-- The places to which recovery leads: the end and the starts of definitions. -/
def Boundary (ts : List Token) : Prop := ts = [] ∨ startsDefinition ts = true

variable {finish : Location}

@[simp] theorem look_nil : look finish [] = .eof finish := rfl

@[simp] theorem look_cons (t : Token) (ts : List Token) : look finish (t :: ts) = t := rfl

theorem exists_cons_of_look {ts : List Token} {kind : Token.Kind} (h : (look finish ts).kind = kind)
    (hk : kind ≠ .eof) : ∃ t us, ts = t :: us ∧ t.kind = kind := by
  cases ts with
  | nil => exact absurd h.symm hk
  | cons t us => exact ⟨t, us, rfl, h⟩

theorem exists_cons_of_startsRule {ts : List Token} (h : startsRule ts = true) :
    ∃ t us, ts = t :: us := by
  cases ts with
  | nil => exact absurd h (by decide)
  | cons t us => exact ⟨t, us, rfl⟩

theorem startsDefinition_cons (t : Token) (ts : List Token) :
    startsDefinition (t :: ts) = true ↔ t.kind = .node ∧ (look finish ts).kind = .equals := by
  cases ts with
  | nil => simp [startsDefinition, Token.eof]
  | cons u us => simp [startsDefinition]

theorem exists_of_startsDefinition {ts : List Token} (h : startsDefinition ts = true) :
    ∃ name equals us, ts = name :: equals :: us ∧ name.kind = .node ∧ equals.kind = .equals := by
  match ts, h with
  | name :: equals :: us, h =>
    simp only [startsDefinition, Bool.and_eq_true, decide_eq_true_eq] at h
    exact ⟨name, equals, us, rfl, h⟩

theorem Boundary.kind_look (finish : Location) {ts : List Token} (h : Boundary ts) :
    (look finish ts).kind = .node ∨ (look finish ts).kind = .eof := by
  rcases h with rfl | h
  · exact .inr rfl
  · obtain ⟨name, equals, us, rfl, hn, he⟩ := exists_of_startsDefinition h
    exact .inl hn

theorem Boundary.kind_look_ne (finish : Location) {ts : List Token} (h : Boundary ts)
    {kind : Token.Kind} (hk : kind ∉ [Token.Kind.node, .eof]) : (look finish ts).kind ≠ kind := by
  rintro rfl
  rcases h.kind_look finish with hl | hl
  · exact hk (hl ▸ List.mem_cons_self)
  · exact hk (hl ▸ List.mem_cons_of_mem _ List.mem_cons_self)

theorem Boundary.startsRule_eq {ts : List Token} (h : Boundary ts) : startsRule ts = false := by
  rcases h with rfl | h
  · rfl
  · obtain ⟨name, equals, us, rfl, hn, he⟩ := exists_of_startsDefinition h
    simp [startsRule, hn, h]

theorem startsDefinition_eq_false {t : Token} (ts : List Token) (h : t.kind ≠ .node) :
    startsDefinition (t :: ts) = false := by
  cases ts <;> simp [startsDefinition, h]

theorem resume_of_starts {ts : List Token} (h : startsDefinition ts = true) : resume ts = ts := by
  obtain ⟨name, equals, us, rfl, -⟩ := exists_of_startsDefinition h
  simp [resume, distance, h]

theorem resume_cons {t : Token} {ts : List Token} (h : startsDefinition (t :: ts) = false) :
    resume (t :: ts) = resume ts := by
  simp [resume, distance, h]

theorem Boundary.resume_eq {ts : List Token} (h : Boundary ts) : resume ts = ts := by
  rcases h with rfl | h
  · rfl
  · exact resume_of_starts h

theorem boundary_resume (ts : List Token) : Boundary (resume ts) := by
  induction ts with
  | nil => exact .inl rfl
  | cons t ts ih =>
    by_cases h : startsDefinition (t :: ts) = true
    · rw [resume_of_starts h]
      exact .inr h
    · rw [resume_cons (by simpa using h)]
      exact ih

theorem resume_suffix (ts : List Token) : resume ts <:+ ts := List.drop_suffix _ _

def errorsOf (log : List Event) : ErrorList := log.filterMap Event.error?

theorem errorsOf_append (log log' : List Event) :
    errorsOf (log ++ log') = errorsOf log ++ errorsOf log' := List.filterMap_append

theorem errorsOf_reported (e : ParseError) (log : List Event) :
    errorsOf (.reported e :: log) = e :: errorsOf log := rfl

@[simp] theorem errorsOf_nil : errorsOf [] = [] := rfl

@[simp] theorem errorsOf_groupFailed : errorsOf [.groupFailed] = [] := rfl

@[simp] theorem errorsOf_pulls (n : Nat) (ts : List Token) : errorsOf (pulls finish n ts) = [] := by
  induction n generalizing ts with
  | zero => rfl
  | succ n ih => exact ih ts.tail

@[simp] theorem errorsOf_recovery (ts : List Token) : errorsOf (recovery finish ts) = [] := by
  rw [recovery, errorsOf_append, errorsOf_pulls]
  rfl

@[simp] theorem errorsOf_failure (problem : String → Problem) (ts : List Token) :
    errorsOf (failure finish problem ts) = [errorAt finish problem ts] := by
  rw [failure, errorsOf_reported, errorsOf_recovery]

end CstGrammar.Parser
