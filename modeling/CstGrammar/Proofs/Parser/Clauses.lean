import Mathlib.Data.List.Infix
import CstGrammar.Proofs.Parser.Entries
import CstGrammar.Proofs.Parser.Reach

namespace CstGrammar.Parser

/-- The tokens up to the next definition, or to the end. -/
def stretch (ts : List Token) : List Token := ts.take (distance ts)

theorem stretch_append_resume (ts : List Token) : stretch ts ++ resume ts = ts :=
  List.take_append_drop _ _

theorem stretch_append {taken after : List Token} (h : resume (taken ++ after) = resume after) :
    stretch (taken ++ after) = taken ++ stretch after := by
  have hl : stretch (taken ++ after) ++ resume (taken ++ after) =
      (taken ++ stretch after) ++ resume after := by
    rw [stretch_append_resume, List.append_assoc, stretch_append_resume]
  rw [h] at hl
  exact List.append_cancel_right hl

theorem Boundary.distance_eq {ts : List Token} (h : Boundary ts) : distance ts = 0 := by
  rcases h with rfl | h
  · rfl
  · obtain ⟨name, equals, us, rfl, -⟩ := exists_of_startsDefinition h
    rw [distance, if_pos h]

theorem Boundary.stretch_eq {ts : List Token} (h : Boundary ts) : stretch ts = [] := by
  rw [stretch, h.distance_eq, List.take_zero]

theorem boundary_of_distance {ts : List Token} (h : distance ts = 0) : Boundary ts := by
  have hr : resume ts = ts := by rw [resume, h, List.drop_zero]
  exact hr ▸ boundary_resume ts

/-- Tokens are skipped at most up to a place where a definition starts. -/
theorem suffix_resume_append (us : List Token) {vs : List Token} (hv : startsDefinition vs = true) :
    vs <:+ resume (us ++ vs) := by
  induction us with
  | nil =>
    rw [List.nil_append, resume_of_starts hv]
  | cons u us ih =>
    by_cases hs : startsDefinition (u :: (us ++ vs)) = true
    · rw [List.cons_append, resume_of_starts hs]
      exact List.suffix_append (u :: us) vs
    · rw [List.cons_append, resume_cons (by simpa using hs)]
      exact ih

theorem Reach.outcome {finish : Location} {ts rest ls : List Token} {es : ErrorList}
    (h : Reach finish ts ls rest es) :
    (∃ taken, stretch ts = taken ++ stretch rest ∧ ls = taken.filter Token.isLeaf ∧ es = []) ∨
    ∃ taken left e, stretch ts = taken ++ left ∧ ls = taken.filter Token.isLeaf ∧ es = [e] ∧
      e.IsAt (look finish (left ++ resume ts)) := by
  cases h with
  | clean hr => exact .inl ⟨_, stretch_append hr, rfl, rfl⟩
  | broken hr he =>
    refine .inr ⟨_, _, _, stretch_append hr, rfl, rfl, ?_⟩
    rwa [hr, stretch_append_resume]

/-- A definition as it stands in a text: a name with an equals sign behind it, the tokens up to the
next such pair or to the end, and all that follows. -/
structure Clause where
  name : Token
  equals : Token
  body : List Token
  next : List Token
  name_kind : name.kind = .node
  equals_kind : equals.kind = .equals
  resume_eq : resume (body ++ next) = next

namespace Clause

def tokens (c : Clause) : List Token := c.name :: c.equals :: c.body

def ofTokens? : List Token → Option Clause
  | name :: equals :: ts =>
    if h : name.kind = .node ∧ equals.kind = .equals then
      some
        { name, equals
          body := stretch ts
          next := resume ts
          name_kind := h.1
          equals_kind := h.2
          resume_eq := by rw [stretch_append_resume] }
    else none
  | _ => none

variable (c : Clause)

theorem boundary_next : Boundary c.next := c.resume_eq ▸ boundary_resume _

theorem stretch_eq : stretch (c.body ++ c.next) = c.body := by
  have h := c.resume_eq.trans c.boundary_next.resume_eq.symm
  rw [stretch_append h, c.boundary_next.stretch_eq, List.append_nil]

theorem startsDefinition_eq_false {us vs : List Token} (hb : c.body = us ++ vs) (hv : vs ≠ []) :
    startsDefinition (vs ++ c.next) = false := by
  rw [Bool.eq_false_iff]
  intro hs
  have hl := (suffix_resume_append us hs).length_le
  rw [← List.append_assoc, ← hb, c.resume_eq, List.length_append] at hl
  have hpos := List.length_pos_iff.mpr hv
  omega

end Clause

/-- The definitions of a text: each adjacent name and equals sign gives one. -/
def clauses (ts : List Token) : List Clause := ts.tails.filterMap Clause.ofTokens?

theorem clauses_cons (t : Token) (ts : List Token) :
    clauses (t :: ts) = (Clause.ofTokens? (t :: ts)).toList ++ clauses ts := by
  rw [clauses, List.tails_cons, List.filterMap_cons]
  cases Clause.ofTokens? (t :: ts) <;> rfl

theorem clauses_of_not_starts {t : Token} {ts : List Token}
    (hs : startsDefinition (t :: ts) = false) : clauses (t :: ts) = clauses ts := by
  have hn : Clause.ofTokens? (t :: ts) = none := by
    cases ts with
    | nil => rfl
    | cons u us =>
      rw [Clause.ofTokens?, dif_neg]
      simpa [startsDefinition] using hs
  rw [clauses_cons, hn]
  rfl

theorem clauses_resume (ts : List Token) : clauses (resume ts) = clauses ts := by
  induction ts with
  | nil => rfl
  | cons t ts ih =>
    by_cases hs : startsDefinition (t :: ts) = true
    · rw [resume_of_starts hs]
    · rw [resume_cons (by simpa using hs), clauses_of_not_starts (by simpa using hs), ih]

theorem clauses_of_starts {name equals : Token} (hn : name.kind = .node)
    (he : equals.kind = .equals) (ts : List Token) :
    ∃ c : Clause, clauses (name :: equals :: ts) = c :: clauses (resume ts) ∧ c.name = name ∧
      c.equals = equals ∧ c.body = stretch ts ∧ c.next = resume ts := by
  refine ⟨⟨name, equals, stretch ts, resume ts, hn, he, by rw [stretch_append_resume]⟩, ?_⟩
  have hs : startsDefinition (equals :: ts) = false :=
    Parser.startsDefinition_eq_false ts (by simp [he])
  rw [clauses_cons, clauses_of_not_starts hs, clauses_resume, Clause.ofTokens?, dif_pos ⟨hn, he⟩]
  exact ⟨rfl, rfl, rfl, rfl, rfl⟩

theorem clauses_of_skipped {t : Token} {ts : List Token}
    (hs : startsDefinition (t :: ts) = false) : clauses (t :: ts) = clauses (resume ts) :=
  (clauses_of_not_starts hs).trans (clauses_resume ts).symm

def Passage.isDefinition : Passage → Bool
  | .skipped _ => false
  | .definition .. => true

namespace Clause

variable (finish : Location) (c : Clause)

def reply : Attempt ((c.body ++ c.next).length + 1) := alt finish (c.body ++ c.next)

def passage : Passage :=
  .definition c.name (c.reply finish).value (c.reply finish).errors
    (pulls finish 2 (c.tokens ++ c.next) ++ (c.reply finish).log)

def entry : Entry := ⟨c.name, (c.reply finish).value, (c.reply finish).errors⟩

theorem entry_of_passage : Passage.entry? (c.passage finish) = some (c.entry finish) := rfl

theorem run : Run finish .alt (c.body ++ c.next) (c.reply finish).value (c.reply finish).rest
    (c.reply finish).log := run_alt finish _

theorem errorsOf_log_reply : errorsOf (c.reply finish).log = (c.entry finish).errors :=
  errorsOf_log_alt finish _

/-- The parser reads the body of a definition up to some token, with all leaves on the way. What is
left of the body is dropped, either with an error at that token or without any. -/
theorem outcome :
    (∃ taken, c.body = taken ++ stretch (c.reply finish).rest ∧
      Phrase.alt.leaves (c.entry finish).rule = taken.filter Token.isLeaf ∧
      (c.entry finish).errors = []) ∨
    ∃ taken left e, c.body = taken ++ left ∧
      Phrase.alt.leaves (c.entry finish).rule = taken.filter Token.isLeaf ∧
      (c.entry finish).errors = [e] ∧ e.IsAt (look finish (left ++ c.next)) := by
  have h := (c.run finish).reach.outcome
  rwa [c.stretch_eq, c.resume_eq, errorsOf_log_reply] at h

end Clause

variable {finish : Location}

/-- The definitions that follow one are those in what the parser leaves of it. -/
theorem clauses_of_run {name equals : Token} {ts rest : List Token} {v : Option Rule}
    {log : List Event} (hn : name.kind = .node) (he : equals.kind = .equals)
    (h : Run finish .alt ts v rest log) :
    ∃ c : Clause, clauses (name :: equals :: ts) = c :: clauses rest ∧ c.name = name ∧
      c.tokens ++ c.next = name :: equals :: ts ∧ c.next = resume rest ∧
      (c.reply finish).value = v ∧ (c.reply finish).rest = rest ∧
      (c.reply finish).errors = errorsOf log ∧ (c.reply finish).log = log := by
  obtain ⟨c, hc, rfl, rfl, hbody, hnext⟩ := clauses_of_starts hn he ts
  have hts : c.body ++ c.next = ts := by rw [hbody, hnext, stretch_append_resume]
  have hresume := h.reach.resume_eq
  subst hts
  obtain ⟨_, hg⟩ := h.gives
  have hreply : c.reply finish = ⟨v, rest, errorsOf log, log, _⟩ := hg
  rw [hresume, clauses_resume] at hc
  refine ⟨c, hc, rfl, rfl, hnext.trans hresume, ?_⟩
  rw [hreply]
  exact ⟨rfl, rfl, rfl, rfl⟩

theorem flatMap_tokens_clauses (ts : List Token) :
    (clauses ts).flatMap Clause.tokens = resume ts := by
  induction ts using text_induction .start with
  | nil => rfl
  | @definition name equals ts rest v log hn he hrun ih =>
    obtain ⟨c, hc, -, hts, hnext, -⟩ := clauses_of_run hn he hrun
    have hs : startsDefinition (name :: equals :: ts) = true := by simp [startsDefinition, hn, he]
    rw [hc, List.flatMap_cons, ih, resume_of_starts hs, ← hnext, hts]
  | @skipped t ts hs ih =>
    rw [clauses_of_skipped hs, ih, resume_cons hs, (boundary_resume ts).resume_eq]

/-- Nothing is lost when a text is cut into its definitions. -/
theorem stretch_append_flatMap_clauses (ts : List Token) :
    stretch ts ++ (clauses ts).flatMap Clause.tokens = ts := by
  rw [flatMap_tokens_clauses, stretch_append_resume]

/-- The parser starts a definition exactly at each adjacent name and equals sign, once and in
order. -/
theorem filter_passages (ts : List Token) : (passages finish ts).filter Passage.isDefinition =
    (clauses ts).map (Clause.passage finish) := by
  induction ts using text_induction finish with
  | nil =>
    rw [passages]
    rfl
  | @definition name equals ts rest v log hn he hrun ih =>
    obtain ⟨c, hc, hname, hts, -, hv, -, herrors, hl⟩ := clauses_of_run hn he hrun
    rw [passages_of_run hn he hrun, List.filter_cons_of_pos rfl, ih, hc, List.map_cons,
      Clause.passage, hname, hts, hv, herrors, hl]
  | @skipped t ts hs ih =>
    rw [passages_of_not_starts hs, List.filter_cons_of_neg Bool.false_ne_true, ih,
      clauses_of_skipped hs]

theorem entries_eq_map (ts : List Token) :
    entries finish ts = (clauses ts).map (Clause.entry finish) := by
  have hf : (passages finish ts).filterMap Passage.entry? =
      ((passages finish ts).filter Passage.isDefinition).filterMap Passage.entry? := by
    rw [List.filterMap_filter]
    apply List.filterMap_congr
    intro p _
    cases p <;> rfl
  rw [entries, hf, filter_passages, List.filterMap_map]
  have he : Passage.entry? ∘ Clause.passage finish = some ∘ Clause.entry finish :=
    funext (Clause.entry_of_passage finish)
  rw [he, List.filterMap_eq_map]

def skipping (finish : Location) (ts : List Token) : List Event :=
  if distance ts = 0 then [] else recovery finish ts

theorem Boundary.skipping_eq {ts : List Token} (h : Boundary ts) : skipping finish ts = [] :=
  if_pos h.distance_eq

/-- What the log tells from the name of the definition on, up to the next definition. -/
def Clause.log (finish : Location) (c : Clause) : List Event :=
  pulls finish 2 (c.tokens ++ c.next) ++ (c.reply finish).log ++
    skipping finish (c.reply finish).rest

theorem flatMap_log_passages (ts : List Token) : (passages finish ts).flatMap Passage.log =
    skipping finish ts ++ (clauses ts).flatMap (Clause.log finish) := by
  induction ts using text_induction finish with
  | nil =>
    rw [passages]
    rfl
  | @definition name equals ts rest v log hn he hrun ih =>
    obtain ⟨c, hc, -, hts, -, -, hr, -, hl⟩ := clauses_of_run hn he hrun
    have hb : Boundary (name :: equals :: ts) := .inr (by simp [startsDefinition, hn, he])
    rw [passages_of_run hn he hrun, List.flatMap_cons, ih, hc, List.flatMap_cons, Clause.log, hts,
      hl, hr, hb.skipping_eq, List.nil_append, List.append_assoc, List.append_assoc]
    exact List.append_assoc _ _ _
  | @skipped t ts hs ih =>
    have hd : distance (t :: ts) ≠ 0 := by simp [distance, hs]
    rw [passages_of_not_starts hs, List.flatMap_cons, ih, clauses_of_skipped hs,
      (boundary_resume ts).skipping_eq, skipping, if_neg hd]
    rfl

end CstGrammar.Parser
