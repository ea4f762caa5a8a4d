import CstGrammar.Proofs.Parser.Run

namespace CstGrammar

/-- Whether tokens were skipped. -/
def Event.isSkip : Event → Bool
  | synchronized .. => true
  | _ => false

namespace Parser

def Phrase.Fails : (p : Phrase) → p.Value → Prop
  | .alt, v => v = none
  | .seq, v => v = none
  | .single, v => v = none
  | .atom, v => v = none
  | .alternatives, _ => False
  | .elements, _ => False

variable {finish : Location} {p : Phrase} {ts rest : List Token} {v : p.Value} {log : List Event}

theorem Run.suffix (h : Run finish p ts v rest log) : rest <:+ ts := by
  induction h with
  | alternatives_stop | elements_stop => exact List.suffix_rfl
  | alt_none _ ih | seq_none _ ih | elements_none _ ih | single_none _ ih
  | single_plain _ _ _ ih => exact ih
  | alt_some _ _ ih ih' | seq_some _ _ ih ih' | elements_cons _ _ ih ih' => exact ih'.trans ih
  | alternatives_cons _ _ _ ih ih' => exact (ih'.trans ih).trans (List.suffix_cons _ _)
  | seq_missing => exact resume_suffix _
  | single_opt _ _ ih | single_rep _ _ ih => exact (List.suffix_cons _ _).trans ih
  | atom_node | atom_literal => exact List.suffix_cons _ _
  | atom_error => exact (resume_suffix _).trans (List.suffix_cons _ _)
  | labeled_missing =>
    exact ((resume_suffix _).trans (List.suffix_cons _ _)).trans (List.suffix_cons _ _)
  | labeled_some _ _ _ ih => exact (ih.trans (List.suffix_cons _ _)).trans (List.suffix_cons _ _)
  | group_none _ _ ih | group_reported _ _ _ ih => exact ih.trans (List.suffix_cons _ _)
  | group_closed _ _ _ _ ih =>
    exact ((List.suffix_cons _ _).trans ih).trans (List.suffix_cons _ _)
  | group_unclosed _ _ _ _ ih =>
    exact ((resume_suffix _).trans ih).trans (List.suffix_cons _ _)

/-- Where a definition starts or the text ends, no list goes on. -/
theorem Run.elements_of_boundary {v : List Rule} (h : Run finish .elements ts v rest log)
    (hb : Boundary ts) : v = [] ∧ rest = ts ∧ log = [] := by
  have hn : single finish ts = none := single_eq_none hb.startsRule_eq
  cases h with
  | elements_stop => exact ⟨rfl, rfl, rfl⟩
  | elements_none h =>
    obtain ⟨hr, he⟩ := h.gives
    simp [hn] at he
  | elements_cons h =>
    obtain ⟨hr, he⟩ := h.gives
    simp [hn] at he

theorem Run.alternatives_of_boundary {v : List (Option Rule)}
    (h : Run finish .alternatives ts v rest log) (hb : Boundary ts) :
    v = [] ∧ rest = ts ∧ log = [] := by
  cases h with
  | alternatives_stop => exact ⟨rfl, rfl, rfl⟩
  | alternatives_cons hk => exact absurd hk (hb.kind_look_ne finish (by decide))

/-- A reported error takes the parser to the next definition, and nothing is read behind it. -/
theorem Run.boundary_of_errors (h : Run finish p ts v rest log) (he : errorsOf log ≠ []) :
    Boundary rest := by
  induction h with
  | alternatives_stop | elements_stop | atom_node | atom_literal => simp at he
  | alt_none _ ih | seq_none _ ih | elements_none _ ih | single_none _ ih
  | single_plain _ _ _ ih => exact ih he
  | seq_missing | atom_error | labeled_missing | group_unclosed => exact boundary_resume _
  | @alt_some _ _ _ _ _ log _ _ h' ih ih' =>
    by_cases hl : errorsOf log = []
    · exact ih' (by simpa [errorsOf_append, hl] using he)
    · obtain ⟨-, rfl, -⟩ := h'.alternatives_of_boundary (ih hl)
      exact ih hl
  | @alternatives_cons _ _ _ _ _ _ log _ _ _ h' ih ih' =>
    by_cases hl : errorsOf log = []
    · exact ih' (by simpa [errorsOf_append, hl] using he)
    · obtain ⟨-, rfl, -⟩ := h'.alternatives_of_boundary (ih hl)
      exact ih hl
  | @seq_some _ _ _ _ _ log _ _ h' ih ih' | @elements_cons _ _ _ _ _ log _ _ h' ih ih' =>
    by_cases hl : errorsOf log = []
    · exact ih' (by simpa [errorsOf_append, hl] using he)
    · obtain ⟨-, rfl, -⟩ := h'.elements_of_boundary (ih hl)
      exact ih hl
  | single_opt _ hk ih | single_rep _ hk ih =>
    have hb : Boundary (_ :: _) := ih (by simpa [errorsOf_append] using he)
    exact absurd hk (hb.kind_look_ne finish (by decide))
  | labeled_some _ _ _ ih => exact ih (by simpa [errorsOf_append] using he)
  | group_none _ _ ih => exact ih (by simpa [errorsOf_append] using he)
  | group_reported _ _ hl ih => exact ih hl
  | group_closed _ _ hl => simp [errorsOf_append, hl] at he

theorem Run.errors_of_fails (h : Run finish p ts v rest log) (hf : p.Fails v) :
    errorsOf log ≠ [] := by
  induction h with
  | seq_missing | atom_error => simp
  | alt_none _ ih | seq_none _ ih | single_none _ ih => exact ih rfl
  | group_none _ _ ih => simpa [errorsOf_append] using ih rfl
  | labeled_some _ _ _ ih => cases hf
  | _ => cases hf

def Phrase.Stops : Phrase → List Token → Prop
  | .alt, _ | .seq, _ | .elements, _ => True
  | .alternatives, ts => startsRule ts = false
  | .single, _ | .atom, _ => False

theorem Run.startsRule_rest (h : Run finish p ts v rest log) (hp : p.Stops ts)
    (he : errorsOf log = []) : startsRule rest = false := by
  induction h with
  | elements_stop h => exact h
  | alternatives_stop => exact hp
  | alt_none h | seq_none h | elements_none h => exact absurd he (h.errors_of_fails rfl)
  | alt_some _ _ ih ih' =>
    rw [errorsOf_append, List.append_eq_nil_iff] at he
    exact ih' (ih trivial he.1) he.2
  | alternatives_cons _ _ _ ih ih' =>
    simp only [errorsOf_append, errorsOf_pulls, List.nil_append, List.append_eq_nil_iff] at he
    exact ih' (ih trivial he.1) he.2
  | seq_missing => simp at he
  | seq_some _ _ _ ih' | elements_cons _ _ _ ih' =>
    rw [errorsOf_append, List.append_eq_nil_iff] at he
    exact ih' trivial he.2
  | _ => exact hp.elim

@[simp] theorem any_isSkip_pulls (n : Nat) (ts : List Token) :
    (pulls finish n ts).any Event.isSkip = false := by
  induction n generalizing ts with
  | zero => rfl
  | succ n ih => exact ih ts.tail

@[simp] theorem any_isSkip_recovery (ts : List Token) :
    (recovery finish ts).any Event.isSkip = true := by
  simp [recovery, Event.isSkip]

@[simp] theorem any_isSkip_failure (problem : String → Problem) (ts : List Token) :
    (failure finish problem ts).any Event.isSkip = true := by
  simp [failure]

/-- Within a phrase, tokens are skipped exactly where an error is reported. -/
theorem Run.any_isSkip (h : Run finish p ts v rest log) :
    log.any Event.isSkip = false ↔ errorsOf log = [] := by
  induction h with
  | alternatives_stop | elements_stop => simp
  | alt_none _ ih | seq_none _ ih | elements_none _ ih | single_none _ ih
  | single_plain _ _ _ ih => exact ih
  | alt_some _ _ ih ih' | seq_some _ _ ih ih' | elements_cons _ _ ih ih' =>
    rw [List.any_append, Bool.or_eq_false_iff, ih, ih', errorsOf_append, List.append_eq_nil_iff]
  | alternatives_cons _ _ _ ih ih' =>
    rw [List.any_append, List.any_append, any_isSkip_pulls, Bool.false_or, Bool.or_eq_false_iff,
      ih, ih', errorsOf_append, errorsOf_append, errorsOf_pulls, List.nil_append,
      List.append_eq_nil_iff]
  | seq_missing | atom_error | labeled_missing | group_unclosed => simp [errorsOf_append]
  | atom_node | atom_literal => simp
  | single_opt _ _ ih | single_rep _ _ ih | labeled_some _ _ _ ih | group_none _ _ ih
  | group_closed _ _ _ _ ih => simpa [errorsOf_append] using ih
  | group_reported _ _ hl ih =>
    have hs : List.any _ _ = true := Bool.not_eq_false _ ▸ mt ih.mp hl
    simp only [List.any_append, hs, Bool.or_true, Bool.true_or, Bool.true_eq_false,
      errorsOf_append, List.append_eq_nil_iff, hl, and_false, false_and]

end Parser

end CstGrammar
