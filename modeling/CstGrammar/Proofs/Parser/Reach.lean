import CstGrammar.Proofs.Parser.Progress

namespace CstGrammar

def Token.isLeaf (t : Token) : Bool := t.kind = .node || t.kind = .literal

def Rule.leaves : Rule → List Token := fold
  { node name loc := [⟨.node, name, loc⟩]
    literal value loc := [⟨.literal, value, loc⟩]
    labeled label part loc := ⟨.node, label, loc⟩ :: part.getD []
    seq rules := rules.flatten
    alt parts := parts.flatMap (·.getD [])
    opt := id
    rep := id }

namespace Rule

variable (name label value : String) (loc : Location) (rule : Rule) (part : Option Rule)
  (rules : List Rule) (parts : List (Option Rule))

@[simp] theorem leaves_node : (node name loc).leaves = [⟨.node, name, loc⟩] := rfl

@[simp] theorem leaves_literal : (literal value loc).leaves = [⟨.literal, value, loc⟩] := rfl

@[simp] theorem leaves_labeled :
    (labeled label part loc).leaves = ⟨.node, label, loc⟩ :: part.elim [] leaves := by
  cases part <;> simp [leaves]

@[simp] theorem leaves_seq : (seq rules).leaves = rules.flatMap leaves := by
  simp [leaves, List.flatMap]

@[simp] theorem leaves_alt : (alt parts).leaves = parts.flatMap (·.elim [] leaves) := by
  simp only [leaves, fold_alt, List.flatMap_map]
  congr 1
  funext part
  cases part <;> rfl

@[simp] theorem leaves_opt : (opt rule).leaves = rule.leaves := rfl

@[simp] theorem leaves_rep : (rep rule).leaves = rule.leaves := rfl

end Rule

def ParseError.IsAt (e : ParseError) (t : Token) : Prop :=
  e.location = t.location ∧ (t.kind = .error ∧ e.problem = .stated t.value ∨
    e.problem ∈ [Problem.expectedRule t.value, .expectedClosing t.value,
      .expectedRuleAfterLabel t.value])

theorem ParseError.IsAt.not_duplicate {e : ParseError} {t : Token} (h : e.IsAt t)
    (name : String) : e.problem ≠ .duplicateName name := by
  intro hd
  have hp := h.2
  simp [hd] at hp

namespace Parser

def Phrase.leaves : (p : Phrase) → p.Value → List Token
  | .alt, v => v.elim [] Rule.leaves
  | .seq, v => v.elim [] Rule.leaves
  | .single, v => v.elim [] Rule.leaves
  | .atom, v => v.elim [] Rule.leaves
  | .alternatives, parts => parts.flatMap (·.elim [] Rule.leaves)
  | .elements, rules => rules.flatMap Rule.leaves

theorem leaves_sequence (first : Rule) (more : List Rule) :
    (sequence first more).leaves = first.leaves ++ Phrase.elements.leaves more := by
  cases more with
  | nil => exact (List.append_nil _).symm
  | cons rule rules => exact Rule.leaves_seq _

theorem leaves_alternation (first : Rule) (more : List (Option Rule)) :
    (alternation first more).leaves = first.leaves ++ Phrase.alternatives.leaves more := by
  cases more with
  | nil => exact (List.append_nil _).symm
  | cons part parts => exact Rule.leaves_alt _

/-- How far reading comes. What is read is the beginning of the tokens, with all its leaves and
without the start of a definition. If there is an error, it is the only one and at the first token
that is not read, and then all is skipped up to the next definition. -/
inductive Reach (finish : Location) : List Token → List Token → List Token → ErrorList → Prop
  | clean {taken rest : List Token} : resume (taken ++ rest) = resume rest →
      Reach finish (taken ++ rest) (taken.filter Token.isLeaf) rest []
  | broken {taken after : List Token} {e : ParseError} : resume (taken ++ after) = resume after →
      e.IsAt (look finish after) →
      Reach finish (taken ++ after) (taken.filter Token.isLeaf) (resume after) [e]

variable {finish : Location} {ts mid rest ls ls' : List Token} {es es' : ErrorList}

namespace Reach

theorem stop (ts : List Token) : Reach finish ts [] ts [] := @clean finish [] ts rfl

theorem failure (problem : String → Problem)
    (hp : ParseError.IsAt ⟨(look finish ts).location, problem (look finish ts).value⟩
      (look finish ts)) :
    Reach finish ts [] (resume ts) (errorsOf (Parser.failure finish problem ts)) := by
  rw [errorsOf_failure]
  exact @broken finish [] ts _ rfl hp

theorem cons {t : Token} (hs : startsDefinition (t :: ts) = false)
    (h : Reach finish ts ls rest es) :
    Reach finish (t :: ts) ([t].filter Token.isLeaf ++ ls) rest es := by
  cases h with
  | @clean taken _ hr =>
    rw [← List.filter_append, ← List.cons_append]
    exact .clean ((resume_cons hs).trans hr)
  | @broken taken _ _ hr he =>
    rw [← List.filter_append, ← List.cons_append]
    exact .broken ((resume_cons hs).trans hr) he

theorem leaf {t : Token} {kind : Token.Kind} (hk : t.kind = kind)
    (hl : kind = .node ∨ kind = .literal) (hs : startsDefinition (t :: ts) = false)
    (h : Reach finish ts ls rest es) :
    Reach finish (t :: ts) (⟨kind, t.value, t.location⟩ :: ls) rest es := by
  have ht : t.isLeaf = true := by simpa [Token.isLeaf, hk] using hl
  have hc := h.cons hs
  rw [List.filter_cons_of_pos ht] at hc
  rw [← hk]
  exact hc

theorem mark {t : Token} (hn : t.kind ≠ .node) (hl : t.kind ≠ .literal)
    (h : Reach finish ts ls rest es) : Reach finish (t :: ts) ls rest es := by
  have ht : ¬ t.isLeaf = true := by simp [Token.isLeaf, hn, hl]
  have hc := h.cons (startsDefinition_eq_false ts hn)
  rwa [List.filter_cons_of_neg ht] at hc

/-- What comes behind is only read if there has been no error. -/
theorem trans (h : Reach finish ts ls mid es) (h' : Reach finish mid ls' rest es')
    (hi : es ≠ [] → ls' = [] ∧ rest = mid ∧ es' = []) :
    Reach finish ts (ls ++ ls') rest (es ++ es') := by
  cases h with
  | clean hr =>
    cases h' with
    | clean hr' =>
      rw [← List.append_assoc] at hr ⊢
      rw [← List.filter_append]
      exact .clean (hr.trans hr')
    | broken hr' he =>
      rw [← List.append_assoc] at hr ⊢
      rw [← List.filter_append]
      exact .broken (hr.trans hr') he
  | broken hr he =>
    obtain ⟨rfl, rfl, rfl⟩ := hi (List.cons_ne_nil _ _)
    rw [List.append_nil]
    exact .broken hr he

theorem boundary (h : Reach finish ts ls rest es) (he : es ≠ []) : Boundary rest := by
  cases h with
  | clean => exact absurd rfl he
  | broken => exact boundary_resume _

theorem mark_behind {t : Token} (hn : t.kind ≠ .node) (hl : t.kind ≠ .literal)
    (h : Reach finish ts ls (t :: rest) es) : Reach finish ts ls rest es := by
  have hi : es ≠ [] → ([] : List Token) = [] ∧ rest = t :: rest ∧ ([] : ErrorList) = [] := by
    intro he
    rcases h.boundary he with hnil | hs
    · cases hnil
    · rw [startsDefinition_eq_false rest hn] at hs
      cases hs
  have hr := h.trans ((Reach.stop rest).mark hn hl) hi
  rwa [List.append_nil, List.append_nil] at hr

theorem resume_eq (h : Reach finish ts ls rest es) : resume ts = resume rest := by
  cases h with
  | clean hr => exact hr
  | @broken _ after _ hr => exact hr.trans (boundary_resume after).resume_eq.symm

theorem exists_isAt (h : Reach finish ts ls rest es) {e : ParseError} (he : e ∈ es) :
    ∃ t, e.IsAt t := by
  cases h with
  | clean => cases he
  | broken _ hat =>
    rw [List.mem_singleton.mp he]
    exact ⟨_, hat⟩

end Reach

variable {p : Phrase} {v : p.Value} {log : List Event}

theorem Run.idle (h : Run finish p ts v rest log) (hp : p.level = 2) (hb : Boundary ts) :
    p.leaves v = [] ∧ rest = ts ∧ errorsOf log = [] := by
  cases p with
  | alternatives =>
    obtain ⟨rfl, rfl, rfl⟩ := h.alternatives_of_boundary hb
    exact ⟨rfl, rfl, rfl⟩
  | elements =>
    obtain ⟨rfl, rfl, rfl⟩ := h.elements_of_boundary hb
    exact ⟨rfl, rfl, rfl⟩
  | alt | seq | single | atom => cases hp

theorem Run.reach (h : Run finish p ts v rest log) :
    Reach finish ts (p.leaves v) rest (errorsOf log) := by
  induction h with
  | alternatives_stop | elements_stop => exact .stop _
  | alt_none _ ih | seq_none _ ih | elements_none _ ih | single_none _ ih
  | single_plain _ _ _ ih => exact ih
  | alt_some h h' ih ih' =>
    rw [errorsOf_append]
    change Reach finish _ (alternation _ _).leaves _ _
    rw [leaves_alternation]
    exact ih.trans ih' fun he ↦ h'.idle rfl (h.boundary_of_errors he)
  | alternatives_cons hp h h' ih ih' =>
    rw [errorsOf_append, errorsOf_append, errorsOf_pulls, List.nil_append]
    have hr := ih.trans ih' fun he ↦ h'.idle rfl (h.boundary_of_errors he)
    exact hr.mark (by simp [hp]) (by simp [hp])
  | seq_missing => exact .failure _ ⟨rfl, .inr (by simp)⟩
  | seq_some h h' ih ih' =>
    rw [errorsOf_append]
    change Reach finish _ (sequence _ _).leaves _ _
    rw [leaves_sequence]
    exact ih.trans ih' fun he ↦ h'.idle rfl (h.boundary_of_errors he)
  | elements_cons h h' ih ih' =>
    rw [errorsOf_append]
    exact ih.trans ih' fun he ↦ h'.idle rfl (h.boundary_of_errors he)
  | single_opt h hk ih | single_rep h hk ih =>
    rw [errorsOf_append, errorsOf_pulls, List.append_nil]
    exact ih.mark_behind (by simp [hk]) (by simp [hk])
  | @atom_node t ts ht he =>
    rw [errorsOf_pulls]
    have hs : startsDefinition (t :: ts) = false :=
      Bool.eq_false_iff.mpr fun hs ↦ he ((startsDefinition_cons t ts).mp hs).2
    exact (Reach.stop ts).leaf ht (.inl rfl) hs
  | @atom_literal t ts ht =>
    rw [errorsOf_pulls]
    exact (Reach.stop ts).leaf ht (.inr rfl) (startsDefinition_eq_false ts (by simp [ht]))
  | @atom_error t ts ht =>
    have hr := @Reach.failure finish (t :: ts) .stated ⟨rfl, .inl ⟨ht, rfl⟩⟩
    rwa [resume_cons (startsDefinition_eq_false ts (by simp [ht]))] at hr
  | @labeled_missing label colon ts hl hc =>
    rw [errorsOf_append, errorsOf_pulls]
    have hr := @Reach.failure finish ts .expectedRuleAfterLabel ⟨rfl, .inr (by simp)⟩
    have hs : startsDefinition (label :: colon :: ts) = false := by simp [startsDefinition, hc]
    have hm := (hr.mark (t := colon) (by simp [hc]) (by simp [hc])).leaf hl (.inl rfl) hs
    exact hm
  | @labeled_some label colon ts rule _ _ hl hc _ ih =>
    rw [errorsOf_append, errorsOf_pulls]
    change Reach finish _ (Rule.labeled _ _ _).leaves _ _
    rw [Rule.leaves_labeled]
    have hs : startsDefinition (label :: colon :: ts) = false := by simp [startsDefinition, hc]
    exact (ih.mark (by simp [hc]) (by simp [hc])).leaf hl (.inl rfl) hs
  | group_none ho _ ih =>
    rw [errorsOf_append, errorsOf_pulls]
    exact ih.mark (by simp [ho]) (by simp [ho])
  | group_reported ho _ _ ih =>
    rw [errorsOf_append, errorsOf_append, errorsOf_pulls, errorsOf_groupFailed, List.append_nil]
    exact ih.mark (by simp [ho]) (by simp [ho])
  | group_closed ho _ hl hc ih =>
    rw [errorsOf_append, errorsOf_append, errorsOf_pulls, errorsOf_pulls, List.append_nil]
    have hr := ih.mark_behind (by simp [hc]) (by simp [hc])
    exact hr.mark (by simp [ho]) (by simp [ho])
  | @group_unclosed opening ts rule rest log ho _ hl _ ih =>
    rw [errorsOf_append, errorsOf_append, errorsOf_pulls, List.nil_append]
    have hf := @Reach.failure finish rest .expectedClosing ⟨rfl, .inr (by simp)⟩
    have hr := ih.trans hf fun he ↦ absurd hl he
    rw [List.append_nil] at hr
    exact hr.mark (by simp [ho]) (by simp [ho])

/-- Only whole definitions are reported as duplicates. -/
theorem Run.not_duplicate (h : Run finish p ts v rest log) (name : String) :
    ∀ e ∈ errorsOf log, e.problem ≠ .duplicateName name := by
  intro e he
  obtain ⟨t, ht⟩ := h.reach.exists_isAt he
  exact ht.not_duplicate name

end Parser

end CstGrammar
