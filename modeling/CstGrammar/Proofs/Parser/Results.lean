import CstGrammar.Proofs.Parser.Progress
import CstGrammar.Proofs.Parser.Spelling
import CstGrammar.Proofs.Rule.Shape

namespace CstGrammar

/-- A rule that breaks off at a placeholder: it is the last thing that would be written, and there
is no other. -/
inductive Rule.Cut : Rule → Prop
  | labeled {label part loc} : (∀ r ∈ part, Cut r) → Cut (.labeled label part loc)
  | seq {init last} : init ≠ [] → (∀ r ∈ init, r.isComplete = true) → Cut last →
      Cut (.seq (init ++ [last]))
  | alt {init part} : init ≠ [] → (∀ r ∈ init, r.isComplete = true) → (∀ r ∈ part, Cut r) →
      Cut (.alt (init.map some ++ [part]))

theorem Rule.Cut.isComplete_eq {rule : Rule} (h : rule.Cut) : rule.isComplete = false := by
  induction h with
  | @labeled label part loc _ ih =>
    cases part with
    | none => rfl
    | some rule => simpa using ih rule rfl
  | seq _ _ _ ih => simp [ih]
  | @alt init part _ _ _ ih =>
    cases part with
    | none => simp
    | some rule => simp [ih rule rfl]

namespace Parser

def Phrase.All (P : Rule → Prop) : (p : Phrase) → p.Value → Prop
  | .alt, v => v.elim True P
  | .seq, v => v.elim True P
  | .single, v => v.elim True P
  | .atom, v => v.elim True P
  | .alternatives, parts => ∀ r, some r ∈ parts → P r
  | .elements, rules => ∀ r ∈ rules, P r

def ProperNames (ts : List Token) : Prop := ∀ t ∈ ts, t.kind = .node → isName t.value = true

theorem ProperNames.suffix {ts us : List Token} (h : ProperNames ts) (hs : us <:+ ts) :
    ProperNames us := fun t ht ↦ h t (hs.subset ht)

variable {finish : Location} {p : Phrase} {ts rest : List Token} {v : p.Value} {log : List Event}

theorem proper_sequence {first : Rule} {more : List Rule} (hf : first.Proper)
    (hm : ∀ r ∈ more, r.Proper) : (sequence first more).Proper := by
  cases more with
  | nil => exact hf
  | cons second rules => exact .seq (List.forall_mem_cons.mpr ⟨hf, hm⟩)

theorem proper_alternation {first : Rule} {more : List (Option Rule)} (hf : first.Proper)
    (hm : ∀ r, some r ∈ more → r.Proper) : (alternation first more).Proper := by
  cases more with
  | nil => exact hf
  | cons second parts =>
    refine Rule.Proper.alt fun r hr ↦ ?_
    rcases List.mem_cons.mp hr with hr | hr
    · cases hr
      exact hf
    · exact hm r hr

/-- The parser takes names from the tokens, and builds no lists of one and none without a first
rule. -/
theorem Run.proper (h : Run finish p ts v rest log) (hn : ProperNames ts) :
    p.All Rule.Proper v := by
  induction h with
  | alternatives_stop | elements_stop | elements_none => exact nofun
  | alt_none | seq_missing | seq_none | single_none | atom_error | group_none => exact trivial
  | single_plain _ _ _ ih => exact ih hn
  | single_opt _ _ ih => exact .opt (ih hn)
  | single_rep _ _ ih => exact .rep (ih hn)
  | alt_some h _ ih ih' => exact proper_alternation (ih hn) (ih' (hn.suffix h.suffix))
  | @alternatives_cons pipe ts head _ _ _ _ _ _ h _ ih ih' =>
    have hts : ProperNames ts := hn.suffix (List.suffix_cons _ _)
    intro r hr
    rcases List.mem_cons.mp hr with rfl | hr
    · exact ih hts
    · exact ih' (hts.suffix h.suffix) r hr
  | seq_some h _ ih ih' => exact proper_sequence (ih hn) (ih' (hn.suffix h.suffix))
  | elements_cons h _ ih ih' =>
    exact List.forall_mem_cons.mpr ⟨ih hn, ih' (hn.suffix h.suffix)⟩
  | atom_node ht => exact .node (hn _ List.mem_cons_self ht)
  | atom_literal => exact .literal
  | labeled_missing hl => exact .labeled (hn _ List.mem_cons_self hl) nofun
  | @labeled_some label colon ts rule _ _ hl _ _ ih =>
    have hrule := ih (hn.suffix ((List.suffix_cons _ _).trans (List.suffix_cons _ _)))
    refine .labeled (hn _ List.mem_cons_self hl) ?_
    rintro r rfl
    exact hrule
  | group_reported _ _ _ ih | group_closed _ _ _ _ ih | group_unclosed _ _ _ _ ih =>
    exact ih (hn.suffix (List.suffix_cons _ _))

def Phrase.Whole : (p : Phrase) → p.Value → Prop
  | .alt, v => v.elim True (·.isComplete = true)
  | .seq, v => v.elim True (·.isComplete = true)
  | .single, v => v.elim True (·.isComplete = true)
  | .atom, v => v.elim True (·.isComplete = true)
  | .alternatives, parts => ∃ rules : List Rule, parts = rules.map some ∧
      ∀ r ∈ rules, r.isComplete = true
  | .elements, rules => ∀ r ∈ rules, r.isComplete = true

def Phrase.BreaksOff : (p : Phrase) → p.Value → Prop
  | .alt, v => v.elim False Rule.Cut
  | .seq, v => v.elim False Rule.Cut
  | .single, v => v.elim False Rule.Cut
  | .atom, v => v.elim False Rule.Cut
  | .alternatives, parts => ∃ (init : List Rule) (part : Option Rule),
      parts = init.map some ++ [part] ∧ (∀ r ∈ init, r.isComplete = true) ∧ ∀ r ∈ part, Rule.Cut r
  | .elements, rules => ∃ (init : List Rule) (last : Rule),
      rules = init ++ [last] ∧ (∀ r ∈ init, r.isComplete = true) ∧ Rule.Cut last

theorem whole_or_breaksOff_sequence {first : Rule} {more : List Rule}
    (hf : first.isComplete = true) :
    (Phrase.elements.Whole more → Phrase.seq.Whole (some (sequence first more))) ∧
      (Phrase.elements.BreaksOff more → Phrase.seq.BreaksOff (some (sequence first more))) := by
  constructor
  · intro hm
    cases more with
    | nil => exact hf
    | cons r rs =>
      change (Rule.seq _).isComplete = true
      rw [Rule.isComplete_seq, List.all_eq_true]
      exact List.forall_mem_cons.mpr ⟨hf, hm⟩
  · rintro ⟨init, last, rfl, hi, hl⟩
    have hne : (init ++ [last]).isEmpty = false := by simp
    rw [sequence, hne]
    exact @Rule.Cut.seq (first :: init) last (by simp) (List.forall_mem_cons.mpr ⟨hf, hi⟩) hl

theorem whole_or_breaksOff_alternation {first : Rule} {more : List (Option Rule)}
    (hf : first.isComplete = true) :
    (Phrase.alternatives.Whole more → Phrase.alt.Whole (some (alternation first more))) ∧
      (Phrase.alternatives.BreaksOff more →
        Phrase.alt.BreaksOff (some (alternation first more))) := by
  constructor
  · rintro ⟨rules, rfl, hr⟩
    cases rules with
    | nil => exact hf
    | cons r rs =>
      change (Rule.alt ((first :: r :: rs).map some)).isComplete = true
      rw [Rule.isComplete_alt, List.all_map, List.all_eq_true]
      exact List.forall_mem_cons.mpr ⟨hf, hr⟩
  · rintro ⟨init, part, rfl, hi, hp⟩
    have hne : (init.map some ++ [part]).isEmpty = false := by simp
    rw [alternation, hne]
    exact @Rule.Cut.alt (first :: init) part (by simp) (List.forall_mem_cons.mpr ⟨hf, hi⟩) hp

/-- Recovery leaves at most one placeholder in a rule, where reading broke off. -/
theorem Run.whole_or_breaksOff (h : Run finish p ts v rest log) :
    p.Whole v ∨ p.BreaksOff v ∧ errorsOf log ≠ [] := by
  induction h with
  | alternatives_stop => exact .inl ⟨[], rfl, nofun⟩
  | elements_stop | elements_none => exact .inl nofun
  | alt_none | seq_missing | seq_none | single_none | atom_error | group_none => exact .inl trivial
  | single_plain _ _ _ ih => exact ih
  | atom_node | atom_literal => exact .inl rfl
  | single_opt h hk ih | single_rep h hk ih =>
    apply Or.inl
    apply ih.resolve_right
    intro hb
    exact (h.boundary_of_errors hb.2).kind_look_ne finish (by decide) hk
  | alt_some h h' ih ih' =>
    rw [errorsOf_append]
    rcases ih with hf | ⟨hf, he⟩
    · obtain ⟨hwhole, hbreaks⟩ := whole_or_breaksOff_alternation hf
      rcases ih' with hm | ⟨hm, he⟩
      · exact .inl (hwhole hm)
      · exact .inr ⟨hbreaks hm, by simp [he]⟩
    · obtain ⟨rfl, -, -⟩ := h'.alternatives_of_boundary (h.boundary_of_errors he)
      exact .inr ⟨hf, by simp [he]⟩
  | @alternatives_cons _ _ head _ _ _ _ _ _ h h' ih ih' =>
    simp only [errorsOf_append, errorsOf_pulls, List.nil_append]
    cases head with
    | none =>
      have he := h.errors_of_fails rfl
      obtain ⟨rfl, -, -⟩ := h'.alternatives_of_boundary (h.boundary_of_errors he)
      exact .inr ⟨⟨[], none, rfl, nofun, nofun⟩, by simp [he]⟩
    | some head =>
      rcases ih with hf | ⟨hf, he⟩
      · rcases ih' with ⟨rules, rfl, hr⟩ | ⟨⟨init, part, rfl, hi, hp⟩, he⟩
        · exact .inl ⟨head :: rules, rfl, List.forall_mem_cons.mpr ⟨hf, hr⟩⟩
        · refine .inr ⟨⟨head :: init, part, rfl, List.forall_mem_cons.mpr ⟨hf, hi⟩, hp⟩, ?_⟩
          simp [he]
      · obtain ⟨rfl, -, -⟩ := h'.alternatives_of_boundary (h.boundary_of_errors he)
        refine .inr ⟨⟨[], some head, rfl, nofun, ?_⟩, by simp [he]⟩
        rintro r ⟨⟩
        exact hf
  | seq_some h h' ih ih' =>
    rw [errorsOf_append]
    rcases ih with hf | ⟨hf, he⟩
    · obtain ⟨hwhole, hbreaks⟩ := whole_or_breaksOff_sequence hf
      rcases ih' with hm | ⟨hm, he⟩
      · exact .inl (hwhole hm)
      · exact .inr ⟨hbreaks hm, by simp [he]⟩
    · obtain ⟨rfl, -, -⟩ := h'.elements_of_boundary (h.boundary_of_errors he)
      exact .inr ⟨hf, by simp [he]⟩
  | @elements_cons _ rule _ _ _ _ _ h h' ih ih' =>
    rw [errorsOf_append]
    rcases ih with hf | ⟨hf, he⟩
    · rcases ih' with hm | ⟨⟨init, last, rfl, hi, hl⟩, he⟩
      · exact .inl (List.forall_mem_cons.mpr ⟨hf, hm⟩)
      · refine .inr ⟨⟨rule :: init, last, rfl, List.forall_mem_cons.mpr ⟨hf, hi⟩, hl⟩, ?_⟩
        simp [he]
    · obtain ⟨rfl, -, -⟩ := h'.elements_of_boundary (h.boundary_of_errors he)
      exact .inr ⟨⟨[], rule, rfl, nofun, hf⟩, by simp [he]⟩
  | labeled_missing => exact .inr ⟨.labeled nofun, by simp [errorsOf_append]⟩
  | @labeled_some _ _ _ rule _ _ _ _ h ih =>
    rw [errorsOf_append, errorsOf_pulls, List.nil_append]
    cases rule with
    | none => exact .inr ⟨.labeled nofun, h.errors_of_fails rfl⟩
    | some rule =>
      rcases ih with hw | ⟨hb, he⟩
      · exact .inl (by simpa [Phrase.Whole] using hw)
      · refine .inr ⟨.labeled ?_, he⟩
        rintro r ⟨⟩
        exact hb
  | group_reported _ _ he ih =>
    rcases ih with hw | ⟨hb, -⟩
    · exact .inl hw
    · exact .inr ⟨hb, by simp [errorsOf_append, he]⟩
  | group_closed _ _ he _ ih | group_unclosed _ _ he _ ih =>
    exact .inl (ih.resolve_right fun hb ↦ hb.2 he)

end Parser

end CstGrammar
