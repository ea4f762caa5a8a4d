import CstGrammar.Proofs.Parser.Derivation
import CstGrammar.Proofs.Parser.Progress

namespace CstGrammar.Parser

def Phrase.continuations : Phrase → List Token.Kind
  | alt | alternatives => [.equals, .colon, .question, .star, .pipe]
  | seq | elements => [.equals, .colon, .question, .star]
  | single | atom => [.equals, .colon]

variable {finish : Location} {p : Phrase}

/-- Whether a phrase can stop in front of the tokens. -/
def Phrase.Ends (finish : Location) (p : Phrase) (rest : List Token) : Prop :=
  (look finish rest).kind ∉ p.continuations ∧ (2 ≤ p.level → startsRule rest = false)

theorem Phrase.ends_of_boundary (p : Phrase) {rest : List Token} (hb : Boundary rest) :
    p.Ends finish rest := by
  refine ⟨?_, fun _ ↦ hb.startsRule_eq⟩
  rcases hb.kind_look finish with hk | hk <;> rw [hk] <;> cases p <;> decide

theorem Derivation.not_expects_elements {us vs rest : List Token} (first : Derivation .single us)
    (more : Derivation .elements vs) (he : ¬ (vs = [] ∧ first.Expects (look finish rest).kind)) :
    ¬ first.Expects (look finish (vs ++ rest)).kind := by
  intro h
  cases more with
  | noElements => exact he ⟨rfl, h⟩
  | elements head more =>
    obtain ⟨t, us', rfl, ht⟩ := head.exists_head (Nat.le_refl 1)
    have hk := kind_of_expects h
    simp only [List.cons_append, look_cons] at hk
    rcases ht with ht | ht | ht <;> simp [ht] at hk

theorem Derivation.not_expects_alternatives {us vs rest : List Token} (first : Derivation .seq us)
    (more : Derivation .alternatives vs)
    (he : ¬ (vs = [] ∧ first.Expects (look finish rest).kind)) (hr : startsRule rest = false) :
    ¬ first.Expects (look finish (vs ++ rest)).kind ∧ startsRule (vs ++ rest) = false := by
  cases more with
  | noAlternatives => exact ⟨fun h ↦ he ⟨rfl, h⟩, hr⟩
  | alternatives pipe hp head more =>
    refine ⟨fun h ↦ ?_, by simp [startsRule, hp]⟩
    have hk := kind_of_expects h
    simp [hp] at hk

/-- What can be derived with each suffix at its innermost place is read without errors, if it is not
the phrase that goes on with what follows. -/
theorem Derivation.run_of_not_expects {us rest : List Token} (d : Derivation p us)
    (hd : d.Innermost) (he : ¬ d.Expects (look finish rest).kind)
    (hp : p = .alt ∨ p = .alternatives → (look finish rest).kind ≠ .pipe)
    (hr : 2 ≤ p.level → startsRule rest = false) :
    ∃ log, Run finish p (us ++ rest) (p.whole d.tree) rest log ∧ errorsOf log = [] := by
  induction d generalizing rest with
  | alt first more ih ih' =>
    obtain ⟨hmore, hfirst⟩ := not_or.mp he
    obtain ⟨hf, hs⟩ := first.not_expects_alternatives more hfirst (hr (by decide))
    obtain ⟨log, h, hl⟩ := ih hd.1 hf (by simp) (fun _ ↦ hs)
    obtain ⟨log', h', hl'⟩ := ih' hd.2 hmore (fun _ ↦ hp (.inl rfl)) (fun _ ↦ hr (by decide))
    refine ⟨log ++ log', ?_, by rw [errorsOf_append, hl, hl']; rfl⟩
    rw [List.append_assoc]
    exact .alt_some h h'
  | noAlternatives => exact ⟨[], .alternatives_stop (hp (.inr rfl)), rfl⟩
  | alternatives pipe hpipe head more ih ih' =>
    obtain ⟨hmore, hhead⟩ := not_or.mp he
    obtain ⟨hf, hs⟩ := head.not_expects_alternatives more hhead (hr (by decide))
    obtain ⟨log, h, hl⟩ := ih hd.1 hf (by simp) (fun _ ↦ hs)
    obtain ⟨log', h', hl'⟩ := ih' hd.2 hmore hp hr
    have hrun := Run.alternatives_cons hpipe h h'
    rw [← List.append_assoc] at hrun
    exact ⟨_, hrun, by rw [errorsOf_append, errorsOf_append, errorsOf_pulls, hl, hl']; rfl⟩
  | seq first more ih ih' =>
    obtain ⟨hmore, hfirst⟩ := not_or.mp he
    have hf := first.not_expects_elements more hfirst
    obtain ⟨log, h, hl⟩ := ih hd.1 hf (by simp) (absurd · (by decide))
    obtain ⟨log', h', hl'⟩ := ih' hd.2 hmore (by simp) (fun _ ↦ hr (by decide))
    refine ⟨log ++ log', ?_, by rw [errorsOf_append, hl, hl']; rfl⟩
    rw [List.append_assoc]
    exact .seq_some h h'
  | noElements => exact ⟨[], .elements_stop (hr (Nat.le_refl 2)), rfl⟩
  | elements head more ih ih' =>
    obtain ⟨hmore, hhead⟩ := not_or.mp he
    have hf := head.not_expects_elements more hhead
    obtain ⟨log, h, hl⟩ := ih hd.1 hf (by simp) (absurd · (by decide))
    obtain ⟨log', h', hl'⟩ := ih' hd.2 hmore (by simp) hr
    refine ⟨log ++ log', ?_, by rw [errorsOf_append, hl, hl']; rfl⟩
    rw [List.append_assoc]
    exact .elements_cons h h'
  | plain operand ih =>
    obtain ⟨hquestion, he⟩ := not_or.mp he
    obtain ⟨hstar, he⟩ := not_or.mp he
    obtain ⟨log, h, hl⟩ := ih hd he (by simp) (absurd · (by decide))
    exact ⟨log, .single_plain h hquestion hstar, hl⟩
  | suffixed operand mark hm ih =>
    have ho : ¬ operand.Expects (look finish (mark :: rest)).kind := by
      rw [look_cons, operand.expects_iff_takesSuffix (Nat.zero_le 1) hm, hd.1]
      exact Bool.false_ne_true
    obtain ⟨log, h, hl⟩ := ih hd.2 ho (by simp) (absurd · (by decide))
    have hlog : errorsOf (log ++ pulls finish 1 (mark :: rest)) = [] := by
      rw [errorsOf_append, hl, errorsOf_pulls]
      rfl
    refine ⟨_, ?_, hlog⟩
    rw [List.append_assoc]
    rcases hm with hm | hm
    · simpa [tree, hm, Phrase.whole] using Run.single_opt h hm
    · simpa [tree, hm, Phrase.whole] using Run.single_rep h hm
  | node t ht =>
    obtain ⟨hequals, hcolon⟩ := not_or.mp he
    exact ⟨_, .atom_node ht hequals hcolon, errorsOf_pulls _ _⟩
  | literal t ht => exact ⟨_, .atom_literal ht, errorsOf_pulls _ _⟩
  | labeled label colon hl hc rule ih =>
    obtain ⟨log, h, he⟩ := ih hd he (by simp) (absurd · (by decide))
    exact ⟨_, .labeled_some hl hc h, by rw [errorsOf_append, errorsOf_pulls, he]; rfl⟩
  | group opening closing ho hc body ih =>
    have hb : ¬ body.Expects (look finish (closing :: rest)).kind := by
      intro hb
      have hk := kind_of_expects hb
      simp [hc] at hk
    obtain ⟨log, h, hl⟩ := ih hd hb (by simp [hc]) (by simp [startsRule, hc])
    have hrun := Run.group_closed ho h hl hc
    rw [List.append_cons] at hrun
    exact ⟨_, hrun, by simp [errorsOf_append, hl]⟩

theorem Derivation.not_expects_of_ends {us rest : List Token} {d : Derivation p us}
    (hr : p.Ends finish rest)
    (hs : p.level ≤ 1 → d.takesSuffix = true → (look finish rest).kind ∉ [.question, .star]) :
    ¬ d.Expects (look finish rest).kind := by
  intro he
  have hnames : ∀ k ∈ [Token.Kind.equals, .colon], k ∈ p.continuations := by cases p <;> decide
  have hmarks : 2 ≤ p.level → ∀ k ∈ [Token.Kind.question, .star], k ∈ p.continuations := by
    cases p <;> decide
  have hk : (look finish rest).kind ∈ [Token.Kind.equals, .colon] ++ [.question, .star] :=
    kind_of_expects he
  rcases List.mem_append.mp hk with hk | hk
  · exact hr.1 (hnames _ hk)
  · by_cases hp : p.level ≤ 1
    · exact hs hp ((d.expects_iff_takesSuffix hp (by simpa using hk)).mp he) hk
    · exact hr.1 (hmarks (by omega) _ hk)

theorem Derivation.run {us rest : List Token} (d : Derivation p us) (hd : d.Innermost)
    (hr : p.Ends finish rest)
    (hs : p.level ≤ 1 → d.takesSuffix = true → (look finish rest).kind ∉ [.question, .star]) :
    ∃ log, Run finish p (us ++ rest) (p.whole d.tree) rest log ∧ errorsOf log = [] := by
  refine d.run_of_not_expects hd (not_expects_of_ends hr hs) ?_ hr.2
  rintro (rfl | rfl) hk
  · exact hr.1 (by rw [hk]; decide)
  · exact hr.1 (by rw [hk]; decide)

theorem Derivation.not_expects_of_append {us vs rest : List Token} {d : Derivation p us}
    (h : ¬ d.Expects (look finish (vs ++ rest)).kind) :
    ¬ (vs = [] ∧ d.Expects (look finish rest).kind) := by
  rintro ⟨rfl, he⟩
  exact h he

/-- What is read without errors can be derived, with each suffix at its innermost place, and does
not go on with what follows. -/
theorem Run.derivation {ts rest : List Token} {v : p.Value} {log : List Event}
    (h : Run finish p ts v rest log) (he : errorsOf log = []) :
    ∃ us, ∃ d : Derivation p us, ts = us ++ rest ∧ d.Innermost ∧ v = p.whole d.tree ∧
      ¬ d.Expects (look finish rest).kind := by
  induction h with
  | alt_none h | seq_none h | elements_none h | single_none h =>
    exact absurd he (h.errors_of_fails rfl)
  | group_none _ h => exact absurd (by simpa [errorsOf_append] using he) (h.errors_of_fails rfl)
  | seq_missing | atom_error | labeled_missing | group_unclosed | group_reported =>
    simp_all [errorsOf_append]
  | alternatives_stop => exact ⟨[], .noAlternatives, rfl, trivial, rfl, id⟩
  | elements_stop => exact ⟨[], .noElements, rfl, trivial, rfl, id⟩
  | alt_some _ _ ih ih' =>
    rw [errorsOf_append, List.append_eq_nil_iff] at he
    obtain ⟨us, d, rfl, hd, hv, hx⟩ := ih he.1
    obtain ⟨vs, d', rfl, hd', rfl, hx'⟩ := ih' he.2
    obtain rfl := Option.some.inj hv
    have hend := not_or.mpr ⟨hx', Derivation.not_expects_of_append hx⟩
    exact ⟨us ++ vs, .alt d d', (List.append_assoc _ _ _).symm, ⟨hd, hd'⟩, rfl, hend⟩
  | alternatives_cons hp _ _ ih ih' =>
    simp only [errorsOf_append, errorsOf_pulls, List.nil_append, List.append_eq_nil_iff] at he
    obtain ⟨us, d, rfl, hd, rfl, hx⟩ := ih he.1
    obtain ⟨vs, d', rfl, hd', rfl, hx'⟩ := ih' he.2
    have hend := not_or.mpr ⟨hx', Derivation.not_expects_of_append hx⟩
    exact ⟨_, .alternatives _ hp d d', by simp, ⟨hd, hd'⟩, rfl, hend⟩
  | seq_some _ _ ih ih' =>
    rw [errorsOf_append, List.append_eq_nil_iff] at he
    obtain ⟨us, d, rfl, hd, hv, hx⟩ := ih he.1
    obtain ⟨vs, d', rfl, hd', rfl, hx'⟩ := ih' he.2
    obtain rfl := Option.some.inj hv
    have hend := not_or.mpr ⟨hx', Derivation.not_expects_of_append hx⟩
    exact ⟨us ++ vs, .seq d d', (List.append_assoc _ _ _).symm, ⟨hd, hd'⟩, rfl, hend⟩
  | elements_cons _ _ ih ih' =>
    rw [errorsOf_append, List.append_eq_nil_iff] at he
    obtain ⟨us, d, rfl, hd, hv, hx⟩ := ih he.1
    obtain ⟨vs, d', rfl, hd', rfl, hx'⟩ := ih' he.2
    obtain rfl := Option.some.inj hv
    have hend := not_or.mpr ⟨hx', Derivation.not_expects_of_append hx⟩
    exact ⟨us ++ vs, .elements d d', (List.append_assoc _ _ _).symm, ⟨hd, hd'⟩, rfl, hend⟩
  | single_plain _ hq hs ih =>
    obtain ⟨us, d, rfl, hd, hv, hx⟩ := ih he
    exact ⟨us, .plain d, rfl, hd, hv, not_or.mpr ⟨hq, not_or.mpr ⟨hs, hx⟩⟩⟩
  | @single_opt _ _ mark _ _ _ hk ih | @single_rep _ _ mark _ _ _ hk ih =>
    obtain ⟨us, d, rfl, hd, hv, hx⟩ := ih (by simpa [errorsOf_append] using he)
    have hm : mark.kind = .question ∨ mark.kind = .star := by simp [hk]
    have hn : d.takesSuffix = false :=
      Bool.eq_false_iff.mpr (mt (d.expects_iff_takesSuffix (Nat.zero_le 1) hm).mpr hx)
    obtain rfl := Option.some.inj hv
    refine ⟨us ++ [mark], .suffixed d mark hm, by simp, ⟨hn, hd⟩, ?_, id⟩
    simp [Phrase.whole, Derivation.tree, hk]
  | atom_node ht hequals hcolon =>
    exact ⟨[_], .node _ ht, rfl, trivial, rfl, not_or.mpr ⟨hequals, hcolon⟩⟩
  | atom_literal ht => exact ⟨[_], .literal _ ht, rfl, trivial, rfl, id⟩
  | labeled_some hl hc _ ih =>
    obtain ⟨us, d, rfl, hd, rfl, hx⟩ := ih (by simpa [errorsOf_append] using he)
    exact ⟨_, .labeled _ _ hl hc d, by simp, hd, rfl, hx⟩
  | group_closed ho _ hl hc ih =>
    obtain ⟨us, d, rfl, hd, hv, -⟩ := ih hl
    exact ⟨_, .group _ _ ho hc d, by simp, hd, hv, id⟩

/-- Alternatives are read up to where none follows. -/
theorem Run.look_ne_pipe {ts rest : List Token} {v : p.Value} {log : List Event}
    (h : Run finish p ts v rest log) (hp : p = .alt ∨ p = .alternatives) :
    (look finish rest).kind ≠ .pipe := by
  induction h with
  | alt_none h =>
    have hb := h.boundary_of_errors (h.errors_of_fails rfl)
    exact hb.kind_look_ne finish (by decide)
  | alternatives_stop hk => exact hk
  | alt_some _ _ _ ih' | alternatives_cons _ _ _ _ ih' => exact ih' (.inr rfl)
  | _ => simp at hp

theorem Run.alt_unique {ts rest rest' : List Token} {v v' : Option Rule} {log log' : List Event}
    (h : Run finish .alt ts v rest log) (h' : Run finish .alt ts v' rest' log') :
    v = v' ∧ rest = rest' ∧ log = log' := by
  obtain ⟨_, he⟩ := h.gives
  obtain ⟨_, he'⟩ := h'.gives
  obtain ⟨hv, hrest, -, hlog⟩ := Reply.mk.inj (he.symm.trans he')
  exact ⟨hv, hrest, hlog⟩

end CstGrammar.Parser
