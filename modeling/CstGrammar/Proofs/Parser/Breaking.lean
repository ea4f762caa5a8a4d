import CstGrammar.Proofs.Parser.Reprint
import CstGrammar.Proofs.Parser.Results

namespace CstGrammar.Parser

open Rule

/-- The rule is read at the head of the tokens with one error, which leaves `rest`. -/
def Stumbles (finish : Location) (ts rest : List Token) (rule : Rule) :
    (needed : Precedence) → Prop
  | .alternation => ∃ v log, Run finish .alt ts (some v) rest log ∧ v.bare = rule.bare ∧
      (errorsOf log).length = 1
  | .sequence => ∃ v log, Run finish .seq ts (some v) rest log ∧ v.bare = rule.bare ∧
      (errorsOf log).length = 1
  | .element => ∃ v log, Run finish .single ts (some v) rest log ∧ v.bare = rule.bare ∧
      (errorsOf log).length = 1
  | .operand => ∃ v log, Run finish .atom ts (some v) rest log ∧ v.bare = rule.bare ∧
      (errorsOf log).length = 1

section

variable {finish : Location} {ts rest : List Token} {rule : Rule}

theorem Stumbles.toElement (hb : Boundary rest) (h : Stumbles finish ts rest rule .operand) :
    Stumbles finish ts rest rule .element := by
  obtain ⟨v, log, hrun, hv, hl⟩ := h
  have hq : (look finish rest).kind ≠ .question := hb.kind_look_ne finish (by decide)
  have hs : (look finish rest).kind ≠ .star := hb.kind_look_ne finish (by decide)
  exact ⟨v, log, .single_plain hrun hq hs, hv, hl⟩

theorem Stumbles.toSequence (hb : Boundary rest) (h : Stumbles finish ts rest rule .element) :
    Stumbles finish ts rest rule .sequence := by
  obtain ⟨v, log, hrun, hv, hl⟩ := h
  have hs := Run.seq_some hrun (.elements_stop hb.startsRule_eq)
  exact ⟨v, log ++ [], hs, hv, by rwa [List.append_nil]⟩

theorem Stumbles.toAlternation (hb : Boundary rest) (h : Stumbles finish ts rest rule .sequence) :
    Stumbles finish ts rest rule .alternation := by
  obtain ⟨v, log, hrun, hv, hl⟩ := h
  have hs := Run.alt_some hrun (.alternatives_stop (hb.kind_look_ne finish (by decide)))
  exact ⟨v, log ++ [], hs, hv, by rwa [List.append_nil]⟩

theorem Stumbles.mono (hb : Boundary rest) {own needed : Precedence}
    (h : Stumbles finish ts rest rule own) (hr : needed.rank ≤ own.rank) :
    Stumbles finish ts rest rule needed :=
  Precedence.of_rank_le (toElement hb) (toSequence hb) (toAlternation hb) hr h

end

section

variable {finish : Location} {cs rest : List Token} {rule : Rule}

theorem startsRule_closers (hc : ∀ t ∈ cs, t.kind = .rparen) (hb : Boundary rest) :
    startsRule (cs ++ rest) = false := by
  cases cs with
  | nil => exact hb.startsRule_eq
  | cons t cs => simp [startsRule, hc t List.mem_cons_self]

theorem resume_closers (hc : ∀ t ∈ cs, t.kind = .rparen) (hb : Boundary rest) :
    resume (cs ++ rest) = rest := by
  induction cs with
  | nil => exact hb.resume_eq
  | cons t cs ih =>
    have hs : startsDefinition (t :: (cs ++ rest)) = false :=
      startsDefinition_eq_false _ (by simp [hc t List.mem_cons_self])
    rw [List.cons_append, resume_cons hs]
    exact ih (fun u hu ↦ hc u (List.mem_cons_of_mem t hu))

/-- A closing parenthesis makes no difference where reading has stumbled before. -/
theorem stumbles_encloseWords {own needed : Precedence} {ws : List Word} {us : List Token}
    (hb : Boundary rest)
    (h : ∀ us cs : List Token, us.map Token.word = ws → (∀ t ∈ cs, t.kind = .rparen) →
      Stumbles finish (us ++ (cs ++ rest)) rest rule own)
    (hu : us.map Token.word = Precedence.encloseWords own needed ws)
    (hc : ∀ t ∈ cs, t.kind = .rparen) :
    Stumbles finish (us ++ (cs ++ rest)) rest rule needed := by
  rcases exists_of_encloseWords hu with ⟨opening, vs, closing, rfl, ho, hcl, hv⟩ | ⟨hr, hv⟩
  · have hcs : ∀ t ∈ closing :: cs, t.kind = .rparen := List.forall_mem_cons.mpr ⟨hcl, hc⟩
    have ha : Stumbles finish (vs ++ (closing :: cs ++ rest)) rest rule .alternation :=
      (h vs (closing :: cs) hv hcs).mono hb (Nat.zero_le _)
    obtain ⟨v, log, hrun, hv', hl⟩ := ha
    have hne : errorsOf log ≠ [] := by
      intro hnil
      simp [hnil] at hl
    have hg := Run.group_reported ho hrun hne
    have hs : Stumbles finish (opening :: (vs ++ (closing :: cs ++ rest))) rest rule .operand :=
      ⟨v, _, hg, hv', by simpa [errorsOf_append] using hl⟩
    have heq : opening :: (vs ++ [closing]) ++ (cs ++ rest) =
        opening :: (vs ++ (closing :: cs ++ rest)) := by simp
    rw [heq]
    exact hs.mono hb needed.rank_le_operand
  · exact (h us cs hv hc).mono hb hr

/-- A rule without placeholders is read as it is in front of more of a sequence. -/
theorem run_single_of_isComplete (hp : rule.hasParts 2 = true) (hc : rule.isComplete = true)
    {us : List Token} (hu : us.map Token.word = rule.wordsAt .element) {rest : List Token}
    (hk : (look finish rest).kind ∈ [Token.Kind.node, .literal, .lparen]) :
    ∃ v log, Run finish .single (us ++ rest) (some v) rest log ∧ v.bare = rule.bare ∧
      errorsOf log = [] := by
  obtain ⟨d, hd, ht⟩ := spells_wordsAt (hasParts_mono (by decide) hp) hc hu
  rw [collapse_eq_self hp] at ht
  have he : Phrase.single.Ends finish rest := by
    refine ⟨fun hm ↦ ?_, fun hl ↦ absurd hl (by decide)⟩
    generalize (look finish rest).kind = k at hk hm
    revert k
    decide
  have hs : (look finish rest).kind ∉ [Token.Kind.question, .star] := by
    generalize (look finish rest).kind = k at hk
    revert k
    decide
  obtain ⟨log, hrun, hl⟩ := d.run hd he (fun _ _ ↦ hs)
  exact ⟨d.tree, log, hrun, ht, hl⟩

theorem run_seq_of_isComplete (hp : rule.hasParts 2 = true) (hc : rule.isComplete = true)
    {us : List Token} (hu : us.map Token.word = rule.wordsAt .sequence) {pipe : Token}
    (hk : pipe.kind = .pipe) (rest : List Token) :
    ∃ v log, Run finish .seq (us ++ pipe :: rest) (some v) (pipe :: rest) log ∧
      v.bare = rule.bare ∧ errorsOf log = [] := by
  obtain ⟨d, hd, ht⟩ := spells_wordsAt (hasParts_mono (by decide) hp) hc hu
  rw [collapse_eq_self hp] at ht
  have he : Phrase.seq.Ends finish (pipe :: rest) := by
    refine ⟨?_, fun _ ↦ by simp [startsRule, hk]⟩
    rw [look_cons, hk]
    decide
  obtain ⟨log, hrun, hl⟩ := d.run hd he (absurd · (by decide))
  exact ⟨d.tree, log, hrun, ht, hl⟩

theorem look_of_elements {rules : List Rule} (hne : rules ≠ []) {ws : List Token}
    (hw : ws.map Token.word = (rules.map (·.wordsAt .element)).flatten) (rest : List Token) :
    (look finish (ws ++ rest)).kind ∈ [Token.Kind.node, .literal, .lparen] := by
  match rules, hne with
  | r :: rs, _ =>
    obtain ⟨w, ws', hr, hk⟩ := @exists_head_wordsAt r .element (Nat.le_refl 2)
    rw [List.map_cons, List.flatten_cons, hr] at hw
    obtain ⟨t, ts, rfl, ht, -⟩ := List.map_eq_cons_iff.mp hw
    have ht' : t.kind = w.1 := congrArg Prod.fst ht
    rw [List.cons_append, look_cons, ht']
    exact hk

theorem exists_pipe_of_alternatives {parts : List (Option Rule)} (hne : parts ≠ [])
    {ws : List Token} (hw : ws.map Token.word = parts.flatMap
      (fun p ↦ (.pipe, "|") :: p.elim [] (·.wordsAt .sequence))) :
    ∃ pipe ws', ws = pipe :: ws' ∧ pipe.kind = .pipe := by
  match parts, hne with
  | part :: parts, _ =>
    obtain ⟨pipe, ws', rfl, hp, -⟩ := List.map_eq_cons_iff.mp hw
    exact ⟨pipe, ws', rfl, kind_of_word hp⟩

theorem stumbles_elements {init : List Rule} {last : Rule} (hb : Boundary rest)
    (hi : ∀ r ∈ init, r.hasParts 2 = true ∧ r.isComplete = true)
    (hlast : ∀ us cs : List Token, us.map Token.word = last.wordsAt .element →
      (∀ t ∈ cs, t.kind = .rparen) → Stumbles finish (us ++ (cs ++ rest)) rest last .element)
    {us : List Token}
    (hu : us.map Token.word = ((init ++ [last]).map (·.wordsAt .element)).flatten)
    (hc : ∀ t ∈ cs, t.kind = .rparen) :
    ∃ vs log, Run finish .elements (us ++ (cs ++ rest)) vs rest log ∧
      vs.map bare = (init ++ [last]).map bare ∧ (errorsOf log).length = 1 := by
  induction init generalizing us with
  | nil =>
    obtain ⟨v, log, hrun, hv, hl⟩ := hlast us cs (by simpa using hu) hc
    have h := Run.elements_cons hrun (.elements_stop hb.startsRule_eq)
    exact ⟨[v], log ++ [], h, by simp [hv], by rwa [List.append_nil]⟩
  | cons r init ih =>
    obtain ⟨hr, hi⟩ := List.forall_mem_cons.mp hi
    obtain ⟨us, ws, rfl, hu, hw⟩ := List.map_eq_append_iff.mp hu
    obtain ⟨vs, log', hmore, hvs, hl'⟩ := ih hi hw
    have hk : (look finish (ws ++ (cs ++ rest))).kind ∈ [Token.Kind.node, .literal, .lparen] :=
      look_of_elements (by simp) hw (cs ++ rest)
    obtain ⟨v, log, hrun, hv, hl⟩ := run_single_of_isComplete hr.1 hr.2 hu hk
    rw [List.append_assoc]
    refine ⟨v :: vs, log ++ log', .elements_cons hrun hmore, ?_, ?_⟩
    · simp only [List.cons_append, List.map_cons, hv, hvs]
    · rw [errorsOf_append, hl, List.nil_append, hl']

theorem stumbles_alternatives {init : List Rule} {part : Option Rule} (hb : Boundary rest)
    (hi : ∀ r ∈ init, r.hasParts 2 = true ∧ r.isComplete = true)
    (hpart : ∀ us cs : List Token, us.map Token.word = part.elim [] (·.wordsAt .sequence) →
      (∀ t ∈ cs, t.kind = .rparen) → ∃ v log, Run finish .seq (us ++ (cs ++ rest)) v rest log ∧
        v.map bare = part.map bare ∧ (errorsOf log).length = 1)
    {us : List Token}
    (hu : us.map Token.word = (init.map some ++ [part]).flatMap
      (fun p ↦ (.pipe, "|") :: p.elim [] (·.wordsAt .sequence)))
    (hc : ∀ t ∈ cs, t.kind = .rparen) :
    ∃ vs log, Run finish .alternatives (us ++ (cs ++ rest)) vs rest log ∧
      vs.map (Option.map bare) = (init.map some ++ [part]).map (Option.map bare) ∧
      (errorsOf log).length = 1 := by
  induction init generalizing us with
  | nil =>
    obtain ⟨pipe, us', rfl, hp, hu'⟩ := List.map_eq_cons_iff.mp hu
    obtain ⟨v, log, hrun, hv, hl⟩ := hpart us' cs (by simpa using hu') hc
    have hk : (look finish rest).kind ≠ .pipe := hb.kind_look_ne finish (by decide)
    have h := Run.alternatives_cons (kind_of_word hp) hrun (.alternatives_stop hk)
    exact ⟨[v], _, h, by simp [hv], by simp [errorsOf_append, hl]⟩
  | cons r init ih =>
    obtain ⟨hr, hi⟩ := List.forall_mem_cons.mp hi
    obtain ⟨pipe, us', rfl, hp, hu'⟩ := List.map_eq_cons_iff.mp hu
    obtain ⟨ns, ws, rfl, hns, hw⟩ := List.map_eq_append_iff.mp hu'
    obtain ⟨vs, log', hmore, hvs, hl'⟩ := ih hi hw
    obtain ⟨pipe', ws', rfl, hp'⟩ := exists_pipe_of_alternatives (by simp) hw
    obtain ⟨v, log, hrun, hv, hl⟩ :=
      run_seq_of_isComplete hr.1 hr.2 hns hp' (ws' ++ (cs ++ rest))
    have h := Run.alternatives_cons (kind_of_word hp) hrun hmore
    rw [List.cons_append, List.append_assoc]
    refine ⟨some v :: vs, _, h, ?_, ?_⟩
    · simp only [List.map_cons, List.cons_append, Option.map_some, hv, hvs]
    · simp [errorsOf_append, hl, hl']

/-- A rule that breaks off is read back up to its placeholder, where reading breaks off again. -/
theorem stumbles_of_cut (hcut : rule.Cut) (hp : rule.hasParts 2 = true) (hb : Boundary rest)
    {needed : Precedence} {us : List Token} (hu : us.map Token.word = rule.wordsAt needed)
    (hc : ∀ t ∈ cs, t.kind = .rparen) : Stumbles finish (us ++ (cs ++ rest)) rest rule needed := by
  induction hcut generalizing needed us cs with
  | @labeled label part loc _ ih =>
    rw [wordsAt_labeled] at hu
    refine stumbles_encloseWords hb (fun us cs hu hc ↦ ?_) hu hc
    obtain ⟨l, us', rfl, hl, hu'⟩ := List.map_eq_cons_iff.mp hu
    obtain ⟨colon, vs, rfl, hcolon, hv⟩ := List.map_eq_cons_iff.mp hu'
    apply Stumbles.toElement hb
    cases part with
    | none =>
      obtain rfl := List.map_eq_nil_iff.mp hv
      have h := @Run.labeled_missing finish _ _ _ (kind_of_word hl) (kind_of_word hcolon)
        (startsRule_closers hc hb)
      rw [resume_closers hc hb] at h
      exact ⟨_, _, h, by simp [value_of_word hl], by simp [errorsOf_append]⟩
    | some r =>
      rw [hasParts_labeled] at hp
      have hs : Stumbles finish (vs ++ (cs ++ rest)) rest r .element := ih r rfl hp hv hc
      obtain ⟨v, log, hrun, hv', hl'⟩ := hs
      have h := Run.labeled_some (kind_of_word hl) (kind_of_word hcolon) hrun
      exact ⟨_, _, h, by simp [value_of_word hl, hv'], by simpa [errorsOf_append] using hl'⟩
  | @seq init last hne hi hlast ih =>
    simp only [hasParts_seq, Bool.and_eq_true, decide_eq_true_eq, List.all_eq_true] at hp
    rw [wordsAt_seq] at hu
    refine stumbles_encloseWords hb (fun us cs hu hc ↦ ?_) hu hc
    have hlast2 : last.hasParts 2 = true := hp.2 last (by simp)
    have hall : ∀ s ∈ init, s.hasParts 2 = true ∧ s.isComplete = true :=
      fun s hs ↦ ⟨hp.2 s (List.mem_append_left _ hs), hi s hs⟩
    obtain ⟨r, init, rfl⟩ := List.exists_cons_of_ne_nil hne
    obtain ⟨hr, hinit⟩ := List.forall_mem_cons.mp hall
    obtain ⟨ns, ws, rfl, hns, hw⟩ := List.map_eq_append_iff.mp hu
    obtain ⟨vs, log', hmore, hvs, hl'⟩ :=
      stumbles_elements hb hinit (fun us cs hu hc ↦ ih hlast2 hu hc) hw hc
    obtain ⟨v, log, hrun, hv, hl⟩ :=
      run_single_of_isComplete hr.1 hr.2 hns (look_of_elements (by simp) hw (cs ++ rest))
    rw [List.append_assoc]
    refine ⟨_, _, .seq_some hrun hmore, ?_, by simp [errorsOf_append, hl, hl']⟩
    rw [sequence_eq_unwrapSeq, bare_unwrapSeq, List.map_cons, hv, hvs,
      unwrapSeq_of_ne_nil (by simp), bare_seq]
    rfl
  | @alt init part hne hi hpart ih =>
    simp only [hasParts_alt, Bool.and_eq_true, decide_eq_true_eq, List.all_eq_true] at hp
    rw [wordsAt_alt] at hu
    refine stumbles_encloseWords hb (fun us cs hu hc ↦ ?_) hu hc
    have hall : ∀ s ∈ init, s.hasParts 2 = true ∧ s.isComplete = true := by
      intro s hs
      have hm : some s ∈ init.map some ++ [part] := List.mem_append_left _ (List.mem_map_of_mem hs)
      exact ⟨hp.2 (some s) hm, hi s hs⟩
    have hlast : ∀ us cs : List Token, us.map Token.word = part.elim [] (·.wordsAt .sequence) →
        (∀ t ∈ cs, t.kind = .rparen) → ∃ v log, Run finish .seq (us ++ (cs ++ rest)) v rest log ∧
          v.map bare = part.map bare ∧ (errorsOf log).length = 1 := by
      intro us cs hu hc
      cases part with
      | none =>
        obtain rfl := List.map_eq_nil_iff.mp hu
        have h := @Run.seq_missing finish _ (startsRule_closers hc hb)
        rw [resume_closers hc hb] at h
        exact ⟨none, _, h, rfl, by simp⟩
      | some last =>
        have hs : Stumbles finish (us ++ (cs ++ rest)) rest last .sequence :=
          ih last rfl (hp.2 (some last) (by simp)) hu hc
        obtain ⟨v, log, hrun, hv, hl⟩ := hs
        exact ⟨some v, log, hrun, congrArg some hv, hl⟩
    obtain ⟨r, init, rfl⟩ := List.exists_cons_of_ne_nil hne
    obtain ⟨hr, hinit⟩ := List.forall_mem_cons.mp hall
    rw [List.map_cons, List.cons_append, List.map_cons, intercalate_cons, List.flatMap_map] at hu
    obtain ⟨ns, ws, rfl, hns, hw⟩ := List.map_eq_append_iff.mp hu
    obtain ⟨vs, log', hmore, hvs, hl'⟩ := stumbles_alternatives hb hinit hlast hw hc
    obtain ⟨pipe, ws', rfl, hpipe⟩ := exists_pipe_of_alternatives (by simp) hw
    obtain ⟨v, log, hrun, hv, hl⟩ :=
      run_seq_of_isComplete hr.1 hr.2 hns hpipe (ws' ++ (cs ++ rest))
    rw [List.append_assoc]
    refine ⟨_, _, .alt_some hrun hmore, ?_, by simp [errorsOf_append, hl, hl']⟩
    rw [alternation_eq_unwrapAlt, bare_unwrapAlt, List.map_cons, Option.map_some, hv, hvs,
      unwrapAlt_of_ne_nil (by simp), bare_alt]
    rfl

end

/-- What the parser gives for a rule is read back. -/
theorem Run.readsBack {finish : Location} {ts rest : List Token} {rule : Rule} {log : List Event}
    (h : Run finish .alt ts (some rule) rest log) (hn : ProperNames ts) : ReadsBack rule rule := by
  have hp : rule.hasParts 2 = true := Rule.Proper.hasParts (h.proper hn)
  rcases h.whole_or_breaksOff with hw | ⟨hb, -⟩
  · have hback := readsBack_of_isComplete (hasParts_mono (by decide) hp) hw
    rwa [collapse_eq_self hp] at hback
  · intro finish us rest hu hrest
    have hcut : rule.Cut := hb
    have hs : Stumbles finish (us ++ ([] ++ rest)) rest rule .alternation :=
      stumbles_of_cut hcut hp hrest hu nofun
    rw [hcut.isComplete_eq]
    exact hs

end CstGrammar.Parser
