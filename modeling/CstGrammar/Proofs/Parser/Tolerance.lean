import CstGrammar.Proofs.Parser.Acceptance
import CstGrammar.Proofs.Parser.Errors

namespace CstGrammar

namespace Parser

/-- Whether nothing longer at the start of the tokens can be derived. -/
structure Phrase.Longest (p : Phrase) (ts us : List Token) : Prop where
  starts : us <+: ts
  derivable : Nonempty (Derivation p us)
  longest : ∀ vs, vs <+: ts → Nonempty (Derivation p vs) → vs.length ≤ us.length

namespace Phrase.Longest

variable {p : Phrase} {ts us vs : List Token}

theorem unique (h : p.Longest ts us) (h' : p.Longest ts vs) : us = vs := by
  have hle := h'.longest us h.starts h.derivable
  exact (List.prefix_of_prefix_length_le h.starts h'.starts hle).eq_of_length_le
    (h.longest vs h'.starts h'.derivable)

theorem exists_of_derivable {us : List Token} (hs : us <+: ts) (hd : Nonempty (Derivation p us)) :
    ∃ vs, p.Longest ts vs := by
  by_cases h : ∀ vs, vs <+: ts → Nonempty (Derivation p vs) → vs.length ≤ us.length
  · exact ⟨us, hs, hd, h⟩
  · simp only [not_forall, Nat.not_le] at h
    obtain ⟨vs, hv, he, hlt⟩ := h
    have hle := hv.length_le
    exact exists_of_derivable hv he
termination_by ts.length - us.length

end Phrase.Longest

theorem Derivation.tree_unique {us : List Token} (d e : Derivation .alt us) (hd : d.Innermost)
    (he : e.Innermost) : d.tree = e.tree := by
  have hb : Phrase.alt.Ends .start [] := Phrase.ends_of_boundary .alt (.inl rfl)
  obtain ⟨_, h, -⟩ := d.run hd hb (absurd · (by decide))
  obtain ⟨_, h', -⟩ := e.run he hb (absurd · (by decide))
  exact Option.some.inj (h.alt_unique h').1

/-- What stops the parser behind a derivation is not the start of a longer one. -/
theorem Derivation.not_derivable_append {us more : List Token} {t : Token}
    (d : Derivation .alt us) (hd : d.Innermost) (hx : ¬ d.Expects t.kind) (hp : t.kind ≠ .pipe)
    (hr : startsRule (t :: more) = false) : ¬ Nonempty (Derivation .alt (us ++ t :: more)) := by
  rintro ⟨e⟩
  obtain ⟨e, he⟩ := e.exists_innermost
  have hb : Phrase.alt.Ends .start [] := Phrase.ends_of_boundary .alt (.inl rfl)
  have hread : ∃ log, Run .start .alt (us ++ t :: more) (some d.tree) (t :: more) log ∧
      errorsOf log = [] := d.run_of_not_expects hd hx (fun _ ↦ hp) (fun _ ↦ hr)
  obtain ⟨_, h, -⟩ := hread
  obtain ⟨_, h', -⟩ := e.run he hb (absurd · (by decide))
  rw [List.append_nil] at h'
  exact List.cons_ne_nil _ _ (h.alt_unique h').2.1

theorem startsRule_eq_false_iff {t : Token} {ts : List Token}
    (hs : startsDefinition (t :: ts) = false) :
    startsRule (t :: ts) = false ↔ t.kind ∉ [Token.Kind.node, .literal, .lparen, .error] := by
  cases hk : t.kind <;> simp [startsRule, hk, hs]

/-- The tokens at which the parser stops without an error. All that is left of the definition is
dropped then. -/
def Tolerated (us : List Token) (t : Token) : Prop :=
  t.kind ∈ [Token.Kind.equals, .star, .question, .rparen] ∨ t.kind = .colon ∧ ¬ EndsInName us

theorem Tolerated.kind_not_mem {us : List Token} {t : Token} (h : Tolerated us t) :
    t.kind ∉ [Token.Kind.node, .literal, .lparen, .error] ∧ t.kind ≠ .pipe := by
  rcases h with h | ⟨h, -⟩
  · generalize t.kind = k at h
    revert k
    decide
  · simp [h]

namespace Clause

variable {finish : Location} {c : Clause}

/-- Without an error, what the parser makes of the body can be derived, and the next token is none
with which that goes on. -/
theorem derivation_of_clean (he : (c.entry finish).errors = []) :
    ∃ us, ∃ d : Derivation .alt us, us <+: c.body ∧ d.Innermost ∧
      (c.entry finish).rule = some d.tree ∧ ∀ t left, c.body = us ++ t :: left →
        t.kind ∉ [Token.Kind.node, .literal, .lparen, .error] ∧ t.kind ≠ .pipe ∧
          ¬ d.Expects t.kind := by
  have hrun := c.run finish
  rw [← c.errorsOf_log_reply] at he
  obtain ⟨us, d, hts, hd, hv, hx⟩ := hrun.derivation he
  have hstart := hrun.startsRule_rest trivial he
  have hpipe := hrun.look_ne_pipe (.inl rfl)
  have hnext : resume (c.reply finish).rest = c.next := hrun.reach.resume_eq.symm.trans c.resume_eq
  have hrest : (c.reply finish).rest = stretch (c.reply finish).rest ++ c.next :=
    (stretch_append_resume _).symm.trans (congrArg (stretch (c.reply finish).rest ++ ·) hnext)
  have hboth : c.body ++ c.next = (us ++ stretch (c.reply finish).rest) ++ c.next := by
    rw [List.append_assoc]
    exact hts.trans (congrArg (us ++ ·) hrest)
  have hbody := List.append_cancel_right hboth
  refine ⟨us, d, ⟨_, hbody.symm⟩, hd, hv, fun t left hb ↦ ?_⟩
  have hleft : stretch (c.reply finish).rest = t :: left :=
    List.append_cancel_left (hbody.symm.trans hb)
  rw [hleft] at hrest
  rw [hrest] at hstart hpipe hx
  have hs : startsDefinition (t :: (left ++ c.next)) = false :=
    c.startsDefinition_eq_false hb (List.cons_ne_nil t left)
  exact ⟨(startsRule_eq_false_iff hs).mp hstart, hpipe, hx⟩

/-- What the parser reads without errors is the longest that can be derived. -/
theorem longest_of_clean (he : (c.entry finish).errors = []) :
    ∃ us, ∃ d : Derivation .alt us, Phrase.alt.Longest c.body us ∧ d.Innermost ∧
      (c.entry finish).rule = some d.tree ∧
      ∀ t left, c.body = us ++ t :: left → t.kind ≠ .eof → Tolerated us t := by
  obtain ⟨us, d, hs, hd, hv, hstop⟩ := derivation_of_clean he
  refine ⟨us, d, ⟨hs, ⟨d⟩, fun vs hvs hder ↦ ?_⟩, hd, hv, fun t left hb hne ↦ ?_⟩
  · by_contra hlt
    obtain ⟨more, rfl⟩ := List.prefix_of_prefix_length_le hs hvs (Nat.le_of_not_le hlt)
    obtain ⟨left, hb⟩ := hvs
    cases more with
    | nil => simp at hlt
    | cons t more =>
      rw [List.append_assoc] at hb
      obtain ⟨hk, hp, hx⟩ := hstop t (more ++ left) hb.symm
      have hn : t.kind ≠ .node := fun h ↦ hk (h ▸ List.mem_cons_self)
      have hr := (startsRule_eq_false_iff (Parser.startsDefinition_eq_false more hn)).mpr hk
      exact d.not_derivable_append hd hx hp hr hder
  · obtain ⟨hk, hp, hx⟩ := hstop t left hb
    by_cases hc : t.kind = .colon
    · rw [hc, d.expects_iff_endsInName (.inr rfl)] at hx
      exact .inr ⟨hc, hx⟩
    · refine .inl ?_
      cases h : t.kind <;> simp_all

theorem not_endsInName_of_equals {us left : List Token} {t : Token}
    (hb : c.body = us ++ t :: left) (ht : t.kind = .equals) : ¬ EndsInName us := by
  rintro ⟨u, hu, hk⟩
  obtain ⟨us, rfl⟩ := List.getLast?_eq_some_iff.mp hu
  rw [List.append_assoc] at hb
  have hs : startsDefinition (u :: t :: (left ++ c.next)) = false :=
    c.startsDefinition_eq_false hb (List.cons_ne_nil _ _)
  simp [startsDefinition, hk, ht] at hs

theorem not_expects_of_tolerated {us left : List Token} {t : Token}
    (hl : Phrase.alt.Longest c.body us) (hb : c.body = us ++ t :: left) (ht : Tolerated us t)
    (d : Derivation .alt us) : ¬ d.Expects t.kind := by
  intro hx
  have hname : t.kind = .equals ∨ t.kind = .colon → EndsInName us :=
    fun hk ↦ (d.expects_iff_endsInName hk).mp hx
  have hmark : ¬ (t.kind = .question ∨ t.kind = .star) := by
    intro hm
    have hle := hl.longest (us ++ [t]) ⟨left, by simp [hb]⟩ (d.nonempty_of_expects hm hx)
    rw [List.length_append, List.length_singleton] at hle
    omega
  rcases ht with hk | ⟨hk, hn⟩
  · simp only [List.mem_cons, List.not_mem_nil, or_false] at hk
    rcases hk with hk | hk | hk | hk
    · exact not_endsInName_of_equals hb hk (hname (.inl hk))
    · exact hmark (.inr hk)
    · exact hmark (.inl hk)
    · have hkind := Derivation.kind_of_expects hx
      simp [hk] at hkind
  · exact hn (hname (.inr hk))

/-- A definition has no error if the parser can stop behind the longest part of its body that can
be derived. -/
theorem clean_of_longest {us : List Token} (hl : Phrase.alt.Longest c.body us)
    (ht : ∀ t left, c.body = us ++ t :: left → Tolerated us t) : (c.entry finish).errors = [] := by
  obtain ⟨d⟩ := hl.derivable
  obtain ⟨d, hd⟩ := d.exists_innermost
  obtain ⟨left, hb⟩ := hl.starts
  have hread : ∃ log, Run finish .alt (us ++ (left ++ c.next)) (some d.tree) (left ++ c.next) log ∧
      errorsOf log = [] := by
    cases left with
    | nil => exact d.run hd (Phrase.ends_of_boundary .alt c.boundary_next) (absurd · (by decide))
    | cons t left =>
      have hs : startsDefinition (t :: (left ++ c.next)) = false :=
        c.startsDefinition_eq_false hb.symm (List.cons_ne_nil t left)
      have htol := ht t left hb.symm
      have hx := not_expects_of_tolerated hl hb.symm htol d
      have hr := (startsRule_eq_false_iff hs).mpr htol.kind_not_mem.1
      exact d.run_of_not_expects hd hx (fun _ ↦ htol.kind_not_mem.2) (fun _ ↦ hr)
  obtain ⟨log, hrun, hlog⟩ := hread
  rw [← List.append_assoc, hb] at hrun
  obtain ⟨-, -, hlogs⟩ := (c.run finish).alt_unique hrun
  rw [← c.errorsOf_log_reply, hlogs, hlog]

/-- A definition has an error if nothing of its body can be derived, or if the parser cannot stop
behind the longest part that can. -/
theorem errors_ne_nil_iff (hne : ∀ t ∈ c.body, t.kind ≠ .eof) : (c.entry finish).errors ≠ [] ↔
    (∀ us, us <+: c.body → ¬ Nonempty (Derivation .alt us)) ∨
    ∃ us t left, Phrase.alt.Longest c.body us ∧ c.body = us ++ t :: left ∧ ¬ Tolerated us t := by
  constructor
  · intro he
    by_cases hder : ∃ us, us <+: c.body ∧ Nonempty (Derivation .alt us)
    · obtain ⟨us, hs, hd⟩ := hder
      obtain ⟨vs, hl⟩ := Phrase.Longest.exists_of_derivable hs hd
      have hstop := mt (clean_of_longest hl) he
      simp only [not_forall] at hstop
      obtain ⟨t, left, hb, ht⟩ := hstop
      exact .inr ⟨vs, t, left, hl, hb, ht⟩
    · exact .inl fun us hs hd ↦ hder ⟨us, hs, hd⟩
  · intro hcases he
    obtain ⟨us, d, hl, -, -, hstop⟩ := longest_of_clean he
    rcases hcases with hnone | ⟨vs, t, left, hl', hb, ht⟩
    · exact hnone us hl.starts hl.derivable
    · obtain rfl := hl.unique hl'
      exact ht (hstop t left hb (hne t (by simp [hb])))

end Clause

end Parser

namespace Parse

open CstGrammar.Parser

/-- What passes without an error: all that is in front of the first definition, and in a definition
all that is behind the longest part that can be derived, if the parser tolerates its first token. -/
theorem ofSource_silent (source : String) :
    let s := TokenStream.ofSource source
    let p := ofSource source
    let cs := clauses s.tokens
    (stretch s.tokens ++ cs.flatMap Clause.tokens = s.tokens ∧
      p.grammar = (ofTokens ⟨resume s.tokens, s.finish⟩).grammar ∧
      p.errors = (ofTokens ⟨resume s.tokens, s.finish⟩).errors) ∧
    (entries s.finish s.tokens = cs.map (Clause.entry s.finish) ∧
      p.errors.filter (!·.isDuplicate) = cs.flatMap (fun c ↦ (c.entry s.finish).errors)) ∧
    ∀ c ∈ cs,
      ((c.entry s.finish).errors ≠ [] ↔
        (∀ us, us <+: c.body → ¬ Nonempty (Derivation .alt us)) ∨
        ∃ us t left, Phrase.alt.Longest c.body us ∧ c.body = us ++ t :: left ∧
          ¬ Tolerated us t) ∧
      ((c.entry s.finish).errors = [] → ∃ us, Phrase.alt.Longest c.body us ∧
        (∃ d : Derivation .alt us, d.Innermost) ∧
        ∀ d : Derivation .alt us, d.Innermost → (c.entry s.finish).rule = some d.tree) := by
  intro s p cs
  have hentries : entries s.finish s.tokens = cs.map (Clause.entry s.finish) :=
    entries_eq_map s.tokens
  have hresume : entries s.finish (resume s.tokens) = entries s.finish s.tokens := by
    rw [entries_eq_map, entries_eq_map, clauses_resume]
  refine ⟨⟨stretch_append_flatMap_clauses s.tokens, ?_, ?_⟩, ⟨hentries, ?_⟩, fun c hc ↦ ?_⟩
  · rw [grammar_ofTokens, hresume]
    exact grammar_ofTokens s
  · rw [errors_ofTokens, hresume]
    exact errors_ofTokens s
  · rw [← List.flatMap_map, ← hentries]
    exact filter_errors_ofTokens s
  · have hne : ∀ t ∈ c.body, t.kind ≠ .eof := by
      intro t ht
      have hm : t ∈ c.tokens ++ c.next := by simp [Clause.tokens, ht]
      exact kind_ne_eof_of_mem_ofSource ((suffix_of_mem_clauses hc).subset hm)
    refine ⟨Clause.errors_ne_nil_iff hne, fun he ↦ ?_⟩
    obtain ⟨us, d, hl, hd, hr, -⟩ := Clause.longest_of_clean he
    refine ⟨us, hl, ⟨d, hd⟩, fun e hin ↦ ?_⟩
    rw [hr, d.tree_unique e hd hin]

end Parse

end CstGrammar
