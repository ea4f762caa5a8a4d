import CstGrammar.Proofs.Parser.Entries
import CstGrammar.Proofs.Parser.View

namespace CstGrammar.Parser

namespace Reader

variable {l : Lexer} {t : Token} {ts : List Token} {errors : ErrorList} {log : List Event}

/-- Whether the parser finds something as a phrase and goes on. -/
def Does : (p : Phrase) → Reader → p.Value → Reader → Prop
  | .alt, r, v, r' => r.alt = some (.ofRule? v, r')
  | .alternatives, r, v, r' => r.alternatives = some (v, r')
  | .seq, r, v, r' => r.seq = some (.ofRule? v, r')
  | .elements, r, v, r' => r.elements = some (v, r')
  | .single, r, v, r' => r.single = some (.ofRule? v, r')
  | .atom, r, v, r' => r.atom = some (.ofRule? v, r')

/-- Where no rule starts, nothing is done. -/
theorem atom_view_of_not_startsRule (hs : ts <:+ l.stream.tokens) (h : startsRule ts = false) :
    (view l ts errors log).atom = some (.nothing, view l ts errors log) := by
  rw [atom.eq_def, token_view hs, next_view hs]
  cases ts with
  | nil => rfl
  | cons t ts =>
    rw [look_cons, List.tail_cons]
    cases ht : t.kind with
    | node =>
      have hstarts : Parser.startsDefinition (t :: ts) = true := by simpa [startsRule, ht] using h
      simp [((startsDefinition_cons t ts).mp hstarts).2]
    | literal | lparen | error => simp [startsRule, ht] at h
    | eof | equals | star | pipe | question | colon | rparen => rfl

theorem single_view_of_not_startsRule (hs : ts <:+ l.stream.tokens) (h : startsRule ts = false) :
    (view l ts errors log).single = some (.nothing, view l ts errors log) := by
  rw [single, atom_view_of_not_startsRule hs h]
  rfl

theorem suffix_of_cons_cons {label colon : Token} (hs : label :: colon :: ts <:+ l.stream.tokens) :
    ts <:+ l.stream.tokens :=
  ((List.suffix_cons colon ts).trans (List.suffix_cons label _)).trans hs

theorem atom_view_of_label {label colon : Token} (hs : label :: colon :: ts <:+ l.stream.tokens)
    (hl : label.kind = .node) (hc : colon.kind = .colon) :
    (view l (label :: colon :: ts) errors log).atom =
      (view l ts errors (log ++ pulls l.stream.finish 2 (label :: colon :: ts))).single.bind
        (attach label) := by
  have htoken : (view l (label :: colon :: ts) errors log).token = label := token_view hs
  have hnext : (view l (label :: colon :: ts) errors log).next = colon := next_view hs
  rw [atom_of_label (htoken.symm ▸ hl) (hnext.symm ▸ hc), labeled_eq, advance_view hs,
    advance_view ((List.suffix_cons _ _).trans hs), htoken, List.append_assoc]
  rfl

/-- A group is what stands in it, closed. -/
theorem atom_view_of_opening {opening : Token} {v : Option Rule} {r' : Reader}
    (hs : opening :: ts <:+ l.stream.tokens) (ho : opening.kind = .lparen)
    (h : ts <:+ l.stream.tokens →
      Does .alt (view l ts errors (log ++ pulls l.stream.finish 1 (opening :: ts))) v r') :
    (view l (opening :: ts) errors log).atom = closeGroup errors.length (.ofRule? v, r') := by
  have htoken : (view l (opening :: ts) errors log).token = opening := token_view hs
  rw [atom_of_opening (htoken.symm ▸ ho), group_eq, advance_view hs,
    h ((List.suffix_cons opening ts).trans hs)]
  rfl

/-- Whether there are new errors is told by their number. -/
theorem length_errors_lt_iff (rest : List Token) (found : ErrorList) :
    errors.length < (view l rest (errors ++ found) log).errors.length ↔ found ≠ [] := by
  change errors.length < (errors ++ found).length ↔ _
  rw [List.length_append, ← List.length_pos_iff]
  omega

end Reader

open Reader

/-- The parser at work does what the steps tell, and adds the errors in their log to its own. -/
theorem Run.does {l : Lexer} {p : Phrase} {ts rest : List Token} {v : p.Value}
    {errors : ErrorList} {log log' : List Event} (h : Run l.stream.finish p ts v rest log')
    (hs : ts <:+ l.stream.tokens) :
    Does p (view l ts errors log) v (view l rest (errors ++ errorsOf log') (log ++ log')) := by
  induction h generalizing errors log with
  | alt_none h ih =>
    rw [Does, Reader.alt, ih hs]
    rfl
  | alt_some h h' ih ih' =>
    rw [errorsOf_append, ← List.append_assoc, ← List.append_assoc]
    exact alt_of_found (ih hs) (ih' (h.suffix.trans hs))
  | @alternatives_stop ts hk =>
    rw [Does, Reader.alternatives, token_view hs, if_neg hk, errorsOf_nil, List.append_nil,
      List.append_nil]
  | @alternatives_cons pipe ts head _ _ _ log' _ hk h h' ih ih' =>
    have hts : ts <:+ l.stream.tokens := (List.suffix_cons pipe ts).trans hs
    have hpipe : (view l (pipe :: ts) errors log).token.kind = .pipe := by
      rw [token_view hs]
      exact hk
    rw [errorsOf_append, errorsOf_append, errorsOf_pulls, List.nil_append, ← List.append_assoc,
      ← List.append_assoc, ← List.append_assoc]
    refine alternatives_of_pipe hpipe (alternative_of_seq ?_) (ih' (h.suffix.trans hts))
    rw [advance_view hs]
    exact ih hts
  | @seq_missing ts h =>
    rw [Does, Reader.seq, single_view_of_not_startsRule hs h]
    simp [fail_view hs, Outcome.ofRule?]
  | seq_none h ih =>
    rw [Does, Reader.seq, ih hs]
    rfl
  | seq_some h h' ih ih' =>
    rw [errorsOf_append, ← List.append_assoc, ← List.append_assoc]
    exact seq_of_found (ih hs) (ih' (h.suffix.trans hs))
  | elements_stop h =>
    rw [Does, Reader.elements, single_view_of_not_startsRule hs h, errorsOf_nil, List.append_nil,
      List.append_nil]
    rfl
  | elements_none h ih =>
    rw [Does, Reader.elements, ih hs]
    rfl
  | elements_cons h h' ih ih' =>
    rw [errorsOf_append, ← List.append_assoc, ← List.append_assoc]
    exact elements_of_found (ih hs) (ih' (h.suffix.trans hs))
  | single_none h ih =>
    rw [Does, Reader.single, ih hs]
    rfl
  | @single_plain _ rule rest log' h hq hr ih =>
    let r := view l rest (errors ++ errorsOf log') (log ++ log')
    have hplain : r.suffixed rule = (rule, r) := by
      rw [suffixed, token_view (h.suffix.trans hs)]
      split
      · next hk => exact absurd hk hq
      · next hk => exact absurd hk hr
      · rfl
    rw [Does, single_of_found (ih hs), hplain]
    rfl
  | single_opt h hk ih | single_rep h hk ih =>
    have hrest := h.suffix.trans hs
    rw [Does, single_of_found (ih hs), suffixed, token_view hrest, look_cons, hk,
      advance_view hrest, errorsOf_append, errorsOf_pulls, List.append_nil, List.append_assoc]
    rfl
  | atom_node ht he hc =>
    rw [Does, Reader.atom.eq_def, token_view hs, next_view hs, look_cons, List.tail_cons, ht]
    simp [advance_view hs, Outcome.ofRule?]
  | atom_literal ht =>
    rw [Does, Reader.atom.eq_def, token_view hs, look_cons, ht]
    simp [advance_view hs, Outcome.ofRule?]
  | @atom_error t ts ht =>
    have hstarts : startsDefinition (t :: ts) = false := startsDefinition_eq_false ts (by simp [ht])
    rw [Does, Reader.atom.eq_def, token_view hs, look_cons, ht, ← resume_cons hstarts]
    simp [fail_view hs, Outcome.ofRule?]
  | labeled_missing hl hc h =>
    have hts := suffix_of_cons_cons hs
    rw [Does, atom_view_of_label hs hl hc, single_view_of_not_startsRule hts h]
    simp [attach, fail_view hts, Outcome.ofRule?, errorsOf_append]
  | @labeled_some _ _ _ rule _ _ hl hc h ih =>
    rw [Does, atom_view_of_label hs hl hc, ih (suffix_of_cons_cons hs), errorsOf_append,
      errorsOf_pulls, List.nil_append, List.append_assoc]
    cases rule <;> rfl
  | group_none ho h ih =>
    rw [Does, atom_view_of_opening hs ho ih, errorsOf_append, errorsOf_pulls, List.nil_append,
      List.append_assoc]
    rfl
  | group_reported ho h hl ih =>
    rw [Does, atom_view_of_opening hs ho ih, Outcome.ofRule?, closeGroup,
      if_pos ((length_errors_lt_iff _ _).mpr hl), tell_view]
    simp [errorsOf_append]
  | group_closed ho h hl hc ih =>
    have hrest := h.suffix.trans ((List.suffix_cons _ _).trans hs)
    rw [Does, atom_view_of_opening hs ho ih, Outcome.ofRule?, closeGroup,
      if_neg (mt (length_errors_lt_iff _ _).mp (not_not_intro hl)), token_view hrest, look_cons,
      if_pos hc, advance_view hrest]
    simp [errorsOf_append]
  | group_unclosed ho h hl hc ih =>
    have hrest := h.suffix.trans ((List.suffix_cons _ _).trans hs)
    rw [Does, atom_view_of_opening hs ho ih, Outcome.ofRule?, closeGroup,
      if_neg (mt (length_errors_lt_iff _ _).mp (not_not_intro hl)), token_view hrest, if_neg hc,
      fail_view hrest]
    simp [errorsOf_append, hl]

section Definitions

variable {l : Lexer} {ts : List Token} {errors : ErrorList} {log : List Event}

theorem definition_view_of_run {name equals : Token} {rest : List Token} {v : Option Rule}
    {log' : List Event} (hs : name :: equals :: ts <:+ l.stream.tokens) (hn : name.kind = .node)
    (he : equals.kind = .equals) (h : Run l.stream.finish .alt ts v rest log') :
    (view l (name :: equals :: ts) errors log).definition = some (v.map (name, ·),
      view l rest (errors ++ errorsOf log')
        (log ++ (pulls l.stream.finish 2 (name :: equals :: ts) ++ log'))) := by
  have hstarts : startsDefinition (name :: equals :: ts) = true := by
    simp [startsDefinition, hn, he]
  have htaken : (view l (name :: equals :: ts) errors log).advance.advance =
      view l ts errors (log ++ pulls l.stream.finish 2 (name :: equals :: ts)) := by
    rw [advance_view hs, advance_view ((List.suffix_cons _ _).trans hs), List.append_assoc]
    rfl
  rw [definition, startsDefinition_view hs, if_pos hstarts, htaken, h.does (suffix_of_cons_cons hs),
    token_view hs, List.append_assoc]
  cases v <;> rfl

theorem definition_view_of_skipped {t : Token} (hs : t :: ts <:+ l.stream.tokens)
    (hstarts : startsDefinition (t :: ts) = false) : (view l (t :: ts) errors log).definition =
      some (none, view l (resume ts) errors (log ++ recovery l.stream.finish (t :: ts))) := by
  rw [definition, startsDefinition_view hs, if_neg (by simp [hstarts]), synchronize_view hs,
    resume_cons hstarts]
  rfl

theorem loop_grammarTurn_cons {t : Token} {x : Option (Token × Rule) × Reader} {g : Grammar}
    (hs : t :: ts <:+ l.stream.tokens) (h : (view l (t :: ts) errors log).definition = some x) :
    loop grammarTurn (g, view l (t :: ts) errors log) = loop grammarTurn (enter g x) := by
  apply loop_of_again
  rw [grammarTurn, isEof_token_view hs, h]
  rfl

theorem loop_grammarTurn_view (hs : ts <:+ l.stream.tokens) (g : Grammar) :
    loop grammarTurn (g, view l ts errors log) =
      some ((assemble g (passages l.stream.finish ts)).grammar,
        view l [] (errors ++ (assemble g (passages l.stream.finish ts)).errors)
          (log ++ (assemble g (passages l.stream.finish ts)).log)) := by
  induction ts using text_induction l.stream.finish generalizing g errors log with
  | nil =>
    apply loop_of_leave
    rw [grammarTurn, isEof_token_view hs, passages, assemble, List.append_nil, List.append_nil]
    rfl
  | @definition name equals ts rest v log' hn he h ih =>
    have hrest := h.suffix.trans (suffix_of_cons_cons hs)
    rw [loop_grammarTurn_cons hs (definition_view_of_run hs hn he h), passages_of_run hn he h]
    cases v with
    | none =>
      rw [Option.map_none, enter, ih hrest, assemble, List.append_assoc, List.append_assoc]
    | some rule =>
      rw [Option.map_some, enter, assemble]
      split
      · rw [emit_view, ih hrest]
        simp only [List.append_assoc, List.singleton_append]
      · rw [ih hrest, List.append_assoc, List.append_assoc]
  | @skipped t ts hstarts ih =>
    have hrest := (resume_suffix ts).trans ((List.suffix_cons t ts).trans hs)
    rw [loop_grammarTurn_cons hs (definition_view_of_skipped hs hstarts), enter, ih hrest,
      passages_of_not_starts hstarts, assemble, List.append_assoc]

end Definitions

/-- The parser at work gives all that a source text gives. -/
theorem parse_eq (source : String) : parse source = some (.ofSource source) := by
  have hloop := @loop_grammarTurn_view (.ofSource source) _ [] [] (List.suffix_refl _) {}
  rw [← ofLexer_eq_view] at hloop
  rw [parse, hloop]
  rfl

end CstGrammar.Parser
