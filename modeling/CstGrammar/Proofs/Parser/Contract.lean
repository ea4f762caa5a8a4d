import CstGrammar.Proofs.Parser.Log

namespace CstGrammar.Parser

section Tokens

variable {finish : Location} {p : Phrase} {ts rest ls : List Token} {v : p.Value}
  {log : List Event} {es : ErrorList}

theorem Reach.length_errors_le (h : Reach finish ts ls rest es) : es.length ≤ 1 := by
  cases h with
  | clean => exact Nat.zero_le 1
  | broken => exact Nat.le_refl 1

/-- Each definition that is to come is still to come behind what is read. -/
theorem suffix_of_resume_eq {ds : List Token} (h : resume ts = resume rest)
    (hd : startsDefinition ds = true) (hs : ds <:+ ts) : ds <:+ rest := by
  obtain ⟨us, rfl⟩ := hs
  have hresume := suffix_resume_append us hd
  rw [h] at hresume
  exact hresume.trans (resume_suffix rest)

theorem length_upcoming (finish : Location) (ts : List Token) :
    (upcoming finish ts).length = ts.length := by
  rw [upcoming, List.length_drop, List.length_append]
  rfl

/-- As many tokens come into view as are taken. -/
theorem Tells.length_tokens (h : Tells finish ts log rest) :
    (log.filterMap Event.token?).length + rest.length = ts.length := by
  have htokens := congrArg List.length h.tokens
  rwa [List.length_append, length_upcoming, length_upcoming] at htokens

theorem length_tokens_pulls (n : Nat) (ts : List Token) :
    ((pulls finish n ts).filterMap Event.token?).length = n := by
  induction n generalizing ts with
  | zero => rfl
  | succ n ih => exact congrArg Nat.succ (ih ts.tail)

theorem Run.length_lt_of_seq {v : Option Rule} (h : Run finish .seq ts v rest log) (hv : v ≠ none) :
    rest.length < ts.length := by
  cases h with
  | seq_missing | seq_none => exact absurd rfl hv
  | seq_some h h' => exact Nat.lt_of_le_of_lt h'.length_le h.length_lt

theorem Run.length_lt_of_alt {v : Option Rule} (h : Run finish .alt ts v rest log) (hv : v ≠ none) :
    rest.length < ts.length := by
  cases h with
  | alt_none => exact absurd rfl hv
  | alt_some h h' => exact Nat.lt_of_le_of_lt h'.length_le (h.length_lt_of_seq nofun)

/-- A phrase that fails has taken nothing but opening parentheses up to its error. -/
theorem Run.exists_opened (h : Run finish p ts v rest log) (hf : p.Fails v) :
    ∃ opened after problem, ts = opened ++ after ∧ (∀ t ∈ opened, t.kind = .lparen) ∧
      rest = resume after ∧
      log = pulls finish opened.length ts ++ failure finish problem after := by
  induction h with
  | alt_none _ ih | seq_none _ ih | single_none _ ih => exact ih rfl
  | @seq_missing ts => exact ⟨[], ts, .expectedRule, rfl, nofun, rfl, rfl⟩
  | @atom_error t ts ht =>
    have hs : startsDefinition (t :: ts) = false := startsDefinition_eq_false ts (by simp [ht])
    exact ⟨[], t :: ts, .stated, rfl, nofun, (resume_cons hs).symm, rfl⟩
  | @group_none opening _ _ _ ho _ ih =>
    obtain ⟨opened, after, problem, rfl, hopened, hrest, rfl⟩ := ih rfl
    have hall : ∀ t ∈ opening :: opened, t.kind = .lparen :=
      List.forall_mem_cons.mpr ⟨ho, hopened⟩
    exact ⟨opening :: opened, after, problem, rfl, hall, hrest, rfl⟩
  | _ => cases hf

end Tokens

namespace Reader

def left (r : Reader) : List Token :=
  [r.token, r.next].filter (!·.isEof) ++ r.lexer.stream.tokens

/-- Whether the parser goes from `r` to `r'` by taking some tokens. Its view stays filled, and it
advances once for each of them. -/
structure Takes (r : Reader) (taken : List Token) (r' : Reader) : Prop where
  left_eq : r.left = taken ++ r'.left
  isEof_eq : ∀ t ∈ taken, t.isEof = false
  filled : ∃ l errors log, r' = ofLexer l errors log
  advances : ∃ log, r'.log = r.log ++ log ∧ (log.filterMap Event.token?).length = taken.length

/-- Whether all definitions that are to come at `r` are still to come at `r'`. -/
def Spares (r r' : Reader) : Prop := ∀ name equals ts, name.kind = .node → equals.kind = .equals →
  name :: equals :: ts <:+ r.left → name :: equals :: ts <:+ r'.left

/-- Whether the parser takes nothing but opening parentheses in front of an error, the only one, and
recovers from it. -/
def Fails (r r' : Reader) : Prop := ∃ opened mid problem e, (∀ t ∈ opened, t.kind = .lparen) ∧
  r.Takes opened mid ∧ mid.errors = r.errors ∧ mid.fail problem = some r' ∧
  r'.errors = r.errors ++ [e] ∧ r'.atBoundary = true

/-- What is promised where the parser looks for a rule at `r`. -/
structure Keeps (r : Reader) (taken : List Token) (out : Outcome) (r' : Reader) : Prop where
  takes : r.Takes taken r'
  spares : r.Spares r'
  nothing : out = .nothing → r' = r
  failed : out = .failed → r.Fails r'
  found : ∀ rule, out = .found rule → taken ≠ [] ∧
    ∃ es, r'.errors = r.errors ++ es ∧ es.length ≤ 1 ∧ (es ≠ [] → r'.atBoundary = true)

/-- Whether the parser at work ends as a reply tells, or finds nothing where there is no reply. -/
def Agrees {bound : Nat} (r : Reader) (out : Outcome) (r' : Reader) : Option (Attempt bound) → Prop
  | none => out = .nothing
  | some reply =>
    out = .ofRule? reply.value ∧ r'.left = reply.rest ∧ r'.errors = r.errors ++ reply.errors ∧
      r'.log = r.log ++ reply.log

variable {l : Lexer} {ts taken rest : List Token} {errors errors' : ErrorList}
  {log log' : List Event}

theorem left_ofLexer (l : Lexer) (errors : ErrorList) (log : List Event) :
    (ofLexer l errors log).left = l.stream.tokens := by
  have hleft : (ofLexer l errors log).left =
      [l.stream.get 0, l.stream.get 1].filter (!·.isEof) ++ l.stream.tokens.tail.tail := by
    rw [left, ofLexer, Lexer.pull_fst, Lexer.pull_fst]
    simp only [Lexer.stream_pull, TokenStream.get_tail]
    rfl
  have hne : ∀ t ∈ l.stream.tokens, t.isEof = false := fun _ ↦ isEof_eq_false
  have heof : (Token.eof l.stream.finish).isEof = true := rfl
  rw [hleft]
  rcases h : l.stream.tokens with _ | ⟨t, _ | ⟨u, us⟩⟩
  · simp [TokenStream.get, h, heof]
  · rw [h] at hne
    simp [TokenStream.get, h, heof, hne]
  · rw [h] at hne
    simp [TokenStream.get, h, hne]

theorem left_view (hs : ts <:+ l.stream.tokens) : (view l ts errors log).left = ts := by
  rw [view, left_ofLexer, stream_behind_of_suffix hs]

theorem takes_view (hs : taken ++ rest <:+ l.stream.tokens)
    (ha : (log'.filterMap Event.token?).length = taken.length) :
    (view l (taken ++ rest) errors log).Takes taken (view l rest errors' (log ++ log')) where
  left_eq := by rw [left_view hs, left_view ((List.suffix_append taken rest).trans hs)]
  isEof_eq _ ht := isEof_eq_false (hs.subset (List.mem_append_left rest ht))
  filled := ⟨_, _, _, rfl⟩
  advances := ⟨log', rfl, ha⟩

theorem spares_view (hs : ts <:+ l.stream.tokens) (hr : rest <:+ ts)
    (h : resume ts = resume rest) :
    (view l ts errors log).Spares (view l rest errors' log') := by
  intro name equals us hn he hu
  rw [left_view hs] at hu
  rw [left_view (hr.trans hs)]
  exact suffix_of_resume_eq h (by simp [Parser.startsDefinition, hn, he]) hu

theorem fails_view {opened after : List Token} (hs : opened ++ after <:+ l.stream.tokens)
    (ho : ∀ t ∈ opened, t.kind = .lparen) (problem : String → Problem) :
    (view l (opened ++ after) errors log).Fails
      (view l (resume after) (errors ++ [errorAt l.stream.finish problem after])
        (log ++ (pulls l.stream.finish opened.length (opened ++ after) ++
          failure l.stream.finish problem after))) := by
  have hafter : after <:+ l.stream.tokens := (List.suffix_append opened after).trans hs
  let opening := pulls l.stream.finish opened.length (opened ++ after)
  refine ⟨opened, view l after errors (log ++ opening), problem,
    errorAt l.stream.finish problem after, ho, takes_view hs (length_tokens_pulls _ _), rfl, ?_,
      rfl, ?_⟩
  · rw [fail_view hafter, List.append_assoc]
  · exact (atBoundary_view ((resume_suffix after).trans hafter)).mpr (boundary_resume after)

theorem keeps_of_run {p : Phrase} {v : p.Value} {rule : Option Rule}
    (h : Run l.stream.finish p ts v rest log') (hs : ts <:+ l.stream.tokens)
    (hfails : rule = none → p.Fails v) (hfound : rule ≠ none → rest.length < ts.length) :
    ∃ taken, (view l ts errors log).Keeps taken (.ofRule? rule)
      (view l rest (errors ++ errorsOf log') (log ++ log')) := by
  obtain ⟨taken, rfl⟩ := h.suffix
  have hlength := h.tells.length_tokens
  rw [List.length_append] at hlength
  refine ⟨taken, takes_view hs (Nat.add_right_cancel hlength),
    spares_view hs h.suffix h.reach.resume_eq, ?_, ?_, ?_⟩
  · cases rule <;> exact nofun
  · intro hout
    have hnone : rule = none := by
      cases rule with
      | none => rfl
      | some rule => cases hout
    obtain ⟨opened, after, problem, hts, hopened, rfl, rfl⟩ := h.exists_opened (hfails hnone)
    rw [hts] at hs ⊢
    rw [errorsOf_append, errorsOf_pulls, errorsOf_failure]
    exact fails_view hs hopened problem
  · intro r hr
    have hlt : rest.length < (taken ++ rest).length := hfound (by rintro rfl; cases hr)
    refine ⟨?_, errorsOf log', rfl, h.reach.length_errors_le,
      fun he ↦ (atBoundary_view (h.suffix.trans hs)).mpr (h.boundary_of_errors he)⟩
    rintro rfl
    exact absurd hlt (Nat.lt_irrefl _)

theorem keeps_nothing (hs : ts <:+ l.stream.tokens) :
    (view l ts errors log).Keeps [] .nothing (view l ts errors log) where
  takes := by
    have htakes := @takes_view l [] ts errors errors log [] hs rfl
    rwa [List.append_nil] at htakes
  spares := fun _ _ _ _ _ h ↦ h
  nothing _ := rfl
  failed := nofun
  found := nofun

theorem ofRule?_ne_nothing (rule : Option Rule) : Outcome.ofRule? rule ≠ .nothing := by
  cases rule <;> exact nofun

theorem exists_keeps_alt (hs : ts <:+ l.stream.tokens) : ∃ taken out r',
    (view l ts errors log).alt = some (out, r') ∧ out ≠ .nothing ∧
      (view l ts errors log).Keeps taken out r' ∧
      (view l ts errors log).Agrees out r' (some (Parser.alt l.stream.finish ts)) := by
  obtain ⟨v, rest, log', h⟩ := exists_run l.stream.finish .alt ts (by simp [Phrase.level])
  obtain ⟨taken, hkeeps⟩ := keeps_of_run h hs id h.length_lt_of_alt
  obtain ⟨hlt, hreply⟩ := h.gives
  rw [hreply]
  exact ⟨taken, _, _, h.does hs, ofRule?_ne_nothing _, hkeeps, rfl, left_view (h.suffix.trans hs),
    rfl, rfl⟩

theorem exists_keeps_seq (hs : ts <:+ l.stream.tokens) : ∃ taken out r',
    (view l ts errors log).seq = some (out, r') ∧ out ≠ .nothing ∧
      (view l ts errors log).Keeps taken out r' ∧
      (view l ts errors log).Agrees out r' (some (Parser.seq l.stream.finish ts)) := by
  obtain ⟨v, rest, log', h⟩ := exists_run l.stream.finish .seq ts (by simp [Phrase.level])
  obtain ⟨taken, hkeeps⟩ := keeps_of_run h hs id h.length_lt_of_seq
  obtain ⟨hlt, hreply⟩ := h.gives
  rw [hreply]
  exact ⟨taken, _, _, h.does hs, ofRule?_ne_nothing _, hkeeps, rfl, left_view (h.suffix.trans hs),
    rfl, rfl⟩

theorem exists_keeps_single (hs : ts <:+ l.stream.tokens) : ∃ taken out r',
    (view l ts errors log).single = some (out, r') ∧ (view l ts errors log).Keeps taken out r' ∧
      (view l ts errors log).Agrees out r' (Parser.single l.stream.finish ts) := by
  by_cases hr : startsRule ts = true
  · obtain ⟨v, rest, log', h⟩ := exists_run l.stream.finish .single ts fun _ ↦ hr
    obtain ⟨taken, hkeeps⟩ := keeps_of_run h hs id fun _ ↦ h.length_lt
    obtain ⟨hlt, hreply⟩ := h.gives
    rw [hreply]
    exact ⟨taken, _, _, h.does hs, hkeeps, rfl, left_view (h.suffix.trans hs), rfl, rfl⟩
  · have hr : startsRule ts = false := Bool.eq_false_iff.mpr hr
    rw [single_eq_none hr]
    exact ⟨[], _, _, single_view_of_not_startsRule hs hr, keeps_nothing hs, rfl⟩

theorem exists_keeps_atom (hs : ts <:+ l.stream.tokens) : ∃ taken out r',
    (view l ts errors log).atom = some (out, r') ∧ (view l ts errors log).Keeps taken out r' ∧
      (view l ts errors log).Agrees out r' (Parser.atom l.stream.finish ts) := by
  by_cases hr : startsRule ts = true
  · obtain ⟨v, rest, log', h⟩ := exists_run l.stream.finish .atom ts fun _ ↦ hr
    obtain ⟨hlt, hreply⟩ := h.gives
    obtain ⟨taken, hkeeps⟩ := keeps_of_run h hs id fun _ ↦ hlt
    rw [hreply]
    exact ⟨taken, _, _, h.does hs, hkeeps, rfl, left_view (h.suffix.trans hs), rfl, rfl⟩
  · have hr : startsRule ts = false := Bool.eq_false_iff.mpr hr
    rw [atom_eq_none hr]
    exact ⟨[], _, _, atom_view_of_not_startsRule hs hr, keeps_nothing hs, rfl⟩

/-- With a label in front, there is always a rule. -/
theorem exists_found_of_attach {label : Token} {x : Outcome × Reader} {out : Outcome} {r' : Reader}
    (h : attach label x = some (out, r')) : ∃ rule, out = .found rule := by
  obtain ⟨_ | _ | _, r⟩ := x
  · cases h
    exact ⟨_, rfl⟩
  · obtain ⟨mid, -, hmid⟩ := Option.bind_eq_some_iff.mp h
    cases hmid
    exact ⟨_, rfl⟩
  · cases h
    exact ⟨_, rfl⟩

theorem takes_synchronize (hs : ts <:+ l.stream.tokens) :
    (view l ts errors log).Takes (ts.take (distance ts))
      (view l (resume ts) errors (log ++ recovery l.stream.finish ts)) := by
  have hts : ts.take (distance ts) ++ resume ts = ts := List.take_append_drop _ ts
  have hlength : (ts.take (distance ts)).length = distance ts := by
    rw [List.length_take, Nat.min_eq_left (distance_le ts)]
  have htakes := @takes_view l _ _ errors errors log _ (hts.symm ▸ hs)
    ((length_tokens_recovery l.stream.finish ts).trans hlength.symm)
  rwa [hts] at htakes

theorem exists_spares_synchronize (hs : ts <:+ l.stream.tokens) : ∃ taken r',
    (view l ts errors log).synchronize = some r' ∧ (view l ts errors log).Takes taken r' ∧
      (view l ts errors log).Spares r' ∧ r'.errors = (view l ts errors log).errors ∧
      r'.atBoundary = true := by
  have hresume : resume ts <:+ ts := resume_suffix ts
  have hboundary : Boundary (resume ts) := boundary_resume ts
  refine ⟨_, _, synchronize_view hs, takes_synchronize hs,
    spares_view hs hresume hboundary.resume_eq.symm, rfl,
    (atBoundary_view (hresume.trans hs)).mpr hboundary⟩

/-- Wherever the parser looks for a rule, it ends, and as the tokens tell. If it finds nothing, it
does nothing; if it fails, it has taken nothing but opening parentheses in front of its one error;
if it finds a rule, it has taken something; an error takes it to a boundary. A label always gives a
rule. No definition is taken, neither on the way nor in recovery. -/
theorem keeps_ofLexer (l : Lexer) (errors : ErrorList) (log : List Event) :
    let r := ofLexer l errors log
    let ts := l.stream.tokens
    let finish := l.stream.finish
    (∃ taken out r', r.alt = some (out, r') ∧ out ≠ .nothing ∧ r.Keeps taken out r' ∧
      r.Agrees out r' (some (Parser.alt finish ts))) ∧
    (∃ taken out r', r.seq = some (out, r') ∧ out ≠ .nothing ∧ r.Keeps taken out r' ∧
      r.Agrees out r' (some (Parser.seq finish ts))) ∧
    (∃ taken out r', r.single = some (out, r') ∧ r.Keeps taken out r' ∧
      r.Agrees out r' (Parser.single finish ts)) ∧
    (∃ taken out r', r.atom = some (out, r') ∧ r.Keeps taken out r' ∧
      r.Agrees out r' (Parser.atom finish ts)) ∧
    (r.token.kind = .node → r.next.kind = .colon → ∃ taken rule r',
      r.labeled = some (.found rule, r') ∧ r.Keeps taken (.found rule) r' ∧
        r.Agrees (.found rule) r' (Parser.atom finish ts)) ∧
    ∃ taken r', r.synchronize = some r' ∧ r.Takes taken r' ∧ r.Spares r' ∧ r'.errors = r.errors ∧
      r'.atBoundary = true := by
  intro r ts finish
  have hr : r = view l ts errors log := ofLexer_eq_view l errors log
  have hs : ts <:+ l.stream.tokens := List.suffix_rfl
  have hatom : ∃ taken out r', r.atom = some (out, r') ∧ r.Keeps taken out r' ∧
      r.Agrees out r' (Parser.atom finish ts) := hr ▸ exists_keeps_atom hs
  refine ⟨hr ▸ exists_keeps_alt hs, hr ▸ exists_keeps_seq hs, hr ▸ exists_keeps_single hs,
    hatom, fun hn hc ↦ ?_, hr ▸ exists_spares_synchronize hs⟩
  obtain ⟨taken, out, r', hout, hkeeps, hagrees⟩ := hatom
  rw [atom_of_label hn hc] at hout
  obtain ⟨x, -, hx⟩ := Option.bind_eq_some_iff.mp (labeled_eq r ▸ hout)
  obtain ⟨rule, rfl⟩ := exists_found_of_attach hx
  exact ⟨taken, rule, r', hout, hkeeps, hagrees⟩

end Reader

end CstGrammar.Parser
