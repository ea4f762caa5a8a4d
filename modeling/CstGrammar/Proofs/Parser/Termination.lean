import CstGrammar.Proofs.Parser.Contract

namespace CstGrammar.Parser.Reader

def Progresses (r r' : Reader) : Prop := ∃ taken, taken ≠ [] ∧ r.Takes taken r'

section Takes

variable {r r' r'' : Reader} {taken taken' : List Token}

theorem Takes.trans (h : r.Takes taken r') (h' : r'.Takes taken' r'') :
    r.Takes (taken ++ taken') r'' where
  left_eq := by rw [h.left_eq, h'.left_eq, List.append_assoc]
  isEof_eq t ht := (List.mem_append.mp ht).elim (h.isEof_eq t) (h'.isEof_eq t)
  filled := h'.filled
  advances := by
    obtain ⟨log, hlog, hlength⟩ := h.advances
    obtain ⟨log', hlog', hlength'⟩ := h'.advances
    refine ⟨log ++ log', by rw [hlog', hlog, List.append_assoc], ?_⟩
    rw [List.filterMap_append, List.length_append, List.length_append, hlength, hlength']

theorem Takes.emit (h : r.Takes taken r') (e : ParseError) : r.Takes taken (r'.emit e) where
  left_eq := h.left_eq
  isEof_eq := h.isEof_eq
  filled := by
    obtain ⟨l, errors, log, rfl⟩ := h.filled
    exact ⟨l, errors ++ [e], log ++ [.reported e], rfl⟩
  advances := by
    obtain ⟨log, hlog, hlength⟩ := h.advances
    have htell : (r'.emit e).log = r'.log ++ [.reported e] := rfl
    refine ⟨log ++ [.reported e], by rw [htell, hlog, List.append_assoc], ?_⟩
    rw [List.filterMap_append, List.length_append, hlength]
    rfl

theorem Takes.progresses (h : r.Takes taken r') (h' : r'.Takes taken' r'') (hne : taken ≠ []) :
    r.Progresses r'' := ⟨taken ++ taken', by simp [hne], h.trans h'⟩

/-- Entering a definition tells at most of a name that is there already. -/
theorem Takes.enter (h : r.Takes taken r') (g : Grammar) (x : Option (Token × Rule)) :
    r.Takes taken (enter g (x, r')).2 := by
  match x with
  | none => exact h
  | some (name, rule) =>
    rw [Reader.enter]
    split
    · exact h.emit _
    · exact h

end Takes

section View

variable {l : Lexer} {t : Token} {ts : List Token} {errors : ErrorList} {log : List Event}

theorem takes_advance (hs : t :: ts <:+ l.stream.tokens) (errors : ErrorList) (log : List Event) :
    (view l (t :: ts) errors log).Takes [t] (view l (t :: ts) errors log).advance := by
  rw [advance_view hs]
  exact @takes_view l [t] ts errors errors log _ hs rfl

theorem takes_advance_advance {u : Token} (hs : t :: u :: ts <:+ l.stream.tokens)
    (errors : ErrorList) (log : List Event) :
    (view l (t :: u :: ts) errors log).Takes [t, u]
      (view l (t :: u :: ts) errors log).advance.advance := by
  have hfirst := takes_advance hs errors log
  rw [advance_view hs] at hfirst ⊢
  exact hfirst.trans (takes_advance ((List.suffix_cons _ _).trans hs) errors _)

theorem exists_definition (hs : t :: ts <:+ l.stream.tokens) (errors : ErrorList)
    (log : List Event) :
    ∃ x r', (view l (t :: ts) errors log).definition = some (x, r') ∧
      (view l (t :: ts) errors log).Progresses r' := by
  rw [definition, startsDefinition_view hs]
  split
  · next hstarts =>
    obtain ⟨name, equals, us, hts, -⟩ := exists_of_startsDefinition hstarts
    rw [hts] at hs ⊢
    have htwo := takes_advance_advance hs errors log
    obtain ⟨taken, out, r', halt, -, hkeeps, -⟩ := exists_keeps_alt (suffix_of_cons_cons hs)
    rw [← advance_view ((List.suffix_cons _ _).trans hs), ← advance_view hs] at halt hkeeps
    have hprogress := htwo.progresses hkeeps.takes (List.cons_ne_nil _ _)
    rw [halt]
    cases out with
    | found rule => exact ⟨_, r', rfl, hprogress⟩
    | nothing | failed => exact ⟨none, r', rfl, hprogress⟩
  · next hstarts =>
    have hne : (t :: ts).take (distance (t :: ts)) ≠ [] := by
      rw [distance, if_neg hstarts]
      exact List.cons_ne_nil _ _
    refine ⟨none, _, ?_, _, hne, takes_synchronize hs⟩
    rw [synchronize_view hs]
    rfl

theorem exists_grammarTurn (hs : ts <:+ l.stream.tokens) (g : Grammar) :
    ∃ turn, grammarTurn (g, view l ts errors log) = some turn ∧
      ∀ g' r', turn = .again (g', r') → (view l ts errors log).Progresses r' := by
  rw [grammarTurn, isEof_token_view hs]
  cases ts with
  | nil =>
    refine ⟨_, rfl, ?_⟩
    rintro g' r' ⟨⟩
  | cons t ts =>
    obtain ⟨x, r', hx, taken, hne, htakes⟩ := exists_definition hs errors log
    rw [hx]
    refine ⟨_, rfl, fun g' r'' h ↦ ?_⟩
    obtain rfl : (enter g (x, r')).2 = r'' := congrArg Prod.snd (Turn.again.inj h)
    exact ⟨taken, hne, htakes.enter g x⟩

theorem exists_alternative (hs : ts <:+ l.stream.tokens)
    (hk : (view l ts errors log).token.kind = .pipe) : ∃ head r',
      (view l ts errors log).alternative = some (head, r') ∧
      (view l ts errors log).Progresses r' := by
  rw [token_view hs] at hk
  obtain ⟨pipe, us, rfl, -⟩ := exists_cons_of_look hk (by decide)
  have hpipe := takes_advance hs errors log
  obtain ⟨taken, out, r', hseq, -, hkeeps, rfl, -⟩ :=
    exists_keeps_seq ((List.suffix_cons pipe us).trans hs)
  rw [← advance_view hs] at hseq hkeeps
  exact ⟨_, r', alternative_of_seq hseq, hpipe.progresses hkeeps.takes (List.cons_ne_nil _ _)⟩

theorem progresses_of_found {rule : Rule} {r' : Reader} (hs : ts <:+ l.stream.tokens)
    (h : (view l ts errors log).single = some (.found rule, r')) :
    (view l ts errors log).Progresses r' := by
  obtain ⟨taken, out, r'', hsingle, hkeeps, -⟩ := exists_keeps_single hs
  rw [hsingle] at h
  cases h
  exact ⟨taken, (hkeeps.found rule rfl).1, hkeeps.takes⟩

theorem exists_skipTurn (hs : ts <:+ l.stream.tokens) (skipped : Nat) :
    ∃ turn, skipTurn (skipped, view l ts errors log) = some turn ∧
      ∀ n r', turn = .again (n, r') → ∃ t, (view l ts errors log).Takes [t] r' := by
  rw [skipTurn]
  split
  · refine ⟨_, rfl, ?_⟩
    rintro n r' ⟨⟩
  · next hb =>
    cases ts with
    | nil => exact absurd ((atBoundary_view hs).mpr (.inl rfl)) hb
    | cons t ts =>
      refine ⟨_, rfl, ?_⟩
      rintro n r' ⟨⟩
      exact ⟨t, takes_advance hs errors log⟩

theorem takes_token (hs : ts <:+ l.stream.tokens)
    (he : (view l ts errors log).token.isEof = false) :
    (view l ts errors log).Takes [(view l ts errors log).token] (view l ts errors log).advance := by
  cases ts with
  | nil =>
    rw [isEof_token_view hs] at he
    cases he
  | cons t ts =>
    rw [token_view hs]
    exact takes_advance hs errors log

theorem takes_token_next (hs : ts <:+ l.stream.tokens)
    (hn : (view l ts errors log).token.kind = .node)
    (hc : (view l ts errors log).next.kind = .colon) : (view l ts errors log).Takes
      [(view l ts errors log).token, (view l ts errors log).next]
      (view l ts errors log).advance.advance := by
  rw [token_view hs] at hn
  rw [next_view hs] at hc
  obtain ⟨t, us, rfl, -⟩ := exists_cons_of_look hn (by decide)
  obtain ⟨u, vs, rfl, -⟩ := exists_cons_of_look hc (by decide)
  rw [token_view hs, next_view hs]
  exact takes_advance_advance hs errors log

end View

/-- What each step does that the parser at work can take from `r`: where a loop goes on, and where
a part of a rule is looked for inside another one, some token has been taken. -/
structure StepsOn (r : Reader) : Prop where
  advance_of_isEof : r.token.isEof = true → r.advance = r
  advance : r.token.isEof = false → r.Takes [r.token] r.advance
  grammar : ∀ g, ∃ turn, grammarTurn (g, r) = some turn ∧
    ∀ g' r', turn = .again (g', r') → r.Progresses r'
  alternative : r.token.kind = .pipe → ∃ head r', r.alternative = some (head, r') ∧ r.Progresses r'
  element : ∀ rule r', r.single = some (.found rule, r') → r.Progresses r'
  skip : ∀ skipped, ∃ turn, skipTurn (skipped, r) = some turn ∧
    ∀ n r', turn = .again (n, r') → ∃ t, r.Takes [t] r'
  group : r.token.kind = .lparen →
    r.atom = r.advance.alt.bind (closeGroup r.errors.length) ∧ r.Takes [r.token] r.advance
  label : r.token.kind = .node → r.next.kind = .colon →
    r.atom = r.advance.advance.single.bind (attach r.token) ∧
      r.Takes [r.token, r.next] r.advance.advance

theorem stepsOn_view {l : Lexer} {ts : List Token} {errors : ErrorList} {log : List Event}
    (hs : ts <:+ l.stream.tokens) : (view l ts errors log).StepsOn where
  advance_of_isEof he := if_pos he
  advance := takes_token hs
  grammar := exists_grammarTurn hs
  alternative := exists_alternative hs
  element _ _ := progresses_of_found hs
  skip := exists_skipTurn hs
  group hk := by
    have he : (view l ts errors log).token.isEof = false := by simp [Token.isEof, hk]
    exact ⟨(atom_of_opening hk).trans (group_eq _), takes_token hs he⟩
  label hn hc := ⟨(atom_of_label hn hc).trans (labeled_eq _), takes_token_next hs hn hc⟩

/-- Reading comes to an end, as each turn of a loop that goes on takes something: in the lexer a
character, in the parser a token. All in all, the parser advances once for each token. -/
theorem parse_terminates :
    (Lexer.Progresses id Lexer.gapTurn ∧ Lexer.Progresses id Lexer.commentTurn ∧
      Lexer.Progresses id Lexer.nameTurn ∧ Lexer.Progresses id Lexer.remainsTurn ∧
      ∀ opening, Lexer.Progresses Prod.snd (Lexer.literalTurn opening)) ∧
    (∀ l : Lexer, l.scan = some l.pull ∧ (l.pull.1.isEof = true ∨ l.Advances l.pull.2)) ∧
    (∀ (l : Lexer) (errors : ErrorList) (log : List Event), (ofLexer l errors log).StepsOn) ∧
    ∀ source,
      let tokens := (TokenStream.ofSource source).tokens
      parse source = some (.ofSource source) ∧ (∀ t ∈ tokens, t.isEof = false) ∧
        ((Parse.ofSource source).log.filterMap Event.token?).length = tokens.length := by
  refine ⟨⟨fun l ↦ ⟨⟨_, l.loop_gapTurn⟩, fun _ ↦ Lexer.advances_gapTurn⟩,
    fun l ↦ ⟨⟨_, l.loop_commentTurn⟩, fun _ ↦ Lexer.advances_commentTurn⟩,
    fun l ↦ ⟨⟨_, l.loop_nameTurn⟩, fun _ ↦ Lexer.advances_nameTurn⟩,
    fun l ↦ ⟨⟨_, l.loop_remainsTurn⟩, fun _ ↦ Lexer.advances_remainsTurn⟩,
    fun opening s ↦ ⟨⟨_, s.2.loop_literalTurn opening s.1⟩, fun _ ↦ Lexer.advances_literalTurn⟩⟩,
    fun l ↦ ⟨l.scan_eq_pull, l.advances_pull⟩, fun l errors log ↦ ?_, fun source ↦ ?_⟩
  · rw [ofLexer_eq_view]
    exact stepsOn_view List.suffix_rfl
  · intro tokens
    refine ⟨parse_eq source, fun t ht ↦ decide_eq_false (kind_ne_eof_of_mem_ofSource ht), ?_⟩
    have hlog : (Parse.ofSource source).log.filterMap Event.token? =
        (assemble {} (passages (TokenStream.ofSource source).finish tokens)).log.filterMap
          Event.token? ++ [] := List.filterMap_append
    rw [hlog, List.append_nil]
    exact (tells_assemble {} tokens).length_tokens

end CstGrammar.Parser.Reader
