import CstGrammar.Proofs.Parser.Acceptance
import CstGrammar.Proofs.Parser.Entries
import CstGrammar.Proofs.Parser.Reach

namespace CstGrammar

namespace Parser

/-- The grammar of whole texts: `grammar := (NODE '=' alt)*`. -/
inductive GrammarDerivation : List Token → Type
  | nil : GrammarDerivation []
  | cons {us vs : List Token} (name equals : Token) (hn : name.kind = .node)
      (he : equals.kind = .equals) (body : Derivation .alt us) (more : GrammarDerivation vs) :
      GrammarDerivation (name :: equals :: (us ++ vs))

namespace GrammarDerivation

def definitions {ts : List Token} : GrammarDerivation ts → List Definition
  | nil => []
  | cons name _ _ _ body more => ⟨name, body.tree⟩ :: more.definitions

def Innermost {ts : List Token} : GrammarDerivation ts → Prop
  | nil => True
  | cons _ _ _ _ body more => body.Innermost ∧ more.Innermost

theorem exists_innermost {ts : List Token} (d : GrammarDerivation ts) :
    ∃ e : GrammarDerivation ts, e.Innermost := by
  induction d with
  | nil => exact ⟨.nil, trivial⟩
  | cons name equals hn he body more ih =>
    obtain ⟨b, hb⟩ := body.exists_innermost
    obtain ⟨e, hm⟩ := ih
    exact ⟨.cons name equals hn he b e, hb, hm⟩

theorem boundary {ts : List Token} (d : GrammarDerivation ts) : Boundary ts := by
  cases d with
  | nil => exact .inl rfl
  | cons name equals hn he => exact .inr (by simp [startsDefinition, hn, he])

variable {finish : Location}

/-- A text of the grammar is read as its definitions stand. -/
theorem reads {ts : List Token} (d : GrammarDerivation ts) (hd : d.Innermost) :
    entries finish ts = d.definitions.map (fun e ↦ ⟨e.name, some e.rule, []⟩) ∧
      (passages finish ts).any (·.log.any Event.isSkip) = false := by
  induction d with
  | nil => exact ⟨entries_nil, by rw [passages]; rfl⟩
  | @cons us vs name equals hn he body more ih =>
    have hb : Phrase.alt.Ends finish vs := Phrase.ends_of_boundary .alt more.boundary
    obtain ⟨log, h, hl⟩ := body.run hd.1 hb (absurd · (by decide))
    obtain ⟨hes, hps⟩ := ih hd.2
    have hs := h.any_isSkip.mpr hl
    refine ⟨by rw [entries_of_run hn he h, hes, hl]; rfl, ?_⟩
    rw [passages_of_run hn he h, List.any_cons, hps, Bool.or_false]
    change (pulls finish 2 _ ++ log).any Event.isSkip = false
    rw [List.any_append, any_isSkip_pulls, hs]
    rfl

end GrammarDerivation

variable {finish : Location}

theorem exists_derivation_of_not_skip {ts : List Token}
    (h : (passages finish ts).any (·.log.any Event.isSkip) = false) :
    Nonempty (GrammarDerivation ts) := by
  induction ts using text_induction finish with
  | nil => exact ⟨.nil⟩
  | @definition name equals ts rest v log hn he hrun ih =>
    rw [passages_of_run hn he hrun, List.any_cons, Bool.or_eq_false_iff] at h
    obtain ⟨hbody, hmore⟩ := h
    have hb : (pulls finish 2 _ ++ log).any Event.isSkip = false := hbody
    rw [List.any_append, any_isSkip_pulls, Bool.false_or, hrun.any_isSkip] at hb
    obtain ⟨us, d, rfl, -⟩ := hrun.derivation hb
    obtain ⟨more⟩ := ih hmore
    exact ⟨.cons name equals hn he d more⟩
  | @skipped t ts hs =>
    rw [passages_of_not_starts hs, List.any_cons, Bool.or_eq_false_iff] at h
    have hr : (recovery finish (t :: ts)).any Event.isSkip = false := h.1
    rw [any_isSkip_recovery] at hr
    cases hr

theorem clean_of_not_skip {ts : List Token}
    (h : (passages finish ts).any (·.log.any Event.isSkip) = false) (e : Entry)
    (he : e ∈ entries finish ts) : e.errors = [] := by
  obtain ⟨d⟩ := exists_derivation_of_not_skip h
  obtain ⟨d, hd⟩ := d.exists_innermost
  rw [(d.reads hd).1, List.mem_map] at he
  obtain ⟨_, -, rfl⟩ := he
  rfl

/-- Where tokens are skipped, that shows: some are lost, or something is wrong in a definition. -/
theorem exists_of_skip {ts : List Token}
    (h : (passages finish ts).any (·.log.any Event.isSkip) = true) :
    ∃ p ∈ passages finish ts, (∃ n loc, .synchronized n loc ∈ p.log ∧ n ≠ 0) ∨
      ∃ e ∈ errorsOf p.log, ∀ name, e.problem ≠ .duplicateName name := by
  obtain ⟨p, hp, hs⟩ := List.any_eq_true.mp h
  refine ⟨p, hp, ?_⟩
  rcases exists_of_mem_passages hp with
    ⟨u, us, hu, rfl⟩ | ⟨_, us, vs, v, rest, log, -, -, -, hrun, rfl⟩
  · have hd : distance (u :: us) ≠ 0 := by simp [distance, hu]
    exact .inl ⟨_, _, List.mem_append_right _ List.mem_cons_self, hd⟩
  · have hl : errorsOf log ≠ [] := by
      intro hl
      have hf := hrun.any_isSkip.mpr hl
      have hs : (pulls finish 2 us ++ log).any Event.isSkip = true := hs
      rw [List.any_append, any_isSkip_pulls, hf] at hs
      cases hs
    obtain ⟨e, he⟩ := List.exists_mem_of_ne_nil _ hl
    refine .inr ⟨e, ?_, fun name ↦ hrun.not_duplicate name e he⟩
    change e ∈ errorsOf (pulls finish 2 us ++ log)
    rw [errorsOf_append]
    exact List.mem_append_right _ he

end Parser

namespace Parse

open CstGrammar.Parser

theorem mem_errors_of_mem_passages {s : TokenStream} {p : Passage} {e : ParseError}
    (hp : p ∈ passages s.finish s.tokens) (he : e ∈ errorsOf p.log) : e ∈ (ofTokens s).errors := by
  obtain ⟨ev, hev, hsome⟩ := List.mem_filterMap.mp he
  have hm := mem_log_assemble {} hp hev
  rw [← errorsOf_log_ofTokens]
  exact List.mem_filterMap.mpr ⟨ev, List.mem_append_left _ hm, hsome⟩

theorem any_isSkip_eq_false_iff (p : Parse) :
    p.log.any Event.isSkip = false ↔ ∀ n loc, .synchronized n loc ∉ p.log := by
  rw [List.any_eq_false]
  constructor
  · intro h n loc hm
    exact h _ hm rfl
  · intro h e he hs
    match e, hs with
    | .synchronized n loc, _ => exact h n loc he

theorem errors_of_not_skip {s : TokenStream} (h : (ofTokens s).log.any Event.isSkip = false) :
    (ofTokens s).errors =
      Definition.repetitions [] (definitions (entries s.finish s.tokens)) := by
  rw [any_isSkip_ofTokens] at h
  rw [errors_ofTokens, reports_of_clean (clean_of_not_skip h)]

/-- Nothing is skipped exactly where no tokens are lost and nothing but duplicates is reported. -/
theorem not_skip_iff (s : TokenStream) : (ofTokens s).log.any Event.isSkip = false ↔
    (∀ n loc, .synchronized n loc ∈ (ofTokens s).log → n = 0) ∧
      ∀ e ∈ (ofTokens s).errors, ∃ name, e.problem = .duplicateName name := by
  constructor
  · intro h
    refine ⟨fun n loc hm ↦ absurd hm ((any_isSkip_eq_false_iff _).mp h n loc), ?_⟩
    rw [errors_of_not_skip h]
    exact Definition.duplicate_of_mem_repetitions
  · rintro ⟨hn, hd⟩
    rw [Bool.eq_false_iff, any_isSkip_ofTokens]
    intro hs
    obtain ⟨p, hp, ⟨n, loc, hm, h0⟩ | ⟨e, he, hne⟩⟩ := exists_of_skip hs
    · exact h0 (hn n loc (List.mem_append_left _ (mem_log_assemble {} hp hm)))
    · obtain ⟨name, hname⟩ := hd e (mem_errors_of_mem_passages hp he)
      exact hne name hname

/-- The parser skips nothing exactly in the texts of its grammar. There it gives each name its last
definition, with each suffix at the innermost rule, and reports what is defined again. -/
theorem ofSource_language (source : String) :
    let ts := (TokenStream.ofSource source).tokens
    let p := ofSource source
    ((∀ n loc, .synchronized n loc ∉ p.log) ↔ Nonempty (GrammarDerivation ts)) ∧
    ((∀ n loc, .synchronized n loc ∉ p.log) ↔
      (∀ n loc, .synchronized n loc ∈ p.log → n = 0) ∧
        ∀ e ∈ p.errors, ∃ name, e.problem = .duplicateName name) ∧
    (Nonempty (GrammarDerivation ts) → ∃ d : GrammarDerivation ts, d.Innermost) ∧
    ∀ d : GrammarDerivation ts, d.Innermost →
      (∀ name, p.grammar.get? name = (Definition.last? name d.definitions).map Definition.rule) ∧
      (∀ name, p.grammar.locationOf? name =
        (Definition.last? name d.definitions).map (·.name.location)) ∧
      p.errors = Definition.repetitions [] d.definitions ∧
      p.grammar.size + p.errors.length = d.definitions.length ∧
      ((d.definitions.map (·.name.value)).Nodup →
        p.grammar.size = d.definitions.length ∧ p.errors = []) := by
  intro ts p
  have hreads (d : GrammarDerivation ts) (hd : d.Innermost) :
      p.log.any Event.isSkip = false ∧
        definitions (entries (TokenStream.ofSource source).finish ts) = d.definitions := by
    obtain ⟨hes, hps⟩ := d.reads hd
    refine ⟨(any_isSkip_ofTokens _).trans hps, ?_⟩
    rw [hes, definitions, List.filterMap_map]
    exact List.filterMap_some
  have hskip : (∀ n loc, .synchronized n loc ∉ p.log) ↔ p.log.any Event.isSkip = false :=
    (any_isSkip_eq_false_iff p).symm
  refine ⟨?_, hskip.trans (not_skip_iff _), fun ⟨d⟩ ↦ d.exists_innermost, ?_⟩
  · rw [hskip]
    constructor
    · intro h
      exact exists_derivation_of_not_skip ((any_isSkip_ofTokens _).symm.trans h)
    · rintro ⟨d⟩
      obtain ⟨e, he⟩ := d.exists_innermost
      exact (hreads e he).1
  · intro d hd
    obtain ⟨hs, hds⟩ := hreads d hd
    have hg : p.grammar = Grammar.defineAll {} d.definitions := hds ▸ grammar_ofTokens _
    have he : p.errors = Definition.repetitions [] d.definitions := hds ▸ errors_of_not_skip hs
    have hsize : p.grammar.size + p.errors.length = d.definitions.length := by
      rw [hg, he, Grammar.size_defineAll {} d.definitions Grammar.mem_nil_iff_contains]
      exact Nat.zero_add _
    refine ⟨fun name ↦ ?_, fun name ↦ ?_, he, hsize, fun hn ↦ ?_⟩
    · rw [hg, Grammar.get?_defineAll]
      exact Option.or_none
    · rw [hg, Grammar.locationOf?_defineAll]
      exact Option.or_none
    · have hnil : p.errors = [] := he.trans (Definition.repetitions_eq_nil hn nofun)
      rw [hnil] at hsize
      exact ⟨hsize, hnil⟩

end Parse

end CstGrammar
