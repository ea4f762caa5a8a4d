import CstGrammar.Proofs.Parser.Breaking

namespace CstGrammar

open Rule CstGrammar.Parser

namespace Grammar

def bareList (g : Grammar) : List (String × Rule) := g.toList.map (fun d ↦ (d.1, d.2.bare))

theorem mem_toList_iff {g : Grammar} {name : String} {rule : Rule} :
    (name, rule) ∈ g.toList ↔ g.get? name = some rule :=
  Std.ExtTreeMap.mem_toList_iff_getElem?_eq_some

theorem nodup_map_fst_toList (g : Grammar) : (g.toList.map Prod.fst).Nodup := by
  have h : g.toList.map Prod.fst = g.rules.keys := Std.ExtTreeMap.map_fst_toList_eq_keys
  rw [h]
  exact Std.ExtTreeMap.nodup_keys

/-- Grammars with the same rule for each name list the same rules. -/
theorem map_toList_congr {g h : Grammar} (f f' : Rule → Rule)
    (heq : ∀ name, (g.get? name).map f = (h.get? name).map f') :
    g.toList.map (fun d ↦ (d.1, f d.2)) = h.toList.map (fun d ↦ (d.1, f' d.2)) := by
  have hm : g.rules.map (fun _ r ↦ f r) = h.rules.map (fun _ r ↦ f' r) := by
    apply Std.ExtTreeMap.ext_getElem?
    intro name
    rw [Std.ExtTreeMap.getElem?_map, Std.ExtTreeMap.getElem?_map]
    exact heq name
  have hl := congrArg Std.ExtTreeMap.toList hm
  rwa [Std.ExtTreeMap.toList_map, Std.ExtTreeMap.toList_map] at hl

theorem mem_bareList_iff {g : Grammar} {name : String} {b : Rule} :
    (name, b) ∈ g.bareList ↔ (g.get? name).map bare = some b := by
  rw [bareList, List.mem_map, Option.map_eq_some_iff]
  constructor
  · rintro ⟨d, hd, heq⟩
    cases heq
    exact ⟨d.2, mem_toList_iff.mp hd, rfl⟩
  · rintro ⟨r, hr, rfl⟩
    exact ⟨(name, r), mem_toList_iff.mpr hr, rfl⟩

theorem nodup_bareList (g : Grammar) : g.bareList.Nodup := by
  have h : (g.bareList.map Prod.fst).Nodup := by
    rw [bareList, List.map_map]
    exact g.nodup_map_fst_toList
  exact List.Pairwise.of_map Prod.fst (fun _ _ hne heq ↦ hne (congrArg Prod.fst heq)) h

theorem sourceChars_eq (g : Grammar) :
    g.sourceChars = g.bareList.flatMap (fun d ↦ definitionLine d.1 d.2) := by
  rw [sourceChars, bareList, List.flatMap_map]
  simp only [definitionLine, sourceAt_bare]

/-- The source text does not tell where the rules were given. -/
theorem source_congr {g h : Grammar} (heq : g.bareList = h.bareList) : g.source = h.source := by
  rw [source, source, sourceChars_eq, sourceChars_eq, heq]

theorem words_definitionLine {name : String} {rule : Rule} (hname : isName name = true)
    (hrule : rule.hasNames = true) (rest : List Char) :
    words (definitionLine name rule ++ rest) = definitionWords (name, rule) ++ words rest := by
  have hn : Detached (' ' :: '=' :: ' ' :: (rule.sourceAt .alternation ++ '\n' :: rest)) :=
    detached_cons (by decide) _
  have hr : Detached ('\n' :: rest) := detached_cons (by decide) _
  have hl : definitionLine name rule ++ rest =
      name.toList ++ ' ' :: '=' :: ' ' :: (rule.sourceAt .alternation ++ '\n' :: rest) := by
    simp [definitionLine]
  rw [hl, words_name hname hn, words_blank (by decide), words_punctuation (c := '=') rfl,
    words_blank (by decide), words_sourceAt hrule .alternation hr, words_blank (by decide)]
  rfl

theorem words_definitionLines {ds : List (String × Rule)}
    (h : ∀ d ∈ ds, isName d.1 = true ∧ d.2.hasNames = true) :
    words (ds.flatMap (fun d ↦ definitionLine d.1 d.2)) = ds.flatMap definitionWords := by
  induction ds with
  | nil => exact words_nil
  | cons d ds ih =>
    obtain ⟨hd, hds⟩ := List.forall_mem_cons.mp h
    rw [List.flatMap_cons, words_definitionLine hd.1 hd.2, ih hds, List.flatMap_cons]

end Grammar

namespace Parse

/-- What comes of reading a grammar that has been written, if that is known for its rules. -/
theorem ofSource_source {g : Grammar} (tree : Rule → Rule)
    (hn : ∀ d ∈ g.toList, isName d.1 = true ∧ d.2.hasNames = true)
    (h : ∀ d ∈ g.toList, ReadsBack d.2 (tree d.2)) :
    (ofSource g.source).grammar.bareList = g.toList.map (fun d ↦ (d.1, (tree d.2).bare)) ∧
      (ofSource g.source).errors.length = (g.toList.filter (!·.2.isComplete)).length := by
  have hw : words g.source.toList = g.toList.flatMap definitionWords := by
    rw [Grammar.source, String.toList_ofList]
    exact Grammar.words_definitionLines hn
  obtain ⟨hget, hlen⟩ := ofSource_of_words tree hw g.nodup_map_fst_toList h
  refine ⟨Grammar.map_toList_congr bare (fun r ↦ (tree r).bare) fun name ↦ ?_, hlen⟩
  apply Option.ext
  intro b
  rw [hget name b, List.mem_map, Option.map_eq_some_iff]
  constructor
  · rintro ⟨d, hd, heq⟩
    cases heq
    exact ⟨d.2, Grammar.mem_toList_iff.mp hd, rfl⟩
  · rintro ⟨r, hr, rfl⟩
    exact ⟨(name, r), Grammar.mem_toList_iff.mpr hr, rfl⟩

theorem properNames_ofSource (source : String) :
    ProperNames (TokenStream.ofSource source).tokens :=
  fun _ ht hk ↦ (proper_of_mem_ofSource ht).isName hk

/-- Whatever the text, the rules that come of it are read back from their words. -/
theorem readsBack_of_get? {source name : String} {rule : Rule}
    (h : (ofSource source).grammar.get? name = some rule) :
    isName name = true ∧ rule.hasNames = true ∧ ReadsBack rule rule := by
  rw [ofSource, grammar_ofTokens, Grammar.get?_defineAll] at h
  obtain ⟨d, hl, rfl⟩ := Option.map_eq_some_iff.mp (Option.or_none.symm.trans h)
  obtain ⟨hd, rfl⟩ := Definition.mem_of_last? hl
  obtain ⟨hk, hm, us, rest, log, hs, hrun⟩ := exists_run_of_mem_definitions hd
  have hn := properNames_ofSource source
  have hrule : d.rule.Proper := hrun.proper (hn.suffix hs)
  exact ⟨hn d.name hm hk, hrule.hasNames, hrun.readsBack (hn.suffix hs)⟩

theorem words_single {rule : Rule} (hn : rule.hasNames = true) :
    words ("x = " ++ rule.source).toList = [("x", rule)].flatMap definitionWords := by
  have hnil : Detached [] := nofun
  have hw := words_sourceAt hn .alternation hnil
  have hs : ("x = " ++ rule.source).toList =
      "x".toList ++ ' ' :: '=' :: ' ' :: (rule.sourceAt .alternation ++ []) := by
    simp [source]
  rw [hs, words_name (by decide) (detached_cons (by decide) _), words_blank (by decide),
    words_punctuation (c := '=') rfl, words_blank (by decide), hw, words_nil]
  simp [definitionWords]

/-- A hand-built grammar without placeholders is read back from its source, but for its lists of
one, and so is a single rule. -/
theorem ofSource_printed :
    (∀ g : Grammar,
      (∀ name rule, g.get? name = some rule → isName name = true ∧ rule.hasNames = true ∧
        rule.hasParts 1 = true ∧ rule.isComplete = true) →
      (ofSource g.source).errors = [] ∧
      (ofSource g.source).grammar.bareList = g.toList.map (fun d ↦ (d.1, d.2.collapse.bare)) ∧
      ((∀ name rule, g.get? name = some rule → rule.hasParts 2 = true) →
        (ofSource g.source).grammar.bareList = g.bareList)) ∧
    ∀ rule : Rule, rule.hasNames = true → rule.hasParts 1 = true → rule.isComplete = true →
      (ofSource ("x = " ++ rule.source)).errors = [] ∧
      (ofSource ("x = " ++ rule.source)).grammar.bareList = [("x", rule.collapse.bare)] ∧
      (rule.hasParts 2 = true →
        (ofSource ("x = " ++ rule.source)).grammar.bareList = [("x", rule.bare)]) := by
  constructor
  · intro g h
    have hall : ∀ d ∈ g.toList, isName d.1 = true ∧ d.2.hasNames = true ∧
        d.2.hasParts 1 = true ∧ d.2.isComplete = true :=
      fun d hd ↦ h d.1 d.2 (Grammar.mem_toList_iff.mp hd)
    obtain ⟨hb, hl⟩ := ofSource_source collapse (fun d hd ↦ ⟨(hall d hd).1, (hall d hd).2.1⟩)
      (fun d hd ↦ readsBack_of_isComplete (hall d hd).2.2.1 (hall d hd).2.2.2)
    have hnone : g.toList.filter (!·.2.isComplete) = [] := by
      rw [List.filter_eq_nil_iff]
      intro d hd
      simp [(hall d hd).2.2.2]
    rw [hnone] at hl
    refine ⟨List.eq_nil_of_length_eq_zero hl, hb, fun h2 ↦ hb.trans ?_⟩
    apply List.map_congr_left
    intro d hd
    rw [collapse_eq_self (h2 d.1 d.2 (Grammar.mem_toList_iff.mp hd))]
  · intro rule hn hp hc
    have hback : ∀ d ∈ [("x", rule)], ReadsBack d.2 d.2.collapse := by
      intro d hd
      rw [List.mem_singleton.mp hd]
      exact readsBack_of_isComplete hp hc
    obtain ⟨hget, hl⟩ := ofSource_of_words collapse (words_single hn) (by simp) hback
    have hb : (ofSource ("x = " ++ rule.source)).grammar.bareList =
        [("x", rule.collapse.bare)] := by
      rw [← List.perm_singleton, List.perm_ext_iff_of_nodup (Grammar.nodup_bareList _) (by simp)]
      exact fun d ↦ Grammar.mem_bareList_iff.trans (hget d.1 d.2)
    have hnone : [("x", rule)].filter (!·.2.isComplete) = [] := by simp [hc]
    rw [hnone] at hl
    refine ⟨List.eq_nil_of_length_eq_zero hl, hb, fun h2 ↦ ?_⟩
    rw [hb, collapse_eq_self h2]

def single (rule : Rule) : Grammar := Grammar.define {} ⟨⟨.node, "R", .start⟩, rule⟩

def wrapped : Rule := .labeled "l" (some (.opt (.alt [some (.seq [.literal "'\\\n" .start]),
  some (.seq [.node "A" .start, .rep (.labeled "m" (some (.node "B_" .start)) .start)])]))) .start

theorem ofSource_printed_wrapped :
    (wrapped.hasNames = true ∧ wrapped.hasParts 1 = true ∧ wrapped.isComplete = true) ∧
      (ofSource (single wrapped).source).errors = [] ∧
      (ofSource (single wrapped).source).grammar.bareList =
        (single wrapped).toList.map (fun d ↦ (d.1, d.2.collapse.bare)) ∧
      (ofSource ("x = " ++ wrapped.source)).grammar.bareList = [("x", wrapped.collapse.bare)] := by
  have hw : wrapped.hasNames = true ∧ wrapped.hasParts 1 = true ∧ wrapped.isComplete = true := by
    decide
  have hg : ∀ name rule, (single wrapped).get? name = some rule → isName name = true ∧
      rule.hasNames = true ∧ rule.hasParts 1 = true ∧ rule.isComplete = true := by
    intro name rule h
    rw [single, Grammar.get?_define] at h
    split at h
    · next hn =>
      cases h
      exact ⟨hn ▸ (by decide), hw⟩
    · cases h
  obtain ⟨he, hb, -⟩ := ofSource_printed.1 (single wrapped) hg
  obtain ⟨-, hx, -⟩ := ofSource_printed.2 wrapped hw.1 hw.2.1 hw.2.2
  exact ⟨hw, he, hb, hx⟩

/-- Whatever the text, its grammar is read back from the source of the grammar, with an error for
each rule that has a placeholder. -/
theorem ofSource_source_ofSource (source : String) :
    let p := ofSource source
    let q := ofSource p.grammar.source
    q.grammar.bareList = p.grammar.bareList ∧
    q.grammar.source = p.grammar.source ∧
    q.errors.length = (p.grammar.toList.filter (!·.2.isComplete)).length ∧
    (q.errors = [] ↔ p.grammar.isComplete = true) := by
  intro p q
  have hall : ∀ d ∈ p.grammar.toList,
      isName d.1 = true ∧ d.2.hasNames = true ∧ ReadsBack d.2 d.2 :=
    fun d hd ↦ readsBack_of_get? (Grammar.mem_toList_iff.mp hd)
  obtain ⟨hb, hl⟩ := ofSource_source id (fun d hd ↦ ⟨(hall d hd).1, (hall d hd).2.1⟩)
    (fun d hd ↦ (hall d hd).2.2)
  refine ⟨hb, Grammar.source_congr hb, hl, ?_⟩
  rw [← List.length_eq_zero_iff, hl, List.length_eq_zero_iff, List.filter_eq_nil_iff,
    Grammar.isComplete, List.all_eq_true]
  simp

end Parse

end CstGrammar
