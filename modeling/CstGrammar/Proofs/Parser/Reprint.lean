import CstGrammar.Grammar.Source
import CstGrammar.Proofs.Parser.Entries
import CstGrammar.Proofs.Parser.Spelling

namespace CstGrammar

namespace Parser

/-- The words of a rule are read as `tree` in front of any definition, and an error shows if and
only if there is a placeholder. -/
def ReadsBack (rule tree : Rule) : Prop :=
  ∀ (finish : Location) (ts rest : List Token), ts.map Token.word = rule.wordsAt .alternation →
    Boundary rest → ∃ v log, Run finish .alt (ts ++ rest) (some v) rest log ∧
      v.bare = tree.bare ∧
        (errorsOf log).length = if rule.isComplete then 0 else 1

theorem readsBack_of_isComplete {rule : Rule} (hp : rule.hasParts 1 = true)
    (hc : rule.isComplete = true) : ReadsBack rule rule.collapse := by
  intro finish ts rest ht hb
  obtain ⟨d, hd, htree⟩ := spells_wordsAt hp hc ht
  have he : Phrase.alt.Ends finish rest := Phrase.ends_of_boundary .alt hb
  obtain ⟨log, h, hl⟩ := d.run hd he (absurd · (by decide))
  exact ⟨d.tree, log, h, htree, by rw [hl, if_pos hc]; rfl⟩

def definitionWords (d : String × Rule) : List Word :=
  (.node, d.1) :: (.equals, "=") :: d.2.wordsAt .alternation

def Entry.gist (e : Entry) : String × Option Rule × Nat :=
  (e.name.value, e.rule.map Rule.bare, e.errors.length)

variable {finish : Location} {ds : List (String × Rule)} {tree : Rule → Rule}

theorem boundary_of_definitionWords {ts : List Token}
    (ht : ts.map Token.word = ds.flatMap definitionWords) : Boundary ts := by
  cases ds with
  | nil => exact .inl (List.map_eq_nil_iff.mp ht)
  | cons d ds =>
    obtain ⟨name, ts', rfl, hn, ht'⟩ := List.map_eq_cons_iff.mp ht
    obtain ⟨equals, us, rfl, he, -⟩ := List.map_eq_cons_iff.mp ht'
    apply Or.inr
    simp [startsDefinition, kind_of_word hn, kind_of_word he]

theorem gist_entries (h : ∀ d ∈ ds, ReadsBack d.2 (tree d.2)) {ts : List Token}
    (ht : ts.map Token.word = ds.flatMap definitionWords) : (entries finish ts).map Entry.gist =
      ds.map (fun d ↦ (d.1, some (tree d.2).bare, if d.2.isComplete then 0 else 1)) := by
  induction ds generalizing ts with
  | nil =>
    obtain rfl := List.map_eq_nil_iff.mp ht
    rw [entries_nil]
    rfl
  | cons d ds ih =>
    obtain ⟨hd, hds⟩ := List.forall_mem_cons.mp h
    rw [List.flatMap_cons] at ht
    obtain ⟨us, rest, rfl, hu, hrest⟩ := List.map_eq_append_iff.mp ht
    obtain ⟨name, us', rfl, hn, hu'⟩ := List.map_eq_cons_iff.mp hu
    obtain ⟨equals, vs, rfl, he, hv⟩ := List.map_eq_cons_iff.mp hu'
    obtain ⟨v, log, hrun, hb, hl⟩ := hd finish vs rest hv (boundary_of_definitionWords hrest)
    have hentry := entries_of_run (kind_of_word hn) (kind_of_word he) hrun
    rw [List.cons_append, List.cons_append, hentry, List.map_cons, List.map_cons, ih hds hrest]
    simp [Entry.gist, value_of_word hn, hb, hl]

theorem map_definitions (es : List Entry) :
    (definitions es).map (fun d ↦ (d.name.value, d.rule.bare)) =
      (es.map Entry.gist).filterMap (fun e ↦ e.2.1.map (e.1, ·)) := by
  induction es with
  | nil => rfl
  | cons e es ih =>
    match e with
    | ⟨name, none, errors⟩ => exact ih
    | ⟨name, some rule, errors⟩ => exact congrArg ((name.value, rule.bare) :: ·) ih

theorem length_flatMap_errors {es : List Entry}
    (h : es.map (·.errors.length) = ds.map (fun d ↦ if d.2.isComplete then 0 else 1)) :
    (es.flatMap (·.errors)).length = (ds.filter (!·.2.isComplete)).length := by
  induction ds generalizing es with
  | nil =>
    obtain rfl := List.map_eq_nil_iff.mp h
    rfl
  | cons d ds ih =>
    obtain ⟨e, es, rfl, he, hes⟩ := List.map_eq_cons_iff.mp h
    have hcount : e.errors.length = if d.2.isComplete then 0 else 1 := he
    rw [List.flatMap_cons, List.length_append, hcount, ih hes, List.filter_cons]
    cases d.2.isComplete with
    | true => exact Nat.zero_add _
    | false => exact Nat.add_comm _ _

end Parser

open Rule CstGrammar.Parser

/-- A text in which definitions of different names stand is read as these definitions. -/
theorem Parse.ofSource_of_words {source : String} {ds : List (String × Rule)} (tree : Rule → Rule)
    (hw : words source.toList = ds.flatMap definitionWords)
    (hd : (ds.map Prod.fst).Nodup) (h : ∀ d ∈ ds, ReadsBack d.2 (tree d.2)) :
    (∀ name b, ((ofSource source).grammar.get? name).map bare = some b ↔
      (name, b) ∈ ds.map (fun d ↦ (d.1, (tree d.2).bare))) ∧
    (ofSource source).errors.length = (ds.filter (!·.2.isComplete)).length := by
  have hg := @gist_entries (TokenStream.ofSource source).finish ds tree h _
    ((map_word_ofSource source).trans hw)
  have hgrammar := grammar_ofTokens (.ofSource source)
  have herrors := errors_ofTokens (.ofSource source)
  generalize entries _ _ = es at hg hgrammar herrors
  have hdefs : (definitions es).map (fun d ↦ (d.name.value, d.rule.bare)) =
      ds.map (fun d ↦ (d.1, (tree d.2).bare)) := by
    rw [map_definitions, hg, List.filterMap_map]
    exact congrFun List.filterMap_eq_map ds
  have hnames : ((definitions es).map (·.name.value)).Nodup := by
    have hf := congrArg (List.map Prod.fst) hdefs
    rw [List.map_map, List.map_map] at hf
    exact (show (definitions es).map (·.name.value) = ds.map Prod.fst from hf) ▸ hd
  constructor
  · intro name b
    rw [← hdefs, ofSource, hgrammar, Grammar.get?_defineAll, List.mem_map]
    constructor
    · intro hb
      obtain ⟨rule, hr, rfl⟩ := Option.map_eq_some_iff.mp hb
      obtain ⟨d, hl, rfl⟩ := Option.map_eq_some_iff.mp (Option.or_none.symm.trans hr)
      obtain ⟨hm, rfl⟩ := (Definition.last?_eq_some_iff hnames).mp hl
      exact ⟨d, hm, rfl⟩
    · rintro ⟨d, hm, heq⟩
      cases heq
      rw [(Definition.last?_eq_some_iff hnames).mpr ⟨hm, rfl⟩]
      rfl
  · rw [ofSource, herrors, length_reports,
      Definition.repetitions_eq_nil hnames (fun _ _ ↦ List.not_mem_nil)]
    have hl := congrArg (List.map (fun e : String × Option Rule × Nat ↦ e.2.2)) hg
    rw [List.map_map, List.map_map] at hl
    exact length_flatMap_errors hl

end CstGrammar
