import CstGrammar.Proofs.Grammar.Concatenation
import CstGrammar.Proofs.Parser.Placeholders

namespace CstGrammar

namespace Parser

def latest? (name : String) (es : List Entry) : Option Entry :=
  es.reverse.find? (Entry.defines name)

/-- Whether the definition gives a rule to a name that one of the definitions in front of it gives a
rule to. -/
def Entry.redefines (earlier : List Entry) (e : Entry) : Bool :=
  e.rule.isSome && earlier.any (Entry.defines e.name.value)

variable {name : String} {e : Entry} {es : List Entry}

theorem exists_of_defines (h : e.defines name = true) :
    ∃ rule, e.rule = some rule ∧ e.name.value = name := by
  rw [Entry.defines, Bool.and_eq_true, decide_eq_true_eq] at h
  obtain ⟨rule, hr⟩ := Option.isSome_iff_exists.mp h.1
  exact ⟨rule, hr, h.2⟩

theorem mem_of_latest? (h : latest? name es = some e) : e ∈ es ∧ e.defines name = true :=
  ⟨List.mem_reverse.mp (List.mem_of_find?_eq_some h), List.find?_some h⟩

theorem isSome_latest? : (latest? name es).isSome = true ↔ ∃ e ∈ es, e.defines name = true := by
  simp only [latest?, List.find?_isSome, List.mem_reverse]

theorem mem_definitions_iff : name ∈ (definitions es).map (·.name.value) ↔
    es.any (Entry.defines name) = true := by
  rw [List.any_eq_true, List.mem_map]
  constructor
  · rintro ⟨d, hd, rfl⟩
    obtain ⟨e, he, hed⟩ := List.mem_filterMap.mp hd
    obtain ⟨rule, hr, rfl⟩ := Option.map_eq_some_iff.mp hed
    exact ⟨e, he, by simp [Entry.defines, hr]⟩
  · rintro ⟨e, he, hd⟩
    obtain ⟨rule, hr, hn⟩ := exists_of_defines hd
    exact ⟨⟨e.name, rule⟩, List.mem_filterMap.mpr ⟨e, he, by simp [Entry.definition?, hr]⟩, hn⟩

theorem repetition_eq (earlier : List Entry) (e : Entry) : e.repetition earlier =
    if e.redefines earlier then [⟨e.name.location, .duplicateName e.name.value⟩] else [] := by
  rw [Entry.repetition, Entry.redefines, Definition.repeated]
  cases hr : e.rule.isSome with
  | false => rfl
  | true => simp only [mem_definitions_iff, Bool.true_and, if_true]

theorem flatMap_ite {α β : Type} (c : α → Bool) (f : α → β) (xs : List α) :
    xs.flatMap (fun x ↦ if c x then [f x] else []) = (xs.filter c).map f := by
  induction xs with
  | nil => rfl
  | cons x xs ih =>
    rw [List.flatMap_cons, ih, List.filter_cons]
    split <;> rfl

theorem length_definitions (es : List Entry) :
    (definitions es).length + (es.filter (·.rule.isNone)).length = es.length := by
  induction es with
  | nil => rfl
  | cons e es ih =>
    rw [definitions] at ih ⊢
    cases hr : e.rule with
    | none =>
      rw [List.filterMap_cons_none (by simp [Entry.definition?, hr]),
        List.filter_cons_of_pos (by simp [hr]), List.length_cons, List.length_cons]
      omega
    | some rule =>
      rw [List.filterMap_cons_some (by simp [Entry.definition?, hr]; rfl),
        List.filter_cons_of_neg (by simp [hr]), List.length_cons, List.length_cons]
      omega

end Parser

namespace Parse

open CstGrammar.Parser

variable (s : TokenStream) (name : String)

theorem get?_ofTokens : (ofTokens s).grammar.get? name =
    (latest? name (entries s.finish s.tokens)).bind (·.rule) := by
  have hempty : Grammar.get? {} name = none := rfl
  rw [grammar_ofTokens, Grammar.get?_defineAll, last?_definitions, hempty, Option.or_none]
  change (Option.bind (latest? name _) _).map _ = _
  cases latest? name (entries s.finish s.tokens) with
  | none => rfl
  | some e =>
    change (e.rule.map _).map _ = e.rule
    cases e.rule <;> rfl

theorem locationOf?_ofTokens : (ofTokens s).grammar.locationOf? name =
    (latest? name (entries s.finish s.tokens)).map (·.name.location) := by
  have hempty : Grammar.locationOf? {} name = none := rfl
  rw [grammar_ofTokens, Grammar.locationOf?_defineAll, last?_definitions, hempty, Option.or_none]
  change (Option.bind (latest? name _) _).map _ = _
  cases hl : latest? name (entries s.finish s.tokens) with
  | none => rfl
  | some e =>
    obtain ⟨rule, hr, -⟩ := exists_of_defines (mem_of_latest? hl).2
    change (e.rule.map _).map _ = _
    rw [hr]
    rfl

theorem mem_rules_ofTokens : name ∈ (ofTokens s).grammar.rules ↔
    ∃ e ∈ entries s.finish s.tokens, e.defines name = true := by
  rw [Std.ExtTreeMap.mem_iff_isSome_getElem?, ← isSome_latest?]
  change ((ofTokens s).grammar.get? name).isSome = true ↔ _
  rw [get?_ofTokens]
  cases hl : latest? name (entries s.finish s.tokens) with
  | none => rfl
  | some e =>
    obtain ⟨rule, hr, -⟩ := exists_of_defines (mem_of_latest? hl).2
    simp [hr]

theorem mem_nameLocations_ofTokens : name ∈ (ofTokens s).grammar.nameLocations ↔
    ∃ e ∈ entries s.finish s.tokens, e.defines name = true := by
  rw [Std.ExtTreeMap.mem_iff_isSome_getElem?, ← isSome_latest?]
  change ((ofTokens s).grammar.locationOf? name).isSome = true ↔ _
  rw [locationOf?_ofTokens, Option.isSome_map]

theorem filter_isDuplicate_ofTokens : (ofTokens s).errors.filter (·.isDuplicate) =
    (((entries s.finish s.tokens).zip (entries s.finish s.tokens).inits).filter
      (fun r ↦ r.1.redefines r.2)).map
        (fun r ↦ ⟨r.1.name.location, .duplicateName r.1.name.value⟩) := by
  have hr : ∀ r ∈ (entries s.finish s.tokens).zip (entries s.finish s.tokens).inits,
      (r.1.errors ++ r.1.repetition r.2).filter (·.isDuplicate) =
        if r.1.redefines r.2 then [⟨r.1.name.location, .duplicateName r.1.name.value⟩] else [] := by
    intro r hr
    have hown : r.1.errors.filter (·.isDuplicate) = [] := by
      rw [List.filter_eq_nil_iff]
      intro err herr
      simp [isDuplicate_of_mem_entries (List.of_mem_zip hr).1 err herr]
    rw [List.filter_append, hown, List.nil_append, repetition_eq]
    split <;> rfl
  rw [errors_ofTokens, reports_eq_flatMap, List.filter_flatMap, ← flatMap_ite]
  exact List.flatMap_congr hr

theorem length_filter_isDuplicate :
    (ofTokens s).grammar.size + ((ofTokens s).errors.filter (·.isDuplicate)).length =
      (definitions (entries s.finish s.tokens)).length := by
  have hall := length_errors_add_size s
  have hsplit := List.length_eq_length_filter_add (l := (ofTokens s).errors) (·.isDuplicate)
  rw [filter_errors_ofTokens] at hsplit
  omega

/-- Each name has the rule and the place of its last definition that gives a rule. Every such
definition but the first one of its name is reported, and every one that gives no rule has an error
of its own. -/
theorem ofSource_definitions (source : String) :
    let s := TokenStream.ofSource source
    let p := ofSource source
    let cs := clauses s.tokens
    let es := cs.map (Clause.entry s.finish)
    (passages s.finish s.tokens).filterMap Passage.entry? = es ∧
    (∀ name, (name ∈ p.grammar.rules ↔ ∃ e ∈ es, e.defines name = true) ∧
      (name ∈ p.grammar.nameLocations ↔ ∃ e ∈ es, e.defines name = true)) ∧
    (∀ name, p.grammar.get? name = (latest? name es).bind (·.rule) ∧
      p.grammar.locationOf? name = (latest? name es).map (·.name.location)) ∧
    p.errors.filter (·.isDuplicate) = ((es.zip es.inits).filter (fun r ↦ r.1.redefines r.2)).map
      (fun r ↦ ⟨r.1.name.location, .duplicateName r.1.name.value⟩) ∧
    p.errors.filter (!·.isDuplicate) = es.flatMap (·.errors) ∧
    cs.length = p.grammar.size + (p.errors.filter (·.isDuplicate)).length +
      (es.filter (·.rule.isNone)).length ∧
    ∀ e ∈ es, e.rule = none → e.errors.length = 1 := by
  intro s p cs es
  have hes : entries s.finish s.tokens = es := entries_eq_map s.tokens
  rw [← hes]
  refine ⟨rfl, ?_, ?_, filter_isDuplicate_ofTokens s, filter_errors_ofTokens s, ?_, ?_⟩
  · intro name
    exact ⟨mem_rules_ofTokens s name, mem_nameLocations_ofTokens s name⟩
  · intro name
    exact ⟨get?_ofTokens s name, locationOf?_ofTokens s name⟩
  · have hsize : p.grammar.size + (p.errors.filter (·.isDuplicate)).length =
        (definitions (entries s.finish s.tokens)).length := length_filter_isDuplicate s
    have hlen : cs.length = es.length := (List.length_map _).symm
    rw [hsize, length_definitions, hes, hlen]
  · intro e he hnone
    rw [hes] at he
    obtain ⟨c, -, rfl⟩ := List.mem_map.mp he
    exact Clause.length_errors_eq_one hnone

end Parse

end CstGrammar
