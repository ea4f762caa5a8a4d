import Mathlib.Algebra.GroupWithZero.Nat
import CstGrammar.Proofs.Grammar.RoundTrip
import CstGrammar.Proofs.Parser.Errors

namespace CstGrammar

def Rule.holes : Rule → Nat := fold
  { node _ _ := 0
    literal _ _ := 0
    labeled _ part _ := part.getD 1
    seq := List.sum
    alt parts := (parts.map (·.getD 1)).sum
    opt := id
    rep := id }

namespace Rule

variable (name label value : String) (loc : Location) (rule : Rule) (part : Option Rule)
  (rules : List Rule) (parts : List (Option Rule))

@[simp] theorem holes_node : (node name loc).holes = 0 := rfl

@[simp] theorem holes_literal : (literal value loc).holes = 0 := rfl

@[simp] theorem holes_labeled : (labeled label part loc).holes = part.elim 1 holes := by
  cases part <;> simp [holes]

@[simp] theorem holes_seq : (seq rules).holes = (rules.map holes).sum := by
  simp [holes]

@[simp] theorem holes_alt : (alt parts).holes = (parts.map (·.elim 1 holes)).sum := by
  simp only [holes, fold_alt, List.map_map]
  congr 2
  funext part
  cases part <;> rfl

@[simp] theorem holes_opt : (opt rule).holes = rule.holes := rfl

@[simp] theorem holes_rep : (rep rule).holes = rule.holes := rfl

theorem holes_eq_zero_iff : rule.holes = 0 ↔ rule.isComplete = true := by
  induction rule using Rule.induction with
  | node | literal => simp
  | labeled label part loc ih =>
    cases part with
    | none => simp
    | some rule => simpa using ih rule rfl
  | seq rules ih =>
    rw [holes_seq, isComplete_seq, List.sum_eq_zero_iff_forall_eq_nat, List.forall_mem_map,
      List.all_eq_true]
    exact forall₂_congr ih
  | alt parts ih =>
    rw [holes_alt, isComplete_alt, List.sum_eq_zero_iff_forall_eq_nat, List.forall_mem_map,
      List.all_eq_true]
    refine forall₂_congr fun part hm ↦ ?_
    cases part with
    | none => simp
    | some rule => simpa using ih rule hm
  | opt rule ih | rep rule ih => exact ih

theorem Cut.holes_eq {rule : Rule} (h : rule.Cut) : rule.holes = 1 := by
  induction h with
  | @labeled label part loc _ ih =>
    cases part with
    | none => rfl
    | some rule => simpa using ih rule rfl
  | @seq init last _ hi _ ih =>
    have hinit : (init.map holes).sum = 0 := by
      rw [List.sum_eq_zero_iff_forall_eq_nat, List.forall_mem_map]
      exact fun r hr ↦ (holes_eq_zero_iff r).mpr (hi r hr)
    rw [holes_seq, List.map_append, List.sum_append_nat, hinit]
    simpa using ih
  | @alt init part _ hi _ ih =>
    have hinit : ((init.map some).map (·.elim 1 holes)).sum = 0 := by
      rw [List.map_map, List.sum_eq_zero_iff_forall_eq_nat, List.forall_mem_map]
      exact fun r hr ↦ (holes_eq_zero_iff r).mpr (hi r hr)
    rw [holes_alt, List.map_append, List.sum_append_nat, hinit]
    cases part with
    | none => rfl
    | some rule => simpa using ih rule rfl

end Rule

theorem ErrorList.accept_eq_ok_iff {α : Type} {errors : ErrorList} {value v : α} :
    errors.accept value = .ok v ↔ errors = [] ∧ value = v := by
  cases errors <;> simp [accept]

namespace Parser

def Entry.defines (name : String) (e : Entry) : Bool := e.rule.isSome && e.name.value = name

theorem last?_definitions (name : String) (es : List Entry) :
    Definition.last? name (definitions es) =
      (es.reverse.find? (Entry.defines name)).bind Entry.definition? := by
  have hd : (fun e : Entry ↦ e.definition?.any (·.name.value = name)) = Entry.defines name := by
    funext e
    match e with
    | ⟨_, none, _⟩ | ⟨_, some _, _⟩ => simp [Entry.defines, Entry.definition?]
  rw [Definition.last?, definitions, ← List.filterMap_reverse, List.find?_filterMap, hd]

/-- A rule with a placeholder comes from a definition with an error. -/
theorem Clause.cut_of_rule {finish : Location} (c : Clause) {rule : Rule}
    (hr : (c.entry finish).rule = some rule) (hc : rule.isComplete = false) :
    rule.Cut ∧ (c.entry finish).errors ≠ [] := by
  have hrun := c.run finish
  have hv : (c.reply finish).value = some rule := hr
  rw [hv] at hrun
  rw [← c.errorsOf_log_reply]
  apply hrun.whole_or_breaksOff.resolve_left
  intro hw
  have hw' : rule.isComplete = true := hw
  rw [hw'] at hc
  cases hc

end Parser

namespace Grammar

open CstGrammar.Parser

def incomplete (g : Grammar) : List (String × Rule) := g.toList.filter (!·.2.isComplete)

theorem isComplete_of_incomplete {g : Grammar} (h : g.incomplete = []) : g.isComplete = true := by
  rw [incomplete, List.filter_eq_nil_iff] at h
  rw [isComplete, List.all_eq_true]
  intro d hd
  simpa using h d hd

theorem length_incomplete_le {g : Grammar} {es : List Entry}
    (h : ∀ name rule, g.get? name = some rule → rule.isComplete = false →
      ∃ e ∈ es, e.name.value = name ∧ e.errors ≠ []) :
    g.incomplete.length ≤ (es.flatMap (·.errors)).length := by
  let blamed : List String := es.flatMap (fun e ↦ e.errors.map (fun _ ↦ e.name.value))
  have hnodup : (g.incomplete.map Prod.fst).Nodup :=
    (List.filter_sublist.map Prod.fst).nodup g.nodup_map_fst_toList
  have hsub : g.incomplete.map Prod.fst ⊆ blamed := by
    intro name hname
    obtain ⟨⟨_, rule⟩, hm, rfl⟩ := List.mem_map.mp hname
    obtain ⟨hm, hc⟩ := List.mem_filter.mp hm
    obtain ⟨e, he, hn, hne⟩ := h _ rule (mem_toList_iff.mp hm) (by simpa using hc)
    obtain ⟨err, herr⟩ := List.exists_mem_of_ne_nil _ hne
    exact List.mem_flatMap.mpr ⟨e, he, List.mem_map.mpr ⟨err, herr, hn⟩⟩
  calc g.incomplete.length
      = (g.incomplete.map Prod.fst).length := (List.length_map _).symm
    _ ≤ blamed.length := hnodup.length_le_of_subset hsub
    _ = (es.flatMap (·.errors)).length := by simp [blamed, List.length_flatMap]

end Grammar

namespace Parse

open CstGrammar.Parser

theorem exists_entry_of_get? {s : TokenStream} {name : String} {rule : Rule}
    (h : (ofTokens s).grammar.get? name = some rule) : ∃ e,
      (entries s.finish s.tokens).reverse.find? (Entry.defines name) = some e ∧
      e.rule = some rule ∧ (rule.isComplete = false → rule.Cut ∧ e.errors ≠ []) := by
  rw [grammar_ofTokens, Grammar.get?_defineAll] at h
  have hlast : (Definition.last? name (definitions (entries s.finish s.tokens))).map
      Definition.rule = some rule := Option.or_none.symm.trans h
  rw [last?_definitions] at hlast
  obtain ⟨d, hd, rfl⟩ := Option.map_eq_some_iff.mp hlast
  obtain ⟨e, hf, he⟩ := Option.bind_eq_some_iff.mp hd
  obtain ⟨rule, hr, rfl⟩ := Option.map_eq_some_iff.mp he
  refine ⟨e, hf, hr, ?_⟩
  have hm := List.mem_reverse.mp (List.mem_of_find?_eq_some hf)
  rw [entries_eq_map] at hm
  obtain ⟨c, -, rfl⟩ := List.mem_map.mp hm
  exact c.cut_of_rule hr

/-- A rule has at most one placeholder, where it breaks off, and only if there is an error in the
definition that gives the rule. -/
theorem ofSource_placeholders (source : String) :
    let s := TokenStream.ofSource source
    let p := ofSource source
    let es := entries s.finish s.tokens
    p.errors.filter (!·.isDuplicate) = es.flatMap (·.errors) ∧
    (∀ name rule, p.grammar.get? name = some rule →
      ∃ e, es.reverse.find? (Entry.defines name) = some e ∧ e.rule = some rule ∧ rule.holes ≤ 1 ∧
        (rule.isComplete = false → rule.Cut ∧ e.errors ≠ [])) ∧
    p.grammar.incomplete.length ≤ (p.errors.filter (!·.isDuplicate)).length ∧
    (p.errors = [] → p.grammar.isComplete = true) ∧
    ∀ g, p.accepted = .ok g → g.isComplete = true := by
  intro s p es
  have hfilter : p.errors.filter (!·.isDuplicate) = es.flatMap (·.errors) :=
    filter_errors_ofTokens s
  have hcount : p.grammar.incomplete.length ≤ (es.flatMap (·.errors)).length := by
    apply Grammar.length_incomplete_le
    intro name rule h hc
    obtain ⟨e, hf, -, hcut⟩ := exists_entry_of_get? h
    have hd := List.find?_some hf
    rw [Entry.defines, Bool.and_eq_true, decide_eq_true_eq] at hd
    exact ⟨e, List.mem_reverse.mp (List.mem_of_find?_eq_some hf), hd.2, (hcut hc).2⟩
  have hcomplete : p.errors = [] → p.grammar.isComplete = true := by
    intro hnil
    rw [← hfilter, hnil] at hcount
    exact Grammar.isComplete_of_incomplete (List.eq_nil_of_length_eq_zero (Nat.le_zero.mp hcount))
  refine ⟨hfilter, ?_, hfilter ▸ hcount, hcomplete, ?_⟩
  · intro name rule h
    obtain ⟨e, hf, hr, hcut⟩ := exists_entry_of_get? h
    refine ⟨e, hf, hr, ?_, hcut⟩
    cases hc : rule.isComplete with
    | true => exact (rule.holes_eq_zero_iff.mpr hc).trans_le (Nat.zero_le 1)
    | false => exact (hcut hc).1.holes_eq.le
  · intro g hg
    obtain ⟨hnil, rfl⟩ := ErrorList.accept_eq_ok_iff.mp hg
    exact hcomplete hnil

end Parse

end CstGrammar
