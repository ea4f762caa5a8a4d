import CstGrammar.Proofs.Grammar.Redefinition

namespace CstGrammar

namespace Rule

/-- The rule as it is built from its parts, with a check of its own list. -/
def rebuilt : Rule → Except ShapeError Rule
  | seq rules => seq? rules
  | alt parts => alt? parts
  | rule => .ok rule

theorem location_labeled (label : String) (part : Option Rule) (loc : Location) :
    (labeled label part loc).location = .ok loc := fold_labeled _ label part loc

theorem location_seq (first : Rule) (rules : List Rule) :
    (seq (first :: rules)).location = first.location := fold_seq _ (first :: rules)

theorem location_alt (first : Rule) (parts : List (Option Rule)) :
    (alt (some first :: parts)).location = first.location := fold_alt _ (some first :: parts)

namespace Proper

variable {rule : Rule}

theorem rebuilt_eq (h : rule.Proper) : rule.rebuilt = .ok rule := by
  cases h <;> rfl

/-- A rule starts at its first leaf. -/
theorem exists_leaves_eq (h : rule.Proper) :
    ∃ t ts, rule.leaves = t :: ts ∧ rule.location = .ok t.location := by
  induction h with
  | node | literal => exact ⟨_, _, rfl, rfl⟩
  | labeled => exact ⟨_, _, leaves_labeled .., location_labeled ..⟩
  | @seq first second rules _ ih =>
    obtain ⟨t, ts, hl, hloc⟩ := ih first List.mem_cons_self
    rw [leaves_seq, List.flatMap_cons, hl, location_seq]
    exact ⟨_, _, rfl, hloc⟩
  | @alt first second parts _ ih =>
    obtain ⟨t, ts, hl, hloc⟩ := ih first List.mem_cons_self
    rw [leaves_alt, List.flatMap_cons, Option.elim_some, hl, location_alt]
    exact ⟨_, _, rfl, hloc⟩
  | opt _ ih | rep _ ih => exact ih

end Proper

end Rule

namespace Parser

variable {finish : Location} {c : Clause} {rule : Rule}

theorem Clause.proper (h : (c.entry finish).rule = some rule)
    (hn : ProperNames (c.tokens ++ c.next)) : rule.Proper := by
  have hrun := c.run finish
  have hv : (c.reply finish).value = some rule := h
  rw [hv] at hrun
  exact hrun.proper (hn.suffix ((List.suffix_cons _ _).trans (List.suffix_cons _ _)))

/-- A leaf of a rule stands behind the name that the rule is given to. -/
theorem Clause.location_lt_of_mem_leaves (h : (c.entry finish).rule = some rule)
    (hs : Sorted finish (c.tokens ++ c.next)) {t : Token} (ht : t ∈ rule.leaves) :
    c.name.location < t.location := by
  have hbody : t ∈ c.body := by
    have hout := c.outcome finish
    rw [h] at hout
    rcases hout with ⟨taken, hbody, hl, -⟩ | ⟨taken, _, _, hbody, hl, -⟩
    all_goals
      have hm : t ∈ taken.filter Token.isLeaf := hl ▸ ht
      rw [hbody]
      exact List.mem_append_left _ (List.mem_filter.mp hm).1
  apply List.rel_of_pairwise_cons hs.1
  exact List.mem_cons_of_mem _ (List.mem_append_left _ hbody)

end Parser

namespace Parse

open CstGrammar.Parser

theorem exists_clause_of_get? {s : TokenStream} {name : String} {rule : Rule}
    (h : (ofTokens s).grammar.get? name = some rule) : ∃ c ∈ clauses s.tokens,
      c.name.value = name ∧ (c.entry s.finish).rule = some rule ∧
        (ofTokens s).grammar.locationOf? name = some c.name.location := by
  rw [get?_ofTokens] at h
  obtain ⟨e, hl, hr⟩ := Option.bind_eq_some_iff.mp h
  obtain ⟨he, hd⟩ := mem_of_latest? hl
  obtain ⟨_, -, hn⟩ := exists_of_defines hd
  rw [entries_eq_map] at he
  obtain ⟨c, hc, rfl⟩ := List.mem_map.mp he
  exact ⟨c, hc, hn, hr, by rw [locationOf?_ofTokens, hl]; rfl⟩

/-- Wherever the parser builds a list, the list passes its check. In a grammar, each rule has its
names from the text, and starts at its first leaf, behind the name that it is given to. -/
theorem ofSource_proper (source : String) :
    let s := TokenStream.ofSource source
    let g := (ofSource source).grammar
    (∀ first second rules, Rule.seq? (first :: second :: rules) =
      .ok (sequence first (second :: rules))) ∧
    (∀ first second parts, Rule.alt? (some first :: second :: parts) =
      .ok (alternation first (second :: parts))) ∧
    (∀ ts, ts <:+ s.tokens → ∀ rule,
      rule ∈ (seq s.finish ts).value ∨ rule ∈ (alt s.finish ts).value →
        ∀ sub : Rule, sub.Within rule → sub.rebuilt = .ok sub) ∧
    ∀ name rule, g.get? name = some rule → isName name = true ∧ rule.Proper ∧
      (∀ sub : Rule, sub.Within rule →
        ∃ t ts, sub.leaves = t :: ts ∧ sub.location = .ok t.location) ∧
      ∃ loc start, g.locationOf? name = some loc ∧ rule.location = .ok start ∧ loc < start := by
  intro s g
  have hnames : ProperNames s.tokens := properNames_ofSource source
  refine ⟨fun _ _ _ ↦ rfl, fun _ _ _ ↦ rfl, ?_, ?_⟩
  · intro ts hts rule hr sub hsub
    have hp : rule.Proper := by
      rcases hr with hr | hr
      · have hrun := run_seq s.finish ts
        rw [Option.mem_def.mp hr] at hrun
        exact hrun.proper (hnames.suffix hts)
      · have hrun := run_alt s.finish ts
        rw [Option.mem_def.mp hr] at hrun
        exact hrun.proper (hnames.suffix hts)
    exact (hp.of_within hsub).rebuilt_eq
  · intro name rule h
    obtain ⟨c, hc, rfl, hr, hloc⟩ := exists_clause_of_get? h
    have hts : c.tokens ++ c.next <:+ s.tokens := suffix_of_mem_clauses hc
    have hp := c.proper hr (hnames.suffix hts)
    have hname : isName c.name.value = true :=
      hnames c.name (hts.subset List.mem_cons_self) c.name_kind
    obtain ⟨t, ts, hl, hstart⟩ := hp.exists_leaves_eq
    refine ⟨hname, hp, ?_, c.name.location, t.location, hloc, hstart, ?_⟩
    · intro sub hsub
      exact (hp.of_within hsub).exists_leaves_eq
    · have hs : Sorted s.finish s.tokens := TokenStream.sorted_ofSource source
      apply Clause.location_lt_of_mem_leaves hr (hs.suffix hts)
      rw [hl]
      exact List.mem_cons_self

end Parse

end CstGrammar
