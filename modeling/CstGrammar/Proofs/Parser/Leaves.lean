import CstGrammar.Proofs.Parser.Clauses
import CstGrammar.Proofs.Parser.Results

namespace CstGrammar

namespace Parser

variable {finish : Location} {p : Phrase} {ts rest : List Token} {v : p.Value} {log : List Event}

theorem Run.leaves_ne_nil (h : Run finish p ts v rest log) : p.All (·.leaves ≠ []) v := by
  induction h with
  | alternatives_stop | elements_stop | elements_none => exact nofun
  | alt_none | seq_missing | seq_none | single_none | atom_error | group_none => exact trivial
  | single_plain _ _ _ ih | single_opt _ _ ih | single_rep _ _ ih
  | group_reported _ _ _ ih | group_closed _ _ _ _ ih | group_unclosed _ _ _ _ ih => exact ih
  | alt_some _ _ ih =>
    change (alternation _ _).leaves ≠ []
    rw [leaves_alternation]
    exact List.append_ne_nil_of_left_ne_nil ih _
  | alternatives_cons _ _ _ ih ih' =>
    intro r hr
    rcases List.mem_cons.mp hr with rfl | hr
    · exact ih
    · exact ih' r hr
  | seq_some _ _ ih =>
    change (sequence _ _).leaves ≠ []
    rw [leaves_sequence]
    exact List.append_ne_nil_of_left_ne_nil ih _
  | elements_cons _ _ ih ih' => exact List.forall_mem_cons.mpr ⟨ih, ih'⟩
  | atom_node | atom_literal => exact List.cons_ne_nil _ _
  | labeled_missing | labeled_some =>
    change (Rule.labeled _ _ _).leaves ≠ []
    rw [Rule.leaves_labeled]
    exact List.cons_ne_nil _ _

theorem boundary_of_skipping {ts : List Token}
    (h : ∀ n loc, .synchronized n loc ∈ skipping finish ts → n = 0) : Boundary ts := by
  apply boundary_of_distance
  by_contra hd
  rw [skipping, if_neg hd] at h
  exact hd (h _ _ (List.mem_append_right _ List.mem_cons_self))

end Parser

namespace Parse

open CstGrammar.Parser

/-- The leaves of a rule are those of its definition, in the same order. With an error, they are the
ones in front of the token at which it is found; where no tokens are skipped, they are all. -/
theorem ofSource_leaves (source : String) :
    let s := TokenStream.ofSource source
    let cs := clauses s.tokens
    (passages s.finish s.tokens).filterMap Passage.entry? = cs.map (Clause.entry s.finish) ∧
    (passages s.finish s.tokens).flatMap Passage.log =
      skipping s.finish s.tokens ++ cs.flatMap (Clause.log s.finish) ∧
    ∀ c ∈ cs, ∀ rule, (c.entry s.finish).rule = some rule →
      rule.leaves ≠ [] ∧ rule.leaves <+: c.body.filter Token.isLeaf ∧
      (∀ e ∈ (c.entry s.finish).errors, ∃ taken left, c.body = taken ++ left ∧
        e.IsAt (look s.finish (left ++ c.next)) ∧ rule.leaves = taken.filter Token.isLeaf) ∧
      ((c.entry s.finish).errors = [] →
        (∀ n loc, .synchronized n loc ∈ c.log s.finish → n = 0) →
        rule.leaves = c.body.filter Token.isLeaf) := by
  intro s cs
  refine ⟨entries_eq_map s.tokens, flatMap_log_passages s.tokens, fun c _ rule hrule ↦ ?_⟩
  have hne := (c.run s.finish).leaves_ne_nil
  have hvalue : (c.reply s.finish).value = some rule := hrule
  rw [hvalue] at hne
  refine ⟨hne, ?_⟩
  have hout := c.outcome s.finish
  rw [hrule] at hout
  rcases hout with ⟨taken, hbody, hleaves, herr⟩ | ⟨taken, left, err, hbody, hleaves, herr, hat⟩
  · have hl : rule.leaves = taken.filter Token.isLeaf := hleaves
    rw [herr, hl, hbody, List.filter_append]
    refine ⟨List.prefix_append _ _, nofun, fun _ hskip ↦ ?_⟩
    have hb : Boundary (c.reply s.finish).rest :=
      boundary_of_skipping fun n loc hm ↦ hskip n loc (List.mem_append_right _ hm)
    rw [hb.stretch_eq, List.filter_nil, List.append_nil]
  · have hl : rule.leaves = taken.filter Token.isLeaf := hleaves
    rw [herr, hl, hbody, List.filter_append]
    refine ⟨List.prefix_append _ _, fun e he ↦ ?_, nofun⟩
    rw [List.mem_singleton.mp he]
    exact ⟨taken, left, rfl, hat, rfl⟩

end Parse

end CstGrammar
