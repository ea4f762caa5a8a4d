import CstGrammar.Proofs.Parser.Acceptance
import CstGrammar.Proofs.Rule.Words

namespace CstGrammar.Parser

open Rule

/-- Tokens from which the rule is derived where `needed` is the loosest precedence allowed. A suffix
that follows an operand belongs to all of it. -/
def Spells (us : List Token) (rule : Rule) : (needed : Precedence) → Prop
  | .alternation => ∃ d : Derivation .alt us, d.Innermost ∧ d.tree.bare = rule.bare
  | .sequence => ∃ d : Derivation .seq us, d.Innermost ∧ d.tree.bare = rule.bare
  | .element => ∃ d : Derivation .single us, d.Innermost ∧ d.tree.bare = rule.bare
  | .operand =>
    ∃ d : Derivation .atom us, d.Innermost ∧ d.tree.bare = rule.bare ∧ d.takesSuffix = false

variable {us ts : List Token} {rule : Rule}

theorem Spells.toElement (h : Spells us rule .operand) : Spells us rule .element := by
  obtain ⟨d, hd, ht, -⟩ := h
  exact ⟨.plain d, hd, ht⟩

theorem Spells.toSequence (h : Spells us rule .element) : Spells us rule .sequence := by
  obtain ⟨d, hd, ht⟩ := h
  have hs : Spells (us ++ []) rule .sequence := ⟨.seq d .noElements, ⟨hd, trivial⟩, ht⟩
  rwa [List.append_nil] at hs

theorem Spells.toAlternation (h : Spells us rule .sequence) : Spells us rule .alternation := by
  obtain ⟨d, hd, ht⟩ := h
  have hs : Spells (us ++ []) rule .alternation := ⟨.alt d .noAlternatives, ⟨hd, trivial⟩, ht⟩
  rwa [List.append_nil] at hs

theorem Spells.mono {own needed : Precedence} (h : Spells us rule own)
    (hr : needed.rank ≤ own.rank) : Spells us rule needed :=
  Precedence.of_rank_le toElement toSequence toAlternation hr h

theorem Spells.enclose {opening closing : Token} (ho : opening.kind = .lparen)
    (hc : closing.kind = .rparen) (h : Spells us rule .alternation) :
    Spells (opening :: (us ++ [closing])) rule .operand := by
  obtain ⟨d, hd, ht⟩ := h
  exact ⟨.group opening closing ho hc d, hd, ht, rfl⟩

theorem kind_of_word {t : Token} {kind : Token.Kind} {value : String} (h : t.word = (kind, value)) :
    t.kind = kind := congrArg Prod.fst h

theorem value_of_word {t : Token} {kind : Token.Kind} {value : String}
    (h : t.word = (kind, value)) : t.value = value := congrArg Prod.snd h

theorem exists_of_encloseWords {own needed : Precedence} {ws : List Word}
    (h : ts.map Token.word = Precedence.encloseWords own needed ws) :
    (∃ opening us closing, ts = opening :: (us ++ [closing]) ∧ opening.kind = .lparen ∧
      closing.kind = .rparen ∧ us.map Token.word = ws) ∨
    needed.rank ≤ own.rank ∧ ts.map Token.word = ws := by
  unfold Precedence.encloseWords at h
  split at h
  · obtain ⟨opening, ts', rfl, ho, h'⟩ := List.map_eq_cons_iff.mp h
    obtain ⟨us, vs, rfl, hu, hv⟩ := List.map_eq_append_iff.mp h'
    obtain ⟨closing, ws', rfl, hc, hw⟩ := List.map_eq_cons_iff.mp hv
    obtain rfl := List.map_eq_nil_iff.mp hw
    exact .inl ⟨opening, us, closing, rfl, kind_of_word ho, kind_of_word hc, hu⟩
  · next hr => exact .inr ⟨Nat.le_of_not_lt hr, h⟩

/-- Parentheses stand exactly where a rule would else be too loose. -/
theorem spells_encloseWords {own needed : Precedence} {ws : List Word}
    (h : ∀ us : List Token, us.map Token.word = ws → Spells us rule own)
    (ht : ts.map Token.word = Precedence.encloseWords own needed ws) : Spells ts rule needed := by
  rcases exists_of_encloseWords ht with ⟨opening, us, closing, rfl, ho, hc, hu⟩ | ⟨hr, hu⟩
  · have ha : Spells us rule .alternation := (h us hu).mono (Nat.zero_le _)
    exact (ha.enclose ho hc).mono needed.rank_le_operand
  · exact (h ts hu).mono hr

theorem spells_suffixed {kind : Token.Kind} {value : String}
    (hk : kind = .question ∨ kind = .star) {needed : Precedence} {ws : List Word}
    (h : ∀ us : List Token, us.map Token.word = ws → Spells us rule .operand)
    (ht : ts.map Token.word = Precedence.encloseWords .element needed (ws ++ [(kind, value)])) :
    Spells ts (if kind = .question then .opt rule else .rep rule) needed := by
  refine spells_encloseWords (fun us hu ↦ ?_) ht
  obtain ⟨vs, ws, rfl, hv, hw⟩ := List.map_eq_append_iff.mp hu
  obtain ⟨mark, ws', rfl, hm, hn⟩ := List.map_eq_cons_iff.mp hw
  obtain rfl := List.map_eq_nil_iff.mp hn
  obtain rfl := kind_of_word hm
  obtain ⟨d, hd, hr, hs⟩ := h vs hv
  refine ⟨.suffixed d mark hk, ⟨hs, hd⟩, ?_⟩
  rw [Derivation.tree]
  split
  · exact congrArg opt hr
  · exact congrArg rep hr

theorem spells_elements {rules : List Rule} {f : Rule → Rule}
    (h : ∀ r ∈ rules, ∀ us : List Token, us.map Token.word = r.wordsAt .element →
      Spells us (f r) .element)
    (ht : ts.map Token.word = (rules.map (·.wordsAt .element)).flatten) :
    ∃ d : Derivation .elements ts, d.Innermost ∧
      d.tree.map bare = rules.map (fun r ↦ (f r).bare) := by
  induction rules generalizing ts with
  | nil =>
    obtain rfl := List.map_eq_nil_iff.mp ht
    exact ⟨.noElements, trivial, rfl⟩
  | cons r rs ih =>
    obtain ⟨us, vs, rfl, hu, hv⟩ := List.map_eq_append_iff.mp ht
    obtain ⟨d, hd, hr⟩ := h r List.mem_cons_self us hu
    obtain ⟨e, he, hrs⟩ := ih (fun s hs ↦ h s (List.mem_cons_of_mem r hs)) hv
    refine ⟨.elements d e, ⟨hd, he⟩, ?_⟩
    rw [Derivation.tree, List.map_cons, List.map_cons, hr, hrs]

theorem spells_alternatives {rules : List Rule} {f : Rule → Rule}
    (h : ∀ r ∈ rules, ∀ us : List Token, us.map Token.word = r.wordsAt .sequence →
      Spells us (f r) .sequence)
    (ht : ts.map Token.word = rules.flatMap (fun r ↦ (.pipe, "|") :: r.wordsAt .sequence)) :
    ∃ d : Derivation .alternatives ts, d.Innermost ∧
      d.tree.map bare = rules.map (fun r ↦ (f r).bare) := by
  induction rules generalizing ts with
  | nil =>
    obtain rfl := List.map_eq_nil_iff.mp ht
    exact ⟨.noAlternatives, trivial, rfl⟩
  | cons r rs ih =>
    obtain ⟨pipe, ts', rfl, hp, ht'⟩ := List.map_eq_cons_iff.mp ht
    obtain ⟨us, vs, rfl, hu, hv⟩ := List.map_eq_append_iff.mp ht'
    obtain ⟨d, hd, hr⟩ := h r List.mem_cons_self us hu
    obtain ⟨e, he, hrs⟩ := ih (fun s hs ↦ h s (List.mem_cons_of_mem r hs)) hv
    refine ⟨.alternatives pipe (kind_of_word hp) d e, ⟨hd, he⟩, ?_⟩
    rw [Derivation.tree, List.map_cons, List.map_cons, hr, hrs]

theorem sequence_eq_unwrapSeq (first : Rule) (more : List Rule) :
    sequence first more = unwrapSeq (first :: more) := by
  cases more <;> rfl

theorem alternation_eq_unwrapAlt (first : Rule) (more : List (Option Rule)) :
    alternation first more = unwrapAlt (some first :: more) := by
  cases more <;> rfl

theorem unwrapSeq_of_ne_nil {first : Rule} {more : List Rule} (h : more ≠ []) :
    unwrapSeq (first :: more) = .seq (first :: more) := by
  match more, h with
  | _ :: _, _ => rfl

theorem unwrapAlt_of_ne_nil {first : Option Rule} {more : List (Option Rule)} (h : more ≠ []) :
    unwrapAlt (first :: more) = .alt (first :: more) := by
  match first, more, h with
  | none, _ :: _, _ | some _, _ :: _, _ => rfl

theorem bare_unwrapSeq (rules : List Rule) :
    (unwrapSeq rules).bare = unwrapSeq (rules.map bare) := by
  match rules with
  | [] | [_] => rfl
  | _ :: _ :: _ => exact bare_seq _

theorem bare_unwrapAlt (parts : List (Option Rule)) :
    (unwrapAlt parts).bare = unwrapAlt (parts.map (Option.map bare)) := by
  match parts with
  | [] | [none] | [some _] => rfl
  | none :: _ :: _ | some _ :: _ :: _ => exact bare_alt _

theorem exists_map_some {p : Rule → Bool} {parts : List (Option Rule)}
    (h : parts.all (·.any p) = true) :
    ∃ rules : List Rule, parts = rules.map some ∧ ∀ r ∈ rules, p r = true := by
  induction parts with
  | nil => exact ⟨[], rfl, nofun⟩
  | cons part parts ih =>
    rw [List.all_cons, Bool.and_eq_true] at h
    obtain ⟨rules, rfl, hr⟩ := ih h.2
    match part, h.1 with
    | some r, hp => exact ⟨r :: rules, rfl, List.forall_mem_cons.mpr ⟨hp, hr⟩⟩

/-- A rule without placeholders is derived from its words, without its lists of one. -/
theorem spells_wordsAt (hp : rule.hasParts 1 = true) (hc : rule.isComplete = true)
    {needed : Precedence} (ht : ts.map Token.word = rule.wordsAt needed) :
    Spells ts rule.collapse needed := by
  induction rule using Rule.induction generalizing needed ts with
  | node name loc =>
    obtain ⟨t, ts', rfl, hw, hn⟩ := List.map_eq_cons_iff.mp ht
    obtain rfl := List.map_eq_nil_iff.mp hn
    have hs : Spells [t] (.node name loc) .operand :=
      ⟨.node t (kind_of_word hw), trivial, by simp [Derivation.tree, value_of_word hw], rfl⟩
    exact hs.mono needed.rank_le_operand
  | literal value loc =>
    obtain ⟨t, ts', rfl, hw, hn⟩ := List.map_eq_cons_iff.mp ht
    obtain rfl := List.map_eq_nil_iff.mp hn
    have hs : Spells [t] (.literal value loc) .operand :=
      ⟨.literal t (kind_of_word hw), trivial, by simp [Derivation.tree, value_of_word hw], rfl⟩
    exact hs.mono needed.rank_le_operand
  | labeled label part loc ih =>
    rw [isComplete_labeled] at hc
    rw [hasParts_labeled] at hp
    rw [wordsAt_labeled] at ht
    refine spells_encloseWords (fun us hu ↦ ?_) ht
    obtain ⟨rule, rfl, hc⟩ := (Option.any_eq_true _ _).mp hc
    obtain ⟨l, us', rfl, hl, hu'⟩ := List.map_eq_cons_iff.mp hu
    obtain ⟨colon, vs, rfl, hcolon, hv⟩ := List.map_eq_cons_iff.mp hu'
    obtain ⟨d, hd, hr⟩ := ih rule rfl hp hc hv
    refine ⟨.plain (.labeled l colon (kind_of_word hl) (kind_of_word hcolon) d), hd, ?_⟩
    simp [Derivation.tree, value_of_word hl, hr]
  | seq rules ih =>
    simp only [hasParts_seq, Bool.and_eq_true, decide_eq_true_eq, List.all_eq_true] at hp
    rw [isComplete_seq, List.all_eq_true] at hc
    rw [wordsAt_seq] at ht
    refine spells_encloseWords (fun us hu ↦ ?_) ht
    obtain ⟨r, rs, rfl⟩ := List.exists_cons_of_length_pos hp.1
    obtain ⟨vs, ws, rfl, hv, hw⟩ := List.map_eq_append_iff.mp hu
    have hall : ∀ s ∈ r :: rs, ∀ us : List Token, us.map Token.word = s.wordsAt .element →
        Spells us s.collapse .element := fun s hs us hu ↦ ih s hs (hp.2 s hs) (hc s hs) hu
    obtain ⟨d, hd, hr⟩ := hall r List.mem_cons_self vs hv
    obtain ⟨e, he, hrs⟩ := spells_elements (fun s hs ↦ hall s (List.mem_cons_of_mem r hs)) hw
    refine ⟨.seq d e, ⟨hd, he⟩, ?_⟩
    rw [Derivation.tree, sequence_eq_unwrapSeq, collapse_seq, bare_unwrapSeq, bare_unwrapSeq,
      List.map_cons, List.map_map, List.map_cons, hr, hrs]
    rfl
  | alt parts ih =>
    simp only [hasParts_alt, Bool.and_eq_true, decide_eq_true_eq, List.all_eq_true] at hp
    rw [isComplete_alt] at hc
    rw [wordsAt_alt] at ht
    refine spells_encloseWords (fun us hu ↦ ?_) ht
    obtain ⟨rules, rfl, hrules⟩ := exists_map_some hc
    obtain ⟨r, rs, rfl⟩ := List.exists_cons_of_length_pos (List.length_map some ▸ hp.1)
    rw [List.map_cons, List.map_cons, intercalate_cons, List.map_map, List.flatMap_map] at hu
    obtain ⟨vs, ws, rfl, hv, hw⟩ := List.map_eq_append_iff.mp hu
    have hall : ∀ s ∈ r :: rs, ∀ us : List Token, us.map Token.word = s.wordsAt .sequence →
        Spells us s.collapse .sequence := by
      intro s hs us hu
      have hm : some s ∈ (r :: rs).map some := List.mem_map_of_mem hs
      exact ih s hm (hp.2 _ hm) (hrules s hs) hu
    obtain ⟨d, hd, hr⟩ := hall r List.mem_cons_self vs hv
    obtain ⟨e, he, hrs⟩ := spells_alternatives (fun s hs ↦ hall s (List.mem_cons_of_mem r hs)) hw
    have hparts : (e.tree.map some).map (Option.map bare) =
        ((rs.map some).map (Option.map collapse)).map (Option.map bare) := by
      have h := congrArg (List.map some) hrs
      simpa [Function.comp_def] using h
    refine ⟨.alt d e, ⟨hd, he⟩, ?_⟩
    rw [Derivation.tree, alternation_eq_unwrapAlt, collapse_alt, bare_unwrapAlt, bare_unwrapAlt]
    simp only [List.map_cons, Option.map_some, hr, hparts]
  | opt rule ih =>
    rw [wordsAt_opt] at ht
    exact spells_suffixed (.inl rfl) (fun us hu ↦ ih hp hc hu) ht
  | rep rule ih =>
    rw [wordsAt_rep] at ht
    exact spells_suffixed (.inr rfl) (fun us hu ↦ ih hp hc hu) ht

end CstGrammar.Parser
