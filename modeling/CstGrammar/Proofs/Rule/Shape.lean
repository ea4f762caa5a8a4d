import CstGrammar.Grammar.Source
import CstGrammar.Proofs.Token.Word
import CstGrammar.Rule.Shape

namespace CstGrammar.Rule

def bare : Rule → Rule := fold
  { node name _ := node name .start
    literal value _ := literal value .start
    labeled label rule _ := labeled label rule .start
    seq := seq
    alt := alt
    opt := opt
    rep := rep }

def hasNames : Rule → Bool := fold
  { node name _ := isName name
    literal _ _ := true
    labeled label rule _ := isName label && rule.getD true
    seq rules := rules.all id
    alt rules := rules.all (·.getD true)
    opt := id
    rep := id }

/-- Whether all sequences and alternations in the rule have at least `n` parts. -/
def hasParts (n : Nat) : Rule → Bool := fold
  { node _ _ := true
    literal _ _ := true
    labeled _ rule _ := rule.getD true
    seq rules := decide (n ≤ rules.length) && rules.all id
    alt rules := decide (n ≤ rules.length) && rules.all (·.getD true)
    opt := id
    rep := id }

def unwrapSeq : List Rule → Rule
  | [rule] => rule
  | rules => seq rules

def unwrapAlt : List (Option Rule) → Rule
  | [some rule] => rule
  | rules => alt rules

/-- The rule with its part in place of each sequence and alternation of one. -/
def collapse : Rule → Rule := fold
  { node := node
    literal := literal
    labeled := labeled
    seq := unwrapSeq
    alt := unwrapAlt
    opt := opt
    rep := rep }

/-- A rule as the parser builds it. Its names can stand in a source, its lists have two parts or
more, and an alternation starts with a rule. -/
inductive Proper : Rule → Prop
  | node {name loc} : isName name = true → Proper (.node name loc)
  | literal {value loc} : Proper (.literal value loc)
  | labeled {label part loc} : isName label = true → (∀ r ∈ part, Proper r) →
      Proper (.labeled label part loc)
  | seq {first second rules} : (∀ r ∈ first :: second :: rules, Proper r) →
      Proper (.seq (first :: second :: rules))
  | alt {first second parts} : (∀ r, some r ∈ some first :: second :: parts → Proper r) →
      Proper (.alt (some first :: second :: parts))
  | opt {rule} : Proper rule → Proper (.opt rule)
  | rep {rule} : Proper rule → Proper (.rep rule)

inductive Within : Rule → Rule → Prop
  | refl {rule} : Within rule rule
  | labeled {sub rule label loc} : Within sub rule → Within sub (.labeled label (some rule) loc)
  | seq {sub rule rules} : rule ∈ rules → Within sub rule → Within sub (.seq rules)
  | alt {sub rule parts} : some rule ∈ parts → Within sub rule → Within sub (.alt parts)
  | opt {sub rule} : Within sub rule → Within sub (.opt rule)
  | rep {sub rule} : Within sub rule → Within sub (.rep rule)

variable (name label value : String) (loc : Location) (n : Nat) (rule : Rule)
  (part : Option Rule) (rules : List Rule) (parts : List (Option Rule))

@[simp] theorem bare_node : (node name loc).bare = node name .start := rfl

@[simp] theorem bare_literal : (literal value loc).bare = literal value .start := rfl

@[simp] theorem bare_labeled :
    (labeled label part loc).bare = labeled label (part.map bare) .start :=
  fold_labeled _ label part loc

@[simp] theorem bare_seq : (seq rules).bare = seq (rules.map bare) := fold_seq _ rules

@[simp] theorem bare_alt : (alt parts).bare = alt (parts.map (Option.map bare)) := fold_alt _ parts

@[simp] theorem bare_opt : (opt rule).bare = opt rule.bare := rfl

@[simp] theorem bare_rep : (rep rule).bare = rep rule.bare := rfl

@[simp] theorem hasNames_node : (node name loc).hasNames = isName name := rfl

@[simp] theorem hasNames_literal : (literal value loc).hasNames = true := rfl

@[simp] theorem hasNames_labeled :
    (labeled label part loc).hasNames = (isName label && part.all hasNames) := by
  cases part <;> simp [hasNames]

@[simp] theorem hasNames_seq : (seq rules).hasNames = rules.all hasNames := by
  simp [hasNames]

@[simp] theorem hasNames_alt : (alt parts).hasNames = parts.all (·.all hasNames) := by
  simp only [hasNames, fold_alt, List.all_map]
  congr 1
  funext part
  cases part <;> rfl

@[simp] theorem hasNames_opt : (opt rule).hasNames = rule.hasNames := rfl

@[simp] theorem hasNames_rep : (rep rule).hasNames = rule.hasNames := rfl

@[simp] theorem hasParts_node : (node name loc).hasParts n = true := rfl

@[simp] theorem hasParts_literal : (literal value loc).hasParts n = true := rfl

@[simp] theorem hasParts_labeled : (labeled label part loc).hasParts n = part.all (hasParts n) := by
  cases part <;> simp [hasParts]

@[simp] theorem hasParts_seq :
    (seq rules).hasParts n = (decide (n ≤ rules.length) && rules.all (hasParts n)) := by
  simp [hasParts]

@[simp] theorem hasParts_alt :
    (alt parts).hasParts n = (decide (n ≤ parts.length) && parts.all (·.all (hasParts n))) := by
  simp only [hasParts, fold_alt, List.all_map, List.length_map]
  congr 2
  funext part
  cases part <;> rfl

@[simp] theorem hasParts_opt : (opt rule).hasParts n = rule.hasParts n := rfl

@[simp] theorem hasParts_rep : (rep rule).hasParts n = rule.hasParts n := rfl

@[simp] theorem collapse_node : (node name loc).collapse = node name loc := rfl

@[simp] theorem collapse_literal : (literal value loc).collapse = literal value loc := rfl

@[simp] theorem collapse_labeled :
    (labeled label part loc).collapse = labeled label (part.map collapse) loc :=
  fold_labeled _ label part loc

@[simp] theorem collapse_seq : (seq rules).collapse = unwrapSeq (rules.map collapse) :=
  fold_seq _ rules

@[simp] theorem collapse_alt :
    (alt parts).collapse = unwrapAlt (parts.map (Option.map collapse)) :=
  fold_alt _ parts

@[simp] theorem collapse_opt : (opt rule).collapse = opt rule.collapse := rfl

@[simp] theorem collapse_rep : (rep rule).collapse = rep rule.collapse := rfl

variable {n rule}

theorem hasParts_mono {m : Nat} (hm : m ≤ n) (h : rule.hasParts n = true) :
    rule.hasParts m = true := by
  induction rule using Rule.induction with
  | node | literal => rfl
  | labeled label part loc ih =>
    rw [hasParts_labeled] at h ⊢
    cases part with
    | none => rfl
    | some rule => exact ih rule rfl h
  | seq rules ih =>
    simp only [hasParts_seq, Bool.and_eq_true, decide_eq_true_eq, List.all_eq_true] at h ⊢
    exact ⟨Nat.le_trans hm h.1, fun r hr ↦ ih r hr (h.2 r hr)⟩
  | alt parts ih =>
    simp only [hasParts_alt, Bool.and_eq_true, decide_eq_true_eq, List.all_eq_true] at h ⊢
    refine ⟨Nat.le_trans hm h.1, fun part hp ↦ ?_⟩
    cases part with
    | none => rfl
    | some r => exact ih r hp (h.2 _ hp)
  | opt rule ih | rep rule ih => exact ih h

theorem map_map_eq_self {f : Rule → Rule} {parts : List (Option Rule)}
    (h : ∀ r, some r ∈ parts → f r = r) : parts.map (Option.map f) = parts := by
  have hid : ∀ part ∈ parts, Option.map f part = id part := by
    intro part hp
    cases part with
    | none => rfl
    | some r => exact congrArg some (h r hp)
  exact (List.map_congr_left hid).trans (List.map_id parts)

/-- Where no list has one part, there is nothing to take out. -/
theorem collapse_eq_self (h : rule.hasParts 2 = true) : rule.collapse = rule := by
  induction rule using Rule.induction with
  | node | literal => rfl
  | labeled label part loc ih =>
    rw [hasParts_labeled] at h
    cases part with
    | none => rfl
    | some rule => rw [collapse_labeled, Option.map_some, ih rule rfl h]
  | seq rules ih =>
    simp only [hasParts_seq, Bool.and_eq_true, decide_eq_true_eq, List.all_eq_true] at h
    rw [collapse_seq, List.map_congr_left (g := id) (fun r hr ↦ ih r hr (h.2 r hr)), List.map_id]
    match rules, h.1 with
    | _ :: _ :: _, _ => rfl
  | alt parts ih =>
    simp only [hasParts_alt, Bool.and_eq_true, decide_eq_true_eq, List.all_eq_true] at h
    rw [collapse_alt, map_map_eq_self (fun r hr ↦ ih r hr (h.2 _ hr))]
    match parts, h.1 with
    | none :: _ :: _, _ | some _ :: _ :: _, _ => rfl
  | opt rule ih => exact congrArg opt (ih h)
  | rep rule ih => exact congrArg rep (ih h)

/-- What does not look at locations is the same without them. -/
theorem fold_bare {α : Type} (f : Algebra α) (hn : ∀ name loc, f.node name .start = f.node name loc)
    (hl : ∀ value loc, f.literal value .start = f.literal value loc)
    (hp : ∀ label part loc, f.labeled label part .start = f.labeled label part loc)
    (rule : Rule) : fold f rule.bare = fold f rule := by
  induction rule using Rule.induction with
  | node name loc => exact hn name loc
  | literal value loc => exact hl value loc
  | labeled label part loc ih =>
    have hm : (part.map bare).map (fold f) = part.map (fold f) := by
      cases part with
      | none => rfl
      | some rule => exact congrArg some (ih rule rfl)
    rw [bare_labeled, fold_labeled, fold_labeled, hm]
    exact hp label _ loc
  | seq rules ih =>
    rw [bare_seq, fold_seq, fold_seq, List.map_map]
    exact congrArg f.seq (List.map_congr_left ih)
  | alt parts ih =>
    rw [bare_alt, fold_alt, fold_alt, List.map_map]
    apply congrArg f.alt
    apply List.map_congr_left
    intro part hm
    cases part with
    | none => rfl
    | some rule => exact congrArg some (ih rule hm)
  | opt rule ih => exact congrArg f.opt ih
  | rep rule ih => exact congrArg f.rep ih

theorem sourceAt_bare (rule : Rule) : rule.bare.sourceAt = rule.sourceAt :=
  fold_bare _ (fun _ _ ↦ rfl) (fun _ _ ↦ rfl) (fun _ _ _ ↦ rfl) rule

namespace Proper

variable {sub : Rule}

theorem hasNames (h : rule.Proper) : rule.hasNames = true := by
  induction h with
  | node hn => exact hn
  | literal => rfl
  | @labeled label part loc hl _ ih =>
    rw [hasNames_labeled, hl]
    cases part with
    | none => rfl
    | some rule => exact ih rule rfl
  | seq _ ih =>
    rw [hasNames_seq, List.all_eq_true]
    exact ih
  | alt _ ih =>
    rw [hasNames_alt, List.all_eq_true]
    intro part hp
    cases part with
    | none => rfl
    | some rule => exact ih rule hp
  | opt _ ih | rep _ ih => exact ih

theorem hasParts (h : rule.Proper) : rule.hasParts 2 = true := by
  induction h with
  | node | literal => rfl
  | @labeled label part loc _ _ ih =>
    rw [hasParts_labeled]
    cases part with
    | none => rfl
    | some rule => exact ih rule rfl
  | seq _ ih =>
    rw [hasParts_seq, Bool.and_eq_true, List.all_eq_true]
    exact ⟨by simp, ih⟩
  | alt _ ih =>
    rw [hasParts_alt, Bool.and_eq_true, List.all_eq_true]
    refine ⟨by simp, fun part hp ↦ ?_⟩
    cases part with
    | none => rfl
    | some rule => exact ih rule hp
  | opt _ ih | rep _ ih => exact ih

theorem of_within (h : rule.Proper) (hs : sub.Within rule) : sub.Proper := by
  induction hs with
  | refl => exact h
  | labeled _ ih =>
    cases h with
    | labeled _ hp => exact ih (hp _ rfl)
  | seq hm _ ih =>
    cases h with
    | seq hr => exact ih (hr _ hm)
  | alt hm _ ih =>
    cases h with
    | alt hp => exact ih (hp _ hm)
  | opt _ ih =>
    cases h with
    | opt hr => exact ih hr
  | rep _ ih =>
    cases h with
    | rep hr => exact ih hr

end Proper

end CstGrammar.Rule
