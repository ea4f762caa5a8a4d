import CstGrammar.Parser.Rule
import CstGrammar.Proofs.Rule.Shape
import CstGrammar.Proofs.Token.Word

namespace CstGrammar

/-- Where a position of a text is when the text stands behind another one, which ends at `base`. -/
def Location.shift (base loc : Location) : Location :=
  if loc.line = 1 then ⟨base.line, base.column + loc.column⟩
  else ⟨base.line + loc.line - 1, loc.column⟩

def Token.relocate (f : Location → Location) (t : Token) : Token :=
  { t with location := f t.location }

namespace Location

variable {base loc : Location}

theorem shift_start (base : Location) : base.shift start = base := rfl

theorem next_shift (base loc : Location) : (base.shift loc).next = base.shift loc.next := by
  by_cases hl : loc.line = 1
  · rw [shift, shift, if_pos hl, if_pos (show loc.next.line = 1 from hl)]
    rfl
  · rw [shift, shift, if_neg hl, if_neg (show loc.next.line ≠ 1 from hl)]
    rfl

theorem step_shift (h : 1 ≤ loc.line) (c : Char) :
    (base.shift loc).step c = base.shift (loc.step c) := by
  by_cases hc : c = '\n'
  · rw [step, step, if_pos hc, if_pos hc, shift, shift]
    have hne : loc.line + 1 ≠ 1 := by omega
    rw [if_neg hne]
    split
    · next hl =>
      rw [hl]
      rfl
    · have heq : base.line + loc.line - 1 + 1 = base.line + (loc.line + 1) - 1 := by omega
      rw [heq]
  · rw [step, step, if_neg hc, if_neg hc, next_shift]

theorem one_le_line_step (h : 1 ≤ loc.line) (c : Char) : 1 ≤ (loc.step c).line := by
  rw [step]
  split
  · exact Nat.le_succ_of_le h
  · exact h

theorem after_shift (h : 1 ≤ loc.line) (cs : List Char) :
    (base.shift loc).after cs = base.shift (loc.after cs) ∧ 1 ≤ (loc.after cs).line := by
  induction cs generalizing loc with
  | nil => exact ⟨rfl, h⟩
  | cons c cs ih =>
    rw [after_cons, after_cons, step_shift h]
    exact ih (one_le_line_step h c)

end Location

theorem TokenStream.locate_shift {base loc : Location} (h : 1 ≤ loc.line) (xs : List Lexeme) :
    locate (base.shift loc) xs = (locate loc xs).map (Token.relocate base.shift) := by
  induction xs generalizing loc with
  | nil => rfl
  | cons x xs ih =>
    obtain ⟨htoken, -⟩ := @Location.after_shift base loc h (x.gap ++ x.lead)
    obtain ⟨hrest, hline⟩ := @Location.after_shift base loc h x.whole
    rw [locate, locate, List.map_cons, hrest, ih hline]
    apply congrArg (· :: _)
    rw [Lexeme.token, htoken, Location.next_shift]
    rfl

def Rule.relocate (f : Location → Location) : Rule → Rule := Rule.fold
  { node name loc := .node name (f loc)
    literal value loc := .literal value (f loc)
    labeled label rule loc := .labeled label rule (f loc)
    seq := .seq
    alt := .alt
    opt := .opt
    rep := .rep }

namespace Rule

variable (f : Location → Location)

theorem relocate_labeled (label : String) (part : Option Rule) (loc : Location) :
    (labeled label part loc).relocate f = labeled label (part.map (relocate f)) (f loc) :=
  fold_labeled _ label part loc

theorem relocate_seq (rules : List Rule) :
    (seq rules).relocate f = seq (rules.map (relocate f)) := fold_seq _ rules

theorem relocate_alt (parts : List (Option Rule)) :
    (alt parts).relocate f = alt (parts.map (Option.map (relocate f))) := fold_alt _ parts

theorem relocate_sequence (first : Rule) (more : List Rule) :
    (Parser.sequence first more).relocate f =
      Parser.sequence (first.relocate f) (more.map (relocate f)) := by
  cases more with
  | nil => rfl
  | cons rule rules => exact relocate_seq f _

theorem relocate_alternation (first : Rule) (more : List (Option Rule)) :
    (Parser.alternation first more).relocate f =
      Parser.alternation (first.relocate f) (more.map (Option.map (relocate f))) := by
  cases more with
  | nil => rfl
  | cons part parts => exact relocate_alt f _

theorem relocate_id (rule : Rule) : rule.relocate id = rule := by
  induction rule using Rule.induction with
  | node | literal => rfl
  | labeled label part loc ih =>
    rw [relocate_labeled]
    cases part with
    | none => rfl
    | some rule => exact congrArg (fun r ↦ labeled label (some r) loc) (ih rule rfl)
  | seq rules ih =>
    rw [relocate_seq]
    exact congrArg seq ((List.map_congr_left ih).trans (List.map_id rules))
  | alt parts ih =>
    rw [relocate_alt, map_map_eq_self ih]
  | opt rule ih => exact congrArg opt ih
  | rep rule ih => exact congrArg rep ih

end Rule

end CstGrammar
