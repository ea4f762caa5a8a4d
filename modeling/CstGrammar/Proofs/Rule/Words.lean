import CstGrammar.Proofs.Rule.Shape

namespace CstGrammar

theorem intercalate_cons {α : Type} (sep x : List α) (xs : List (List α)) :
    List.intercalate sep (x :: xs) = x ++ xs.flatMap (sep ++ ·) := by
  induction xs generalizing x with
  | nil => simp [List.intercalate]
  | cons y ys ih =>
    have h := ih y
    simp only [List.intercalate, List.intersperse_cons_cons, List.flatten_cons] at h ⊢
    rw [h, List.flatMap_cons, List.append_assoc]

theorem intercalate_nil {α : Type} (xs : List (List α)) : List.intercalate [] xs = xs.flatten := by
  cases xs with
  | nil => rfl
  | cons x xs => simp [intercalate_cons, List.flatMap_id']

namespace Precedence

def encloseWords (own needed : Precedence) (ws : List Word) : List Word :=
  if own.rank < needed.rank then (.lparen, "(") :: ws ++ [(.rparen, ")")] else ws

theorem rank_le_operand (p : Precedence) : p.rank ≤ operand.rank := by cases p <;> decide

/-- What can stand at one place can stand wherever less is needed. -/
theorem of_rank_le {P : Precedence → Prop} (he : P operand → P element)
    (hs : P element → P sequence) (ha : P sequence → P alternation) {own needed : Precedence}
    (hr : needed.rank ≤ own.rank) (h : P own) : P needed := by
  cases own <;> cases needed <;> first
    | exact h
    | exact absurd hr (by decide)
    | exact he h
    | exact hs h
    | exact ha h
    | exact hs (he h)
    | exact ha (hs h)
    | exact ha (hs (he h))

end Precedence

namespace Rule

open Precedence

def wordsAt : Rule → (needed : Precedence) → List Word := fold
  { node name _ := fun _ ↦ [(.node, name)]
    literal value _ := fun _ ↦ [(.literal, value)]
    labeled label rule _ := fun needed ↦
      encloseWords element needed ((.node, label) :: (.colon, ":") :: rule.elim [] (· element))
    seq rules := fun needed ↦ encloseWords sequence needed (rules.map (· element)).flatten
    alt rules := fun needed ↦
      encloseWords alternation needed
        (List.intercalate [(.pipe, "|")] (rules.map (·.elim [] (· sequence))))
    opt rule := fun needed ↦ encloseWords element needed (rule operand ++ [(.question, "?")])
    rep rule := fun needed ↦ encloseWords element needed (rule operand ++ [(.star, "*")]) }

variable (name label value : String) (loc : Location) (rule : Rule) (part : Option Rule)
  (rules : List Rule) (parts : List (Option Rule)) (needed : Precedence)

theorem sourceAt_labeled : (labeled label part loc).sourceAt needed =
    enclose element needed (label.toList ++ ':' :: part.elim [] (·.sourceAt element)) := by
  rw [sourceAt, fold_labeled]
  cases part <;> rfl

theorem sourceAt_seq : (seq rules).sourceAt needed =
    enclose sequence needed (List.intercalate [' '] (rules.map (·.sourceAt element))) := by
  simp only [sourceAt, fold_seq, List.map_map]
  rfl

theorem sourceAt_alt : (alt parts).sourceAt needed = enclose alternation needed
    (List.intercalate [' ', '|', ' '] (parts.map (·.elim [] (·.sourceAt sequence)))) := by
  simp only [sourceAt, fold_alt, List.map_map]
  congr 2
  apply List.map_congr_left
  intro part _
  cases part <;> rfl

theorem sourceAt_opt : (opt rule).sourceAt needed =
    enclose element needed (rule.sourceAt operand ++ ['?']) := rfl

theorem sourceAt_rep : (rep rule).sourceAt needed =
    enclose element needed (rule.sourceAt operand ++ ['*']) := rfl

theorem wordsAt_labeled : (labeled label part loc).wordsAt needed = encloseWords element needed
    ((.node, label) :: (.colon, ":") :: part.elim [] (·.wordsAt element)) := by
  rw [wordsAt, fold_labeled]
  cases part <;> rfl

theorem wordsAt_seq : (seq rules).wordsAt needed =
    encloseWords sequence needed (rules.map (·.wordsAt element)).flatten := by
  simp only [wordsAt, fold_seq, List.map_map]
  rfl

theorem wordsAt_alt : (alt parts).wordsAt needed = encloseWords alternation needed
    (List.intercalate [(.pipe, "|")] (parts.map (·.elim [] (·.wordsAt sequence)))) := by
  simp only [wordsAt, fold_alt, List.map_map]
  congr 2
  apply List.map_congr_left
  intro part _
  cases part <;> rfl

theorem wordsAt_opt : (opt rule).wordsAt needed =
    encloseWords element needed (rule.wordsAt operand ++ [(.question, "?")]) := rfl

theorem wordsAt_rep : (rep rule).wordsAt needed =
    encloseWords element needed (rule.wordsAt operand ++ [(.star, "*")]) := rfl

/-- Parentheses are words of their own, whatever stands around them. -/
theorem words_enclose {own : Precedence} {cs : List Char} {ws : List Word}
    (h : ∀ rest, Detached rest → words (cs ++ rest) = ws ++ words rest) {rest : List Char}
    (hr : Detached rest) : words (enclose own needed cs ++ rest) =
      encloseWords own needed ws ++ words rest := by
  unfold enclose encloseWords
  split
  · have hc := h (')' :: rest) (detached_cons (by decide) rest)
    rw [words_punctuation (c := ')') rfl] at hc
    simp only [List.cons_append, List.append_assoc, List.nil_append]
    rw [words_punctuation (c := '(') rfl, hc]
    rfl
  · exact h rest hr

theorem words_suffixed {c : Char} {kind : Token.Kind} {cs : List Char} {ws : List Word}
    (hk : Token.Kind.ofPunctuation? c = some kind) (hc : isNameChar c = false)
    (h : ∀ rest, Detached rest → words (cs ++ rest) = ws ++ words rest) {rest : List Char}
    (hr : Detached rest) : words (enclose element needed (cs ++ [c]) ++ rest) =
      encloseWords element needed (ws ++ [(kind, String.singleton c)]) ++ words rest := by
  refine words_enclose needed (fun rest _ ↦ ?_) hr
  rw [List.append_assoc, List.append_assoc]
  change words (cs ++ c :: rest) = ws ++ (kind, String.singleton c) :: words rest
  rw [h _ (detached_cons hc rest), words_punctuation hk]

/-- The texts of several parts give the words of the parts, if their separator gives words too. -/
theorem words_intercalate {α : Type} {sep : List Char} {ws : List Word} {text : α → List Char}
    {spelled : α → List Word} {xs : List α} (hd : ∀ rest, Detached (sep ++ rest))
    (hs : ∀ rest, words (sep ++ rest) = ws ++ words rest)
    (h : ∀ x ∈ xs, ∀ rest, Detached rest → words (text x ++ rest) = spelled x ++ words rest)
    {rest : List Char} (hr : Detached rest) : words (List.intercalate sep (xs.map text) ++ rest) =
      List.intercalate ws (xs.map spelled) ++ words rest := by
  cases xs with
  | nil => rfl
  | cons x xs =>
    rw [List.map_cons, List.map_cons, intercalate_cons, intercalate_cons]
    induction xs generalizing x with
    | nil => simpa using h x List.mem_cons_self rest hr
    | cons y ys ih =>
      have hy := ih y (fun z hz ↦ h z (List.mem_cons_of_mem x hz))
      have hx := h x List.mem_cons_self
      simp only [List.map_cons, List.flatMap_cons, List.append_assoc] at hy ⊢
      rw [hx _ (hd _), hs, hy]

/-- The source text of a rule is split into the words of the rule. -/
theorem words_sourceAt {rule : Rule} (hn : rule.hasNames = true) (needed : Precedence)
    {rest : List Char} (hr : Detached rest) :
    words (rule.sourceAt needed ++ rest) = rule.wordsAt needed ++ words rest := by
  induction rule using Rule.induction generalizing needed rest with
  | node name loc => exact words_name hn hr
  | literal value loc => exact words_quote value rest
  | labeled label part loc ih =>
    rw [hasNames_labeled, Bool.and_eq_true] at hn
    rw [sourceAt_labeled, wordsAt_labeled]
    refine words_enclose needed (fun rest hr ↦ ?_) hr
    rw [List.append_assoc, List.cons_append, words_name hn.1 (detached_cons (by decide) _),
      words_punctuation (c := ':') rfl]
    cases part with
    | none => rfl
    | some rule =>
      have h := ih rule rfl hn.2 element hr
      simp only [Option.elim_some, List.cons_append]
      rw [h]
      rfl
  | seq rules ih =>
    rw [hasNames_seq, List.all_eq_true] at hn
    rw [sourceAt_seq, wordsAt_seq]
    refine words_enclose needed (fun rest hr ↦ ?_) hr
    rw [← intercalate_nil]
    exact words_intercalate (fun _ ↦ detached_cons (by decide) _) (words_blank (by decide))
      (fun r hm _ hr ↦ ih r hm (hn r hm) element hr) hr
  | alt parts ih =>
    rw [hasNames_alt, List.all_eq_true] at hn
    rw [sourceAt_alt, wordsAt_alt]
    refine words_enclose needed (fun rest hr ↦ ?_) hr
    refine words_intercalate (fun _ ↦ detached_cons (by decide) _) (fun rest ↦ ?_)
      (fun part hm rest hr ↦ ?_) hr
    · simp only [List.cons_append, List.nil_append]
      rw [words_blank (by decide), words_punctuation (c := '|') rfl, words_blank (by decide)]
      rfl
    · cases part with
      | none => rfl
      | some rule => exact ih rule hm (hn _ hm) sequence hr
  | opt rule ih =>
    rw [sourceAt_opt, wordsAt_opt]
    exact words_suffixed needed rfl (by decide) (fun _ ↦ ih hn operand) hr
  | rep rule ih =>
    rw [sourceAt_rep, wordsAt_rep]
    exact words_suffixed needed rfl (by decide) (fun _ ↦ ih hn operand) hr

/-- A part of a sequence starts with a name, a literal or a parenthesis. -/
theorem exists_head_wordsAt (rule : Rule) {needed : Precedence} (hn : 2 ≤ needed.rank) :
    ∃ w ws, rule.wordsAt needed = w :: ws ∧ w.1 ∈ [Token.Kind.node, .literal, .lparen] := by
  have hparen (own : Precedence) (ho : own.rank < 2) (ws : List Word) :
      encloseWords own needed ws = (.lparen, "(") :: (ws ++ [(.rparen, ")")]) :=
    if_pos (Nat.lt_of_lt_of_le ho hn)
  induction rule using Rule.induction generalizing needed with
  | node name loc => exact ⟨(.node, name), [], rfl, by simp⟩
  | literal value loc => exact ⟨(.literal, value), [], rfl, by simp⟩
  | labeled label part loc =>
    rw [wordsAt_labeled, encloseWords]
    split
    · exact ⟨_, _, rfl, by simp⟩
    · exact ⟨_, _, rfl, by simp⟩
  | seq rules =>
    rw [wordsAt_seq, hparen sequence (by decide)]
    exact ⟨_, _, rfl, by simp⟩
  | alt parts =>
    rw [wordsAt_alt, hparen alternation (by decide)]
    exact ⟨_, _, rfl, by simp⟩
  | opt rule ih | rep rule ih =>
    obtain ⟨w, ws, hw, hk⟩ := @ih operand (by decide) (fun own ho ws ↦
      if_pos (Nat.lt_of_lt_of_le ho (by decide)))
    simp only [wordsAt_opt, wordsAt_rep, encloseWords, hw]
    split
    · exact ⟨_, _, rfl, by simp⟩
    · exact ⟨w, _, rfl, hk⟩

end Rule

end CstGrammar
