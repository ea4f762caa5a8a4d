import CstGrammar.Proofs.Token.Order
import CstGrammar.Proofs.Token.Scanner
import CstGrammar.Proofs.Token.Scans

namespace CstGrammar

open Lexeme

/-- A text with `before` in front of it is nothing but tokens and the gaps in front of them and
behind the last one, each as long as it can be. -/
inductive Tokenized : (before cs : List Char) → List Token → Prop
  | done {before gap} : Trivia.Longest gap gap → Tokenized before gap []
  | token {before gap text rest t ts} : Trivia.Longest gap (gap ++ (text ++ rest)) →
      Scans (before ++ gap) rest text t → Tokenized (before ++ gap ++ text) rest ts →
      Tokenized before (gap ++ (text ++ rest)) (t :: ts)

/-- No name ends with a gap that is over. -/
theorem Trivia.Layout.detached_reverse {b : Bool} {gap : List Char} (h : Layout b gap)
    (hb : b = false) : Detached gap.reverse := by
  induction h with
  | nil => exact nofun
  | blank hc _ ih =>
    rw [List.reverse_cons]
    exact (ih hb).append fun _ ↦ detached_cons (isNameChar_eq_false_of_isBlank hc) []
  | @comment b text cs _ _ ih =>
    have hr : ('/' :: '/' :: (text ++ '\n' :: cs)).reverse =
        cs.reverse ++ '\n' :: ('/' :: '/' :: text).reverse := by
      simp
    rw [hr]
    exact (ih hb).append fun _ ↦ detached_cons (by decide) _
  | cut => cases hb

theorem longest_of_none {cs : List Char} (h : first? cs = none) : Trivia.Longest cs cs := by
  have happ := Trivia.split_append false cs
  have hlongest := Trivia.longest_split cs
  rw [first?] at h
  split at h
  · next gap hs =>
    rw [hs, List.append_nil] at happ
    rw [hs] at hlongest
    exact happ ▸ hlongest
  · cases h

theorem location_token_after (x : Lexeme) (before : List Char) :
    x.token (Location.start.after before) =
      ⟨x.kind, x.value, .behind (before ++ x.gap ++ x.lead)⟩ := by
  rw [token, ← Location.after_append, Location.next_after_start, List.append_assoc]

/-- The lexemes of a text make tokens of it, if no name stands across its start. -/
theorem tokenized_locate (before cs : List Char) (h : Detached before.reverse ∨ Detached cs) :
    Tokenized before cs (TokenStream.locate (Location.start.after before) (lexemes cs)) := by
  cases hf : first? cs with
  | none =>
    rw [lexemes_of_none hf]
    exact .done (longest_of_none hf)
  | some r =>
    obtain ⟨x, rest⟩ := r
    have hlt := length_lt_of_first? hf
    obtain ⟨c, us, hs, hr⟩ := readAt_of_first? hf
    obtain ⟨hlayout, hvisible⟩ := Trivia.layout_of_split hs
    have hb : Trivia.isBlank c = false := (Trivia.visible_cons_iff.mp hvisible).1
    have hname : isNameChar c = true → Detached (before ++ x.gap).reverse := by
      intro hc
      rw [List.reverse_append]
      refine (hlayout.detached_reverse rfl).append fun hnil ↦ h.resolve_right fun hd ↦ ?_
      have happ := Trivia.split_append false cs
      rw [hs, List.reverse_eq_nil_iff.mp hnil, List.nil_append] at happ
      rw [← happ] at hd
      exact absurd (hd c rfl) (by simp [hc])
    have hscans : Scans (before ++ x.gap) rest x.text (x.token (Location.start.after before)) :=
      location_token_after x before ▸ scans_readAt hr hb hname
    have hend : Detached (before ++ x.gap ++ x.text).reverse ∨ Detached rest := by
      refine hscans.detached.imp_left fun hd ↦ ?_
      rw [List.reverse_append]
      exact hd.append fun hnil ↦ absurd (List.reverse_eq_nil_iff.mp hnil) hscans.text_ne_nil
    have hafter : Location.start.after (before ++ x.gap ++ x.text) =
        (Location.start.after before).after x.whole := by
      rw [List.append_assoc, Location.after_append, whole]
    have hrest := tokenized_locate _ rest hend
    have hcs := whole_append_of_first? hf
    have hlongest := Trivia.longest_split cs
    rw [hafter] at hrest
    rw [whole, List.append_assoc] at hcs
    rw [hs, ← hcs] at hlongest
    rw [lexemes_of_some hf, TokenStream.locate, ← hcs]
    exact .token hlongest hscans hrest
termination_by cs.length

/-- There is one way to make tokens of a text. -/
theorem Tokenized.eq_locate {before cs : List Char} {ts : List Token} (h : Tokenized before cs ts) :
    ts = TokenStream.locate (Location.start.after before) (lexemes cs) := by
  induction h with
  | @done before gap hg =>
    have hg' : Trivia.Longest gap (gap ++ []) := by rwa [List.append_nil]
    have hs := hg'.split_eq
    rw [List.append_nil] at hs
    have hnone : first? gap = none := by rw [first?, hs]
    rw [lexemes_of_none hnone]
    rfl
  | @token before gap text rest t ts hg hscans _ ih =>
    obtain ⟨c, us, x, rfl, hr, ht⟩ := hscans.readAt_eq gap
    obtain ⟨vs, hx, hvs⟩ := exists_text_eq_cons hr
    have hgap : x.gap = gap := by
      have h := gap_readAt gap c (us ++ rest)
      rwa [hr] at h
    have hsome : first? (gap ++ (c :: us ++ rest)) = some (x, rest) := by
      rw [first?, hg.split_eq]
      exact congrArg some hr
    have hwhole : x.whole = gap ++ c :: us := by
      rw [whole, hx, hgap, List.append_cancel_right hvs]
    rw [lexemes_of_some hsome, TokenStream.locate, location_token_after, hgap, ← ht, hwhole,
      ← Location.after_append, ← List.append_assoc, ← ih]

theorem Tokenized.length_le {before cs : List Char} {ts : List Token} (h : Tokenized before cs ts) :
    ts.length ≤ cs.length := by
  induction h with
  | done => exact Nat.zero_le _
  | token _ hscans _ ih =>
    have hpos := List.length_pos_iff.mpr hscans.text_ne_nil
    rw [List.length_cons, List.length_append, List.length_append]
    omega

/-- Taking tokens one by one cuts a text into its longest gaps and tokens, with nothing left, and
then gives the end as often as one asks. The tokens are located where their texts start, but for
invalid escapes, and come in order. -/
theorem TokenStream.ofSource_tokenized (source : String) :
    let ts := (ofSource source).tokens
    let finish := Location.ending source.toList
    (∀ k, (Lexer.ofSource source).pulled (ts.length + k) = ts ++ List.replicate k (.eof finish)) ∧
    (∀ k, (Lexer.ofSource source).scanned (ts.length + k) =
      some (ts ++ List.replicate k (.eof finish))) ∧
    (∀ t ∈ ts, t.kind ≠ .eof) ∧
    (∀ us, Tokenized [] source.toList us ↔ us = ts) ∧
    ts.length ≤ source.length ∧
    ts.Pairwise (·.location < ·.location) ∧ ∀ t ∈ ts, t.location ≤ finish := by
  intro ts finish
  have hfinish : (ofSource source).finish = finish := Location.after_start source.toList
  have htokenized : Tokenized [] source.toList ts := tokenized_locate [] source.toList (.inl nofun)
  have hsorted := sorted_ofSource source
  rw [hfinish] at hsorted
  have hpulled (k : Nat) : (Lexer.ofSource source).pulled (ts.length + k) =
      ts ++ List.replicate k (.eof finish) := by
    rw [Lexer.pulled_ofSource, hfinish]
  refine ⟨hpulled, fun k ↦ ?_, fun t ↦ kind_ne_eof_of_mem_ofSource, fun us ↦ ⟨fun h ↦ ?_, ?_⟩, ?_,
    hsorted⟩
  · rw [Lexer.scanned_eq, hpulled]
  · exact h.eq_locate
  · rintro rfl
    exact htokenized
  · rw [← String.length_toList]
    exact htokenized.length_le

end CstGrammar
