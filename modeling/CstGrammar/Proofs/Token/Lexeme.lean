import CstGrammar.Proofs.Token.Layout
import CstGrammar.Proofs.Token.Word

namespace CstGrammar

namespace Lexeme

theorem text_ofLiteral (gap : List Char) (body : Literal.Body) :
    (ofLiteral gap body).text = '\'' :: body.text := by
  rw [ofLiteral]
  split
  · rfl
  · split <;> rfl

theorem text_readAt_append (gap : List Char) (c : Char) (rest : List Char) :
    (readAt gap c rest).1.text ++ (readAt gap c rest).2 = c :: rest := by
  unfold readAt
  split
  · exact congrArg (c :: ·) List.takeWhile_append_dropWhile
  · split
    · next hq =>
      rw [text_ofLiteral, hq, List.cons_append, Literal.Body.text_read_append]
    · split <;> rfl

theorem whole_append_of_first? {cs rest : List Char} {x : Lexeme}
    (h : first? cs = some (x, rest)) : x.whole ++ rest = cs := by
  obtain ⟨c, us, hs, hr⟩ := readAt_of_first? h
  have happ := Trivia.split_append false cs
  have ht := text_readAt_append x.gap c us
  rw [hs] at happ
  rw [hr] at ht
  rw [whole, List.append_assoc, ht, happ]

theorem after_whole_of_first? {cs rest : List Char} {x : Lexeme} (h : first? cs = some (x, rest))
    (before : Location) : (before.after x.whole).after rest = before.after cs := by
  rw [← Location.after_append, whole_append_of_first? h]

/-- Whether a lexeme that ends in front of `ds` ends in front of `es` too: `es` starts with a blank,
or as `ds` does. -/
def KeepsEnd (ds es : List Char) : Prop :=
  (ds = [] → es = []) ∧ ∀ c ∈ es.head?, Trivia.isBlank c = true ∨ ds.head? = some c

theorem KeepsEnd.nil (ds : List Char) : KeepsEnd ds [] := ⟨fun _ ↦ rfl, nofun⟩

theorem KeepsEnd.refl (ds : List Char) : KeepsEnd ds ds := ⟨id, fun _ ↦ .inr⟩

theorem KeepsEnd.append_left {ds es : List Char} (h : KeepsEnd ds es) (cs : List Char) :
    KeepsEnd (cs ++ ds) (cs ++ es) := by
  cases cs with
  | nil => exact h
  | cons c cs => exact ⟨nofun, fun d hd ↦ .inr hd⟩

theorem KeepsEnd.detached {ds es : List Char} (h : KeepsEnd ds es) (hd : Detached ds) :
    Detached es := by
  intro c hc
  rcases h.2 c hc with hb | hh
  · exact isNameChar_eq_false_of_isBlank hb
  · exact hd c hh

theorem readAt_swap {gap : List Char} {c : Char} {cs ds es : List Char} {x : Lexeme}
    (h : readAt gap c (cs ++ ds) = (x, ds)) (hne : ds ≠ []) (he : KeepsEnd ds es) :
    readAt gap c (cs ++ es) = (x, es) := by
  unfold readAt at h ⊢
  split at h
  · next hc =>
    rw [if_pos hc]
    obtain ⟨hx, hd⟩ := Prod.mk.inj h
    have happ := @List.takeWhile_append_dropWhile _ isNameChar (cs ++ ds)
    rw [hd] at happ
    have hcs := List.append_cancel_right happ
    have hname : ∀ d ∈ cs, isNameChar d = true := hcs ▸ List.all_eq_true.mp List.all_takeWhile
    have hdet : Detached ds := hd ▸ detached_dropWhile (cs ++ ds)
    obtain ⟨htake, hdrop⟩ := span_name hname (he.detached hdet)
    rw [htake, hdrop, ← hx, hcs]
  · next hc =>
    rw [if_neg hc]
    split at h
    · next hq =>
      rw [if_pos hq]
      obtain ⟨hx, hr⟩ := Prod.mk.inj h
      have ht := Literal.Body.text_read_append (cs ++ ds)
      rw [hr] at ht
      obtain ⟨hread, hend⟩ := Literal.Body.read_spec (cs ++ ds)
      have hes := Literal.Body.read_text hread es fun hc ↦ absurd (hr ▸ hend hc) hne
      rw [List.append_cancel_right ht] at hes
      rw [hes, ← hx]
    · next hq =>
      rw [if_neg hq]
      split at h
      all_goals
        obtain ⟨hx, hr⟩ := Prod.mk.inj h
        rw [hx, List.append_left_eq_self.mp hr, List.nil_append]

theorem exists_text_eq_cons {gap : List Char} {c : Char} {us rest : List Char} {x : Lexeme}
    (h : readAt gap c us = (x, rest)) : ∃ vs, x.text = c :: vs ∧ vs ++ rest = us := by
  have ht := text_readAt_append gap c us
  have hl := length_readAt_le gap c us
  rw [h] at ht hl
  cases hx : x.text with
  | nil =>
    rw [hx, List.nil_append] at ht
    rw [ht, List.length_cons] at hl
    omega
  | cons d vs =>
    rw [hx, List.cons_append] at ht
    obtain ⟨rfl, hvs⟩ := List.cons.inj ht
    exact ⟨vs, rfl, hvs⟩

/-- A lexeme that is followed by some text is read the same in front of another text. -/
theorem first?_swap {ds es : List Char} {x : Lexeme} (h : first? (x.whole ++ ds) = some (x, ds))
    (he : KeepsEnd ds es) : first? (x.whole ++ es) = some (x, es) := by
  by_cases hne : ds = []
  · rw [he.1 hne]
    rwa [hne] at h
  · obtain ⟨c, us, hs, hr⟩ := readAt_of_first? h
    obtain ⟨vs, hx, rfl⟩ := exists_text_eq_cons hr
    obtain ⟨hlayout, hvisible⟩ := Trivia.layout_of_split hs
    have hv : Trivia.Visible (c :: (vs ++ es)) := by
      rw [Trivia.visible_cons_iff] at hvisible ⊢
      refine ⟨hvisible.1, fun hc ↦ ?_⟩
      rcases (he.append_left vs).2 '/' hc.2 with hblank | hh
      · cases hblank
      · exact hvisible.2 ⟨hc.1, hh⟩
    rw [first?, whole, hx, List.append_assoc, hlayout.split_append, List.cons_append, hv,
      List.append_nil]
    exact congrArg some (readAt_swap hr hne he)

end Lexeme

open Lexeme

/-- Where a lexeme ends, a text falls apart, and may go on with another text that keeps the end. -/
theorem lexemes_append {cs ds es : List Char} {xs ys : List Lexeme}
    (h : lexemes (cs ++ ds) = xs ++ ys) (hw : xs.flatMap whole = cs)
    (he : KeepsEnd ds es) : lexemes (cs ++ es) = xs ++ lexemes es := by
  induction xs generalizing cs with
  | nil =>
    obtain rfl := hw
    rfl
  | cons x xs ih =>
    cases hf : first? (cs ++ ds) with
    | none =>
      rw [lexemes_of_none hf] at h
      cases h
    | some r =>
      obtain ⟨y, rest⟩ := r
      rw [lexemes_of_some hf, List.cons_append] at h
      obtain ⟨rfl, hxs⟩ := List.cons.inj h
      have happ := whole_append_of_first? hf
      rw [← hw, List.flatMap_cons, List.append_assoc] at happ hf ⊢
      obtain rfl := List.append_cancel_left happ
      have hf' := first?_swap hf (he.append_left _)
      rw [lexemes_of_some hf', ih hxs rfl]
      rfl

/-- Where a lexeme ends, a text falls apart into two that are read each for itself. -/
theorem lexemes_of_append {cs ds : List Char} {xs ys : List Lexeme}
    (h : lexemes (cs ++ ds) = xs ++ ys) (hw : xs.flatMap whole = cs) :
    lexemes cs = xs ∧ lexemes ds = ys := by
  have hcs := lexemes_append h hw (.nil ds)
  have hds := lexemes_append h hw (.refl ds)
  have hnil : lexemes [] = [] := lexemes_of_none rfl
  rw [List.append_nil, hnil, List.append_nil] at hcs
  rw [h] at hds
  exact ⟨hcs, (List.append_cancel_left hds).symm⟩

theorem TokenStream.locate_append (before : Location) (xs ys : List Lexeme) :
    locate before (xs ++ ys) = locate before xs ++ locate (before.after (xs.flatMap whole)) ys := by
  induction xs generalizing before with
  | nil => rfl
  | cons x xs ih =>
    rw [List.cons_append, locate, locate, ih, List.flatMap_cons, Location.after_append]
    rfl

end CstGrammar
