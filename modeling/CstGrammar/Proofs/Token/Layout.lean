import CstGrammar.Token.Lexeme

namespace CstGrammar.Trivia

/-- Blanks and comments. `inComment` tells whether what follows them on the line belongs to the last
comment. -/
inductive Layout : (inComment : Bool) → List Char → Prop
  | nil : Layout false []
  | blank {b c cs} : isBlank c = true → Layout b cs → Layout b (c :: cs)
  | comment {b text cs} : '\n' ∉ text → Layout b cs →
      Layout b ('/' :: '/' :: (text ++ '\n' :: cs))
  | cut {text} : '\n' ∉ text → Layout true ('/' :: '/' :: text)

theorem split_blank {c : Char} (h : isBlank c = true) (cs : List Char) :
    split false (c :: cs) = (c :: (split false cs).1, (split false cs).2) := by
  rw [split, if_neg Bool.false_ne_true, if_pos h]

theorem split_slashes (cs : List Char) : split false ('/' :: '/' :: cs) =
    ('/' :: '/' :: (split true cs).1, (split true cs).2) := by
  rw [split, if_neg Bool.false_ne_true, if_neg (by decide), if_pos ⟨rfl, rfl⟩, split, if_pos rfl]
  rfl

theorem split_comment {text : List Char} (ht : '\n' ∉ text) (cs : List Char) :
    split true (text ++ cs) = (text ++ (split true cs).1, (split true cs).2) := by
  induction text with
  | nil => rfl
  | cons c text ih =>
    rw [List.mem_cons, not_or] at ht
    have hc : (c != '\n') = true := bne_iff_ne.mpr (Ne.symm ht.1)
    rw [List.cons_append, split, if_pos rfl, hc, ih ht.2]
    rfl

/-- Blanks and comments belong to the gap in front of a text. -/
theorem Layout.split_append {b : Bool} {pre : List Char} (h : Layout b pre) (cs : List Char) :
    split false (pre ++ cs) = (pre ++ (split b cs).1, (split b cs).2) := by
  induction h with
  | nil => rfl
  | blank hc _ ih =>
    rw [List.cons_append, split_blank hc, ih]
    rfl
  | @comment b text ds ht _ ih =>
    rw [List.cons_append, List.cons_append, List.append_assoc, List.cons_append, split_slashes,
      split_comment ht, split, if_pos rfl, bne_self_eq_false, ih]
    simp
  | cut ht =>
    rw [List.cons_append, List.cons_append, split_slashes, split_comment ht]
    rfl

def Visible (cs : List Char) : Prop := split false cs = ([], cs)

theorem visible_cons_iff {c : Char} {cs : List Char} :
    Visible (c :: cs) ↔ isBlank c = false ∧ ¬ (c = '/' ∧ cs.head? = some '/') := by
  constructor
  · intro h
    rw [Visible, split, if_neg Bool.false_ne_true] at h
    split at h
    · cases h
    · next hb =>
      split at h
      · cases h
      · next hs => exact ⟨by simpa using hb, hs⟩
  · rintro ⟨hb, hs⟩
    rw [Visible, split, if_neg Bool.false_ne_true, if_neg (by simp [hb]), if_neg hs]

/-- A gap has nothing but blanks and comments in it, and what follows is not one of them. The last
comment is over unless it goes on to the end of the text. -/
theorem layout_split (cs : List Char) : ∃ b, Layout b (split false cs).1 ∧
    Visible (split false cs).2 ∧ (b = true → (split false cs).2 = []) := by
  match cs with
  | [] => exact ⟨false, .nil, rfl, nofun⟩
  | c :: cs =>
    by_cases hb : isBlank c = true
    · obtain ⟨b, hl, hr⟩ := layout_split cs
      rw [split_blank hb]
      exact ⟨b, .blank hb hl, hr⟩
    · by_cases hs : c = '/' ∧ cs.head? = some '/'
      · obtain ⟨rfl, hh⟩ := hs
        obtain ⟨us, hus⟩ := List.head?_eq_some_iff.mp hh
        rw [hus, split_slashes]
        by_cases hn : '\n' ∈ us
        · obtain ⟨text, ds, hds, ht⟩ := List.eq_append_cons_of_mem hn
          have hlt : ds.length < cs.length := by
            rw [hus, hds, List.length_cons, List.length_append, List.length_cons]
            omega
          obtain ⟨b, hl, hr⟩ := layout_split ds
          rw [hds, split_comment ht, split, if_pos rfl, bne_self_eq_false]
          exact ⟨b, .comment ht hl, hr⟩
        · have hu := split_comment hn []
          rw [List.append_nil] at hu
          rw [hu]
          exact ⟨true, by simpa [split] using Layout.cut hn, rfl, fun _ ↦ rfl⟩
      · have hv : Visible (c :: cs) := visible_cons_iff.mpr ⟨by simpa using hb, hs⟩
        rw [hv]
        exact ⟨false, .nil, hv, nofun⟩
termination_by cs.length

theorem layout_of_split {cs gap us : List Char} {c : Char} (h : split false cs = (gap, c :: us)) :
    Layout false gap ∧ Visible (c :: us) := by
  obtain ⟨b, hl, hv, hb⟩ := layout_split cs
  rw [h] at hl hv hb
  cases b with
  | false => exact ⟨hl, hv⟩
  | true => cases hb rfl

/-- Whether `gap` is the longest run of blanks and comments at the start of the text. -/
def Longest (gap cs : List Char) : Prop :=
  (∃ b, Layout b gap) ∧ gap <+: cs ∧ ∀ b pre, Layout b pre → pre <+: cs → pre <+: gap

theorem longest_split (cs : List Char) : Longest (split false cs).1 cs := by
  obtain ⟨b, hl, -⟩ := layout_split cs
  refine ⟨⟨b, hl⟩, ⟨_, split_append false cs⟩, ?_⟩
  rintro b pre hpre ⟨ds, rfl⟩
  rw [hpre.split_append]
  exact List.prefix_append _ _

theorem Longest.split_eq {gap rest : List Char} (h : Longest gap (gap ++ rest)) :
    split false (gap ++ rest) = (gap, rest) := by
  obtain ⟨⟨b, hl⟩, -, hlongest⟩ := h
  obtain ⟨⟨b', hl'⟩, hprefix, hlongest'⟩ := longest_split (gap ++ rest)
  have heq : (split false (gap ++ rest)).1 = gap :=
    (hlongest b' _ hl' hprefix).eq_of_length_le
      (hlongest' b gap hl (List.prefix_append gap rest)).length_le
  have happ := split_append false (gap ++ rest)
  rw [heq] at happ
  exact Prod.ext heq (List.append_cancel_left happ)

end CstGrammar.Trivia
