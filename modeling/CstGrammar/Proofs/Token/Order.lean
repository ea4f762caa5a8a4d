import CstGrammar.Proofs.Token.Lexeme

namespace CstGrammar

namespace Location

variable {a b c : Location}

theorem lt_iff : a < b ↔ a.line < b.line ∨ a.line = b.line ∧ a.column < b.column := Iff.rfl

theorem le_iff : a ≤ b ↔ a.line < b.line ∨ a.line = b.line ∧ a.column ≤ b.column := by
  change ¬ b < a ↔ _
  rw [lt_iff]
  omega

theorem le_refl (a : Location) : a ≤ a := le_iff.mpr (.inr ⟨rfl, Nat.le_refl _⟩)

theorem le_of_lt (h : a < b) : a ≤ b := by
  rw [lt_iff] at h
  rw [le_iff]
  omega

theorem le_trans (h : a ≤ b) (h' : b ≤ c) : a ≤ c := by
  rw [le_iff] at h h' ⊢
  omega

theorem lt_of_lt_of_le (h : a < b) (h' : b ≤ c) : a < c := by
  rw [lt_iff] at h ⊢
  rw [le_iff] at h'
  omega

theorem lt_of_le_of_lt (h : a ≤ b) (h' : b < c) : a < c := by
  rw [le_iff] at h
  rw [lt_iff] at h' ⊢
  omega

theorem lt_next (loc : Location) : loc < loc.next := .inr ⟨rfl, Nat.lt_succ_self _⟩

theorem next_le_step (loc : Location) (c : Char) : loc.next ≤ loc.step c := by
  rw [step]
  split
  · exact le_of_lt (.inl (Nat.lt_succ_self _))
  · exact le_refl _

theorem le_after (loc : Location) (cs : List Char) : loc ≤ loc.after cs := by
  induction cs generalizing loc with
  | nil => exact le_refl loc
  | cons c cs ih => exact le_trans (le_of_lt (lt_next loc)) (le_trans (next_le_step loc c) (ih _))

theorem next_le_after (loc : Location) (c : Char) (cs : List Char) :
    loc.next ≤ loc.after (c :: cs) := le_trans (next_le_step loc c) (le_after _ cs)

end Location

namespace Lexeme

/-- Whether the lexeme is located at one of its own characters. -/
def IsPlaced (x : Lexeme) : Prop := ∃ c cs, x.text = x.lead ++ c :: cs

theorem isPlaced_ofLiteral (gap : List Char) (body : Literal.Body) :
    (ofLiteral gap body).IsPlaced := by
  unfold ofLiteral
  dsimp only
  split
  · next hi =>
    obtain ⟨c, more, hp, -⟩ := Literal.Body.exists_of_hasInvalid hi
    refine ⟨'\\', c :: more.flatMap Literal.Piece.text ++ body.ending.text, ?_⟩
    rw [ofError, Literal.Body.text, hp]
    simp [Literal.Piece.text]
  · split <;> exact ⟨_, _, rfl⟩

theorem isPlaced_readAt (gap : List Char) (c : Char) (rest : List Char) :
    (readAt gap c rest).1.IsPlaced := by
  unfold readAt
  split
  · exact ⟨_, _, rfl⟩
  · split
    · exact isPlaced_ofLiteral gap _
    · split <;> exact ⟨_, _, rfl⟩

theorem lt_location_token (x : Lexeme) (before : Location) : before < (x.token before).location :=
  Location.lt_of_le_of_lt (Location.le_after before _) (Location.lt_next _)

theorem IsPlaced.location_token_le {x : Lexeme} (h : x.IsPlaced) (before : Location) :
    (x.token before).location ≤ before.after x.whole := by
  obtain ⟨c, cs, ht⟩ := h
  rw [whole, ht, ← List.append_assoc, Location.after_append]
  exact Location.next_le_after _ c cs

end Lexeme

open Lexeme

theorem flatMap_whole_append (cs : List Char) :
    ∃ blank, (lexemes cs).flatMap whole ++ blank = cs := by
  cases hf : first? cs with
  | none => exact ⟨cs, by rw [lexemes_of_none hf]; rfl⟩
  | some r =>
    obtain ⟨x, rest⟩ := r
    have hlt := length_lt_of_first? hf
    obtain ⟨blank, hb⟩ := flatMap_whole_append rest
    refine ⟨blank, ?_⟩
    rw [lexemes_of_some hf, List.flatMap_cons, List.append_assoc, hb, whole_append_of_first? hf]
termination_by cs.length

namespace TokenStream

theorem sorted_locate (before : Location) {xs : List Lexeme} (h : ∀ x ∈ xs, x.IsPlaced) :
    (locate before xs).Pairwise (·.location < ·.location) ∧ ∀ t ∈ locate before xs,
      before < t.location ∧ t.location ≤ before.after (xs.flatMap whole) := by
  induction xs generalizing before with
  | nil => exact ⟨.nil, nofun⟩
  | cons x xs ih =>
    obtain ⟨hx, hxs⟩ := List.forall_mem_cons.mp h
    obtain ⟨hsorted, hbounds⟩ := ih (before.after x.whole) hxs
    have hle := hx.location_token_le before
    rw [locate, List.flatMap_cons, Location.after_append]
    refine ⟨.cons (fun t ht ↦ Location.lt_of_le_of_lt hle (hbounds t ht).1) hsorted, ?_⟩
    refine List.forall_mem_cons.mpr ⟨⟨x.lt_location_token before, ?_⟩, fun t ht ↦ ⟨?_, ?_⟩⟩
    · exact Location.le_trans hle (Location.le_after _ _)
    · exact Location.lt_of_le_of_lt (Location.le_after before x.whole) (hbounds t ht).1
    · exact (hbounds t ht).2

/-- The tokens of a text come in the order of their positions, and none is behind the end. -/
theorem sorted_ofSource (source : String) :
    (ofSource source).tokens.Pairwise (·.location < ·.location) ∧
      ∀ t ∈ (ofSource source).tokens, t.location ≤ (ofSource source).finish := by
  obtain ⟨blank, hb⟩ := flatMap_whole_append source.toList
  obtain ⟨hsorted, hbounds⟩ :=
    sorted_locate .start (forall_mem_lexemes (P := IsPlaced) isPlaced_readAt source.toList)
  refine ⟨hsorted, fun t ht ↦ Location.le_trans (hbounds t ht).2 ?_⟩
  change _ ≤ Location.start.after source.toList
  rw [← hb, Location.after_append, hb]
  exact Location.le_after _ blank

end TokenStream

end CstGrammar
