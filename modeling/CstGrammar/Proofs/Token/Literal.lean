import CstGrammar.Token.Literal

namespace CstGrammar.Literal

namespace Piece

/-- Whether reading gives the piece back: a quote or a backslash is never a piece by itself. -/
def Readable : Piece → Prop
  | plain c => c ≠ '\'' ∧ c ≠ '\\'
  | escape _ => True

theorem forall_isValid_iff {pieces : List Piece} : (∀ piece ∈ pieces, piece.isValid = true) ↔
    ∀ c, escape c ∈ pieces → c = '\'' ∨ c = '\\' := by
  constructor
  · intro h c hc
    simpa [isValid] using h (escape c) hc
  · intro h piece hm
    cases piece with
    | plain c => rfl
    | escape c => simpa [isValid] using h c hm

theorem readable_ofChar (c : Char) : (ofChar c).Readable := by
  rw [ofChar]
  split
  · trivial
  · next h => exact not_or.mp h

theorem isValid_ofChar (c : Char) : (ofChar c).isValid = true := by
  rw [ofChar]
  split
  · next h => simpa [isValid] using h
  · rfl

theorem char_ofChar (c : Char) : (ofChar c).char = c := by
  rw [ofChar]
  split <;> rfl

/-- A character can be written in one way only. -/
theorem ofChar_char {piece : Piece} (hr : piece.Readable) (hv : piece.isValid = true) :
    ofChar piece.char = piece := by
  cases piece with
  | plain c => exact if_neg (not_or.mpr hr)
  | escape c =>
    have hc : c = '\'' ∨ c = '\\' := by simpa [isValid] using hv
    exact if_pos hc

end Piece

namespace Body

theorem read_plain {c : Char} (hc : c ≠ '\'' ∧ c ≠ '\\') (cs : List Char) :
    read (c :: cs) = (⟨.plain c :: (read cs).1.pieces, (read cs).1.ending⟩, (read cs).2) := by
  rw [read]
  · exact fun h ↦ hc.1 h
  · exact fun h _ ↦ hc.2 h
  · exact fun _ _ h _ ↦ hc.2 h

/-- A character that neither ends a literal nor starts an escape is a piece by itself. -/
theorem plain_of_unmatched {c : Char} {cs : List Char} (hq : c = '\'' → False)
    (hs : c = '\\' → cs = [] → False) (he : ∀ d ds, c = '\\' → cs = d :: ds → False) :
    c ≠ '\'' ∧ c ≠ '\\' := by
  refine ⟨hq, ?_⟩
  rintro rfl
  cases cs with
  | nil => exact hs rfl rfl
  | cons d cs => exact he d cs rfl rfl

theorem read_pieces {pieces : List Piece} (h : ∀ piece ∈ pieces, piece.Readable) (cs : List Char) :
    read (pieces.flatMap Piece.text ++ cs) =
      (⟨pieces ++ (read cs).1.pieces, (read cs).1.ending⟩, (read cs).2) := by
  induction pieces with
  | nil => rfl
  | cons piece pieces ih =>
    obtain ⟨hp, hps⟩ := List.forall_mem_cons.mp h
    rw [List.flatMap_cons, List.append_assoc]
    cases piece with
    | plain c =>
      rw [Piece.text, List.singleton_append, read_plain hp, ih hps]
      rfl
    | escape c =>
      rw [Piece.text, List.cons_append, List.singleton_append, read, ih hps]
      rfl

/-- A literal is read piece by piece up to the first quote that is not a part of a piece. -/
theorem read_spec (cs : List Char) : (∀ piece ∈ (read cs).1.pieces, piece.Readable) ∧
    ((read cs).1.ending ≠ .closed → (read cs).2 = []) := by
  induction cs using read.induct with
  | case1 | case3 => exact ⟨nofun, fun _ ↦ rfl⟩
  | case2 cs => exact ⟨nofun, fun h ↦ absurd rfl h⟩
  | case4 c cs ih =>
    rw [read]
    exact ⟨List.forall_mem_cons.mpr ⟨trivial, ih.1⟩, ih.2⟩
  | case5 c cs hq hs he ih =>
    have hc : c ≠ '\'' ∧ c ≠ '\\' := plain_of_unmatched hq hs he
    rw [read_plain hc]
    exact ⟨List.forall_mem_cons.mpr ⟨hc, ih.1⟩, ih.2⟩

theorem read_text {body : Body} (h : ∀ piece ∈ body.pieces, piece.Readable) (rest : List Char)
    (hr : body.ending ≠ .closed → rest = []) : read (body.text ++ rest) = (body, rest) := by
  obtain ⟨pieces, ending⟩ := body
  rw [text, List.append_assoc, read_pieces h]
  cases ending with
  | closed => rw [Ending.text, List.singleton_append, read, List.append_nil]
  | cut | dangling =>
    rw [hr Ending.noConfusion, Ending.text, List.append_nil, read, List.append_nil]

theorem read_quoted (value rest : List Char) :
    read (value.flatMap (fun c ↦ (Piece.ofChar c).text) ++ '\'' :: rest) =
      (⟨value.map Piece.ofChar, .closed⟩, rest) := by
  have h : ∀ piece ∈ value.map Piece.ofChar, piece.Readable :=
    List.forall_mem_map.mpr fun c _ ↦ Piece.readable_ofChar c
  have hread := @read_text ⟨value.map Piece.ofChar, .closed⟩ h rest (absurd rfl)
  rw [text, Ending.text, List.append_assoc, List.flatMap_map] at hread
  exact hread

theorem isValid_of_mem_validRun {body : Body} {piece : Piece} (h : piece ∈ body.validRun) :
    piece.isValid = true := List.all_eq_true.mp List.all_takeWhile piece h

theorem exists_of_hasInvalid {body : Body} (h : body.hasInvalid = true) :
    ∃ c more, body.pieces = body.validRun ++ .escape c :: more ∧ c ≠ '\'' ∧ c ≠ '\\' := by
  have happ := @List.takeWhile_append_dropWhile _ Piece.isValid body.pieces
  cases hd : body.pieces.dropWhile Piece.isValid with
  | nil =>
    obtain ⟨bad, hbad, hv⟩ := List.any_eq_true.mp h
    rw [hd, List.append_nil] at happ
    rw [← happ] at hbad
    have hvalid : bad.isValid = true := isValid_of_mem_validRun hbad
    simp [hvalid] at hv
  | cons bad more =>
    have hbad := List.head?_dropWhile_not Piece.isValid body.pieces
    rw [hd, List.head?_cons] at hbad
    rw [hd] at happ
    cases bad with
    | plain c => cases hbad
    | escape c =>
      refine ⟨c, more, happ.symm, ?_⟩
      simpa [Piece.isValid] using hbad

theorem hasInvalid_eq_false_iff {body : Body} :
    body.hasInvalid = false ↔ ∀ c, .escape c ∈ body.pieces → c = '\'' ∨ c = '\\' := by
  rw [← Piece.forall_isValid_iff]
  simp [hasInvalid]

theorem hasInvalid_of_eq_append {body : Body} {valid more : List Piece} {c : Char}
    (hp : body.pieces = valid ++ .escape c :: more)
    (hv : ∀ d, .escape d ∈ valid → d = '\'' ∨ d = '\\')
    (hq : c ≠ '\'') (hs : c ≠ '\\') : body.hasInvalid = true ∧ body.validRun = valid := by
  have hc : (Piece.escape c).isValid = false := by simp [Piece.isValid, hq, hs]
  refine ⟨by simp [hasInvalid, hp, hc], ?_⟩
  rw [validRun, hp, List.takeWhile_append_of_pos (Piece.forall_isValid_iff.mpr hv)]
  simp [hc]

theorem hasInvalid_quoted (chars : List Char) :
    hasInvalid ⟨chars.map Piece.ofChar, .closed⟩ = false := by
  simp [hasInvalid, Piece.isValid_ofChar]

theorem map_char_quoted (chars : List Char) :
    (chars.map Piece.ofChar).map Piece.char = chars := by
  rw [List.map_map]
  exact (List.map_congr_left fun c _ ↦ Piece.char_ofChar c).trans (List.map_id _)

end Body

end CstGrammar.Literal
