import CstGrammar.Proofs.Token.Tokenized

namespace CstGrammar

namespace Literal

namespace Body

/-- What stands behind an opening quote is a body of a literal and what follows the literal. No
piece of the body is a quote, so that the literal goes up to its first quote that is not escaped,
and to the end of the text if there is none. -/
structure Splits (body : Body) (us rest : List Char) : Prop where
  append : body.text ++ rest = us
  readable : ∀ piece ∈ body.pieces, piece.Readable
  rest_eq_nil : body.ending ≠ .closed → rest = []

theorem splits_read (us : List Char) : (read us).1.Splits us (read us).2 where
  append := text_read_append us
  readable := (read_spec us).1
  rest_eq_nil := (read_spec us).2

theorem splits_iff {body : Body} {us rest : List Char} :
    body.Splits us rest ↔ read us = (body, rest) := by
  constructor
  · intro h
    rw [← h.append]
    exact read_text h.readable rest h.rest_eq_nil
  · intro h
    have hsplits := splits_read us
    rwa [h] at hsplits

theorem splits_quote (value : String) (rest : List Char) :
    Splits ⟨value.toList.map Piece.ofChar, .closed⟩
      (text ⟨value.toList.map Piece.ofChar, .closed⟩ ++ rest) rest where
  append := rfl
  readable := List.forall_mem_map.mpr fun c _ ↦ Piece.readable_ofChar c
  rest_eq_nil h := absurd rfl h

theorem quote_eq (value : String) :
    quote value = '\'' :: text ⟨value.toList.map Piece.ofChar, .closed⟩ := by
  rw [quote, text, List.flatMap_map]
  rfl

theorem quote_value {body : Body} (hc : body.ending = .closed)
    (hp : ∀ piece ∈ body.pieces, piece.Readable ∧ piece.isValid = true) :
    quote body.value = '\'' :: body.text := by
  have hpieces : (body.pieces.map Piece.char).map Piece.ofChar = body.pieces := by
    have hmap : ∀ piece ∈ body.pieces, Piece.ofChar piece.char = piece :=
      fun piece hm ↦ Piece.ofChar_char (hp piece hm).1 (hp piece hm).2
    rw [List.map_map]
    exact (List.map_congr_left hmap).trans (List.map_id _)
  rw [quote_eq, value, String.toList_ofList, hpieces, ← hc]

section Token

variable {body : Body} {opening loc spot : Location} {found : List Char}

theorem token_eq_literal_iff {value : String} :
    body.token opening loc found = ⟨.literal, value, spot⟩ ↔ body.ending = .closed ∧
      (∀ c, .escape c ∈ body.pieces → c = '\'' ∨ c = '\\') ∧
      value = String.ofList (found ++ body.pieces.map Piece.char) ∧ spot = opening := by
  rw [← hasInvalid_eq_false_iff, token]
  by_cases hi : body.hasInvalid
  · simp [hi]
  · by_cases hc : body.ending = .closed <;> simp [hi, hc, eq_comm]

theorem token_eq_unterminated_iff :
    body.token opening loc found = ⟨.error, "unterminated token literal", spot⟩ ↔
      body.ending ≠ .closed ∧ (∀ c, .escape c ∈ body.pieces → c = '\'' ∨ c = '\\') ∧
      spot = opening := by
  rw [← hasInvalid_eq_false_iff, token]
  by_cases hi : body.hasInvalid
  · simp [hi]
  · by_cases hc : body.ending = .closed <;> simp [hi, hc, eq_comm]

theorem token_eq_invalidEscape_iff :
    body.token opening loc found = ⟨.error, "invalid escape in token literal", spot⟩ ↔
      ∃ valid c more, body.pieces = valid ++ .escape c :: more ∧
        (∀ d, .escape d ∈ valid → d = '\'' ∨ d = '\\') ∧ c ≠ '\'' ∧ c ≠ '\\' ∧
        spot = (loc.after (valid.flatMap Piece.text)).next := by
  rw [token]
  constructor
  · intro h
    by_cases hi : body.hasInvalid
    · obtain ⟨c, more, hp, hq, hs⟩ := exists_of_hasInvalid hi
      rw [if_pos hi] at h
      refine ⟨body.validRun, c, more, hp, ?_, hq, hs, (Token.mk.inj h).2.2.symm⟩
      exact Piece.forall_isValid_iff.mp fun piece ↦ isValid_of_mem_validRun
    · by_cases hc : body.ending = .closed <;> simp [hi, hc] at h
  · rintro ⟨valid, c, more, hp, hv, hq, hs, rfl⟩
    obtain ⟨hi, hrun⟩ := hasInvalid_of_eq_append hp hv hq hs
    rw [if_pos hi, hrun]

theorem token_quote (value : String) : token ⟨value.toList.map Piece.ofChar, .closed⟩
    opening loc [] = ⟨.literal, value, opening⟩ := by
  refine token_eq_literal_iff.mpr ⟨rfl, hasInvalid_eq_false_iff.mp (hasInvalid_quoted _), ?_, rfl⟩
  rw [List.nil_append, map_char_quoted, String.ofList_toList]

end Token

end Body

end Literal

open Lexeme Literal

theorem Scans.text_eq_quote {before rest text : List Char} {t : Token}
    (h : Scans before rest text t) (hk : t.kind = .literal) : text = quote t.value := by
  cases h with
  | @literal pieces hp => exact (@Body.quote_value ⟨pieces, .closed⟩ rfl hp).symm
  | @punctuation c kind hp =>
    have hall : ∀ p ∈ CstGrammar.punctuation, p.2 ≠ Token.Kind.literal := by decide
    exact absurd hk (hall _ hp)
  | name | unterminated | invalidEscape | unknown => cases hk

namespace Lexer

theorem locate_lexemes {l : Lexer} {x : Lexeme} {rest : List Char}
    (h : first? l.rest = some (x, rest)) : TokenStream.locate l.before (lexemes l.rest) =
      l.pull.1 :: TokenStream.locate l.pull.2.before (lexemes l.pull.2.rest) := by
  rw [lexemes_of_some h, pull, h]
  rfl

variable {body : Body} {us rest : List Char}

theorem pull_of_splits (h : body.Splits us rest) (before : List Char) (exhausted : Bool) :
    pull ⟨Location.start.after before, '\'' :: us, exhausted⟩ =
      (body.token (.behind before) (Location.start.after (before ++ ['\''])) [],
        ⟨Location.start.after (before ++ '\'' :: body.text), rest, exhausted⟩) := by
  rw [pull_eq_scan, Body.scan_eq, Body.splits_iff.mp h, Location.next_after_start,
    Location.after_append, Location.after_append]
  rfl

/-- A literal is taken up to its first quote that is not escaped, or else to the end of the text,
whatever escapes are in it, and what comes then is read as if nothing had been before it. It has a
value if it is closed and has no other escapes than those of quotes and backslashes; the first other
escape is an error, and so is, without any, the missing quote. Quoting a value is the one way to
write it. -/
theorem pull_quoted (before us : List Char) (exhausted : Bool) :
    let l : Lexer := ⟨Location.start.after before, '\'' :: us, exhausted⟩
    l.scan = some l.pull ∧
    (∃ (body : Body) (rest : List Char), (∀ b r, Body.Splits b us r ↔ b = body ∧ r = rest) ∧
      l.pull.2 = ⟨Location.start.after (before ++ '\'' :: body.text), rest, exhausted⟩ ∧
      TokenStream.locate l.before (lexemes l.rest) =
        l.pull.1 :: TokenStream.locate l.pull.2.before (lexemes rest) ∧
      (∀ value loc, l.pull.1 = ⟨.literal, value, loc⟩ ↔ body.ending = .closed ∧
        (∀ c, .escape c ∈ body.pieces → c = '\'' ∨ c = '\\') ∧
        value = String.ofList (body.pieces.map Piece.char) ∧ loc = .behind before) ∧
      (∀ loc, l.pull.1 = ⟨.error, "invalid escape in token literal", loc⟩ ↔
        ∃ valid c more, body.pieces = valid ++ .escape c :: more ∧
          (∀ d, .escape d ∈ valid → d = '\'' ∨ d = '\\') ∧ c ≠ '\'' ∧ c ≠ '\\' ∧
          loc = .behind (before ++ '\'' :: valid.flatMap Piece.text)) ∧
      ∀ loc, l.pull.1 = ⟨.error, "unterminated token literal", loc⟩ ↔ body.ending ≠ .closed ∧
        (∀ c, .escape c ∈ body.pieces → c = '\'' ∨ c = '\\') ∧ loc = .behind before) ∧
    (∀ value rest,
      let quoted : Lexer := ⟨Location.start.after before, quote value ++ rest, exhausted⟩
      let next : Lexer := ⟨Location.start.after (before ++ quote value), rest, exhausted⟩
      quoted.pull = (⟨.literal, value, .behind before⟩, next) ∧
        quoted.scan = some (⟨.literal, value, .behind before⟩, next)) ∧
    ∀ cs x rest, first? cs = some (x, rest) → x.kind = .literal → x.text = quote x.value := by
  intro l
  refine ⟨l.scan_eq_pull, ?_, fun value rest ↦ ?_, fun cs x rest hf hk ↦ ?_⟩
  · have hsplits := Body.splits_read us
    have hpull := pull_of_splits hsplits before exhausted
    refine ⟨(Body.read us).1, (Body.read us).2, fun b r ↦ ?_, ?_, ?_, ?_, ?_, ?_⟩
    · rw [Body.splits_iff, Prod.ext_iff]
      exact and_congr eq_comm eq_comm
    · exact congrArg Prod.snd hpull
    · exact locate_lexemes (first?_quoted us)
    · intro value loc
      rw [hpull, Body.token_eq_literal_iff, List.nil_append]
    · intro loc
      rw [hpull, Body.token_eq_invalidEscape_iff]
      simp only [← Location.after_append, Location.next_after_start, List.append_assoc,
        List.singleton_append]
    · intro loc
      rw [hpull, Body.token_eq_unterminated_iff]
  · intro quoted next
    have hpull : quoted.pull = (⟨.literal, value, .behind before⟩, next) := by
      have hsplits := pull_of_splits (Body.splits_quote value rest) before exhausted
      rw [Body.token_quote, ← Body.quote_eq, ← List.cons_append, ← Body.quote_eq] at hsplits
      exact hsplits
    exact ⟨hpull, by rw [scan_eq_pull, hpull]⟩
  · obtain ⟨c, us, hs, hr⟩ := readAt_of_first? hf
    have hb : Trivia.isBlank c = false :=
      (Trivia.visible_cons_iff.mp (Trivia.layout_of_split hs).2).1
    have hscans : Scans [] rest x.text _ := scans_readAt hr hb fun _ ↦ nofun
    exact hscans.text_eq_quote hk

end Lexer

end CstGrammar
