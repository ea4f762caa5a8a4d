import CstGrammar.Proofs.Token.Literal
import CstGrammar.Token.Lexer

namespace CstGrammar

/-- What a token says, without the place where it says it. -/
abbrev Word := Token.Kind × String

def Token.word (t : Token) : Word := (t.kind, t.value)

def Lexeme.word (x : Lexeme) : Word := (x.kind, x.value)

def words (cs : List Char) : List Word := (lexemes cs).map Lexeme.word

def isName (name : String) : Bool := !name.toList.isEmpty && name.toList.all isNameChar

def punctuation : List (Char × Token.Kind) :=
  [('=', .equals), ('*', .star), ('?', .question), ('(', .lparen), (')', .rparen), ('|', .pipe),
    (':', .colon)]

/-- Whether a name may end in front of the text. -/
def Detached (cs : List Char) : Prop := ∀ c ∈ cs.head?, isNameChar c = false

theorem detached_nil : Detached [] := nofun

theorem detached_cons {c : Char} (hc : isNameChar c = false) (cs : List Char) :
    Detached (c :: cs) := by
  rintro d ⟨⟩
  exact hc

theorem Detached.append {cs ds : List Char} (h : Detached cs) (hd : cs = [] → Detached ds) :
    Detached (cs ++ ds) := by
  cases cs with
  | nil => exact hd rfl
  | cons c cs => exact h

theorem detached_dropWhile (cs : List Char) : Detached (cs.dropWhile isNameChar) := by
  intro c hc
  have h := List.head?_dropWhile_not isNameChar cs
  rw [hc] at h
  exact h

theorem lexemes_of_none {cs : List Char} (h : Lexeme.first? cs = none) : lexemes cs = [] := by
  rw [lexemes]
  split
  · rfl
  · next hs => cases h.symm.trans hs

theorem lexemes_of_some {cs rest : List Char} {x : Lexeme}
    (h : Lexeme.first? cs = some (x, rest)) : lexemes cs = x :: lexemes rest := by
  rw [lexemes]
  split
  · next hs => cases h.symm.trans hs
  · next hs =>
    cases h.symm.trans hs
    rfl

theorem mem_punctuation_iff {c : Char} {kind : Token.Kind} :
    (c, kind) ∈ punctuation ↔ Token.Kind.ofPunctuation? c = some kind := by
  constructor
  · intro h
    have hall : ∀ p ∈ punctuation, Token.Kind.ofPunctuation? p.1 = some p.2 := by decide
    exact hall _ h
  · intro h
    unfold Token.Kind.ofPunctuation? at h
    split at h <;> cases h <;> decide

theorem isNameChar_eq_false_of_isBlank {c : Char} (h : Trivia.isBlank c = true) :
    isNameChar c = false := by
  simp only [Trivia.isBlank, Bool.or_eq_true, decide_eq_true_eq] at h
  rcases h with ((rfl | rfl) | rfl) | rfl <;> decide

namespace Lexeme

theorem readAt_gap (gap : List Char) (c : Char) (rest : List Char) :
    readAt gap c rest = ({ (readAt [] c rest).1 with gap }, (readAt [] c rest).2) := by
  unfold readAt
  split
  · rfl
  · split
    · simp only [ofLiteral]
      split
      · rfl
      · split <;> rfl
    · split <;> rfl

theorem gap_readAt (gap : List Char) (c : Char) (rest : List Char) :
    (readAt gap c rest).1.gap = gap := by
  rw [readAt_gap]

theorem readAt_of_first? {cs rest : List Char} {x : Lexeme} (h : first? cs = some (x, rest)) :
    ∃ c us, Trivia.split false cs = (x.gap, c :: us) ∧ readAt x.gap c us = (x, rest) := by
  rw [first?] at h
  split at h
  · cases h
  · next gap c us hs =>
    have hr := Option.some.inj h
    have hg := gap_readAt gap c us
    rw [hr] at hg
    rw [hg]
    exact ⟨c, us, hs, hr⟩

/-- What only makes the gap in front of a text longer is read with it. -/
theorem first?_of_split {pre cs ds : List Char} (h : Trivia.split false ds =
    (pre ++ (Trivia.split false cs).1, (Trivia.split false cs).2)) :
    first? ds = (first? cs).map (fun r ↦ ({ r.1 with gap := pre ++ r.1.gap }, r.2)) := by
  rw [first?, first?, h]
  match Trivia.split false cs with
  | (_, []) => rfl
  | (gap, d :: rest) =>
    dsimp only
    rw [readAt_gap (pre ++ gap), readAt_gap gap]
    rfl

theorem first?_of_visible {c : Char} (hb : Trivia.isBlank c = false) (hc : c ≠ '/')
    (rest : List Char) : first? (c :: rest) = some (readAt [] c rest) := by
  have hs : Trivia.split false (c :: rest) = ([], c :: rest) := by
    rw [Trivia.split, if_neg (by simp), if_neg (by simp [hb]), if_neg (fun h ↦ hc h.1)]
  rw [first?, hs]

end Lexeme

open Lexeme

theorem words_nil : words [] = [] := by
  rw [words, lexemes_of_none rfl]
  rfl

theorem words_of_split {pre cs ds : List Char} (h : Trivia.split false ds =
    (pre ++ (Trivia.split false cs).1, (Trivia.split false cs).2)) : words ds = words cs := by
  have hf := first?_of_split h
  cases hr : first? cs with
  | none =>
    rw [hr] at hf
    rw [words, words, lexemes_of_none hf, lexemes_of_none hr]
  | some r =>
    obtain ⟨x, rest⟩ := r
    rw [hr] at hf
    rw [words, words, lexemes_of_some hf, lexemes_of_some hr]
    rfl

theorem words_blank {c : Char} (h : Trivia.isBlank c = true) (cs : List Char) :
    words (c :: cs) = words cs := by
  have hs : Trivia.split false (c :: cs) =
      ([c] ++ (Trivia.split false cs).1, (Trivia.split false cs).2) := by
    rw [Trivia.split, if_neg (by simp), if_pos h]
    rfl
  exact words_of_split hs

theorem words_of_visible {c : Char} (hb : Trivia.isBlank c = false) (hc : c ≠ '/')
    (rest : List Char) :
    words (c :: rest) = (readAt [] c rest).1.word :: words (readAt [] c rest).2 := by
  rw [words, lexemes_of_some (first?_of_visible hb hc rest)]
  rfl

theorem words_punctuation {c : Char} {kind : Token.Kind}
    (hk : Token.Kind.ofPunctuation? c = some kind) (rest : List Char) :
    words (c :: rest) = (kind, String.singleton c) :: words rest := by
  have hall : ∀ p ∈ punctuation, Trivia.isBlank p.1 = false ∧ p.1 ≠ '/' ∧
      isNameChar p.1 = false ∧ p.1 ≠ '\'' := by
    decide
  obtain ⟨hb, hs, hn, hq⟩ := hall _ (mem_punctuation_iff.mpr hk)
  rw [words_of_visible hb hs, readAt, if_neg (by simp [hn]), if_neg hq, hk]
  rfl

theorem span_name {name rest : List Char} (hn : ∀ c ∈ name, isNameChar c = true)
    (hr : Detached rest) : (name ++ rest).takeWhile isNameChar = name ∧
      (name ++ rest).dropWhile isNameChar = rest := by
  rw [List.takeWhile_append_of_pos hn, List.dropWhile_append_of_pos hn]
  cases rest with
  | nil => exact ⟨List.append_nil name, rfl⟩
  | cons d ds => simp [hr d rfl]

theorem words_name {name : String} (hn : isName name = true) {rest : List Char}
    (hr : Detached rest) : words (name.toList ++ rest) = (.node, name) :: words rest := by
  rw [isName, Bool.and_eq_true, List.all_eq_true] at hn
  obtain ⟨hne, hall⟩ := hn
  match hcs : name.toList with
  | [] => simp [hcs] at hne
  | c :: cs =>
    rw [hcs] at hall
    have hc : isNameChar c = true := hall c List.mem_cons_self
    have hb : Trivia.isBlank c = false := by
      cases hb : Trivia.isBlank c with
      | false => rfl
      | true => rw [isNameChar_eq_false_of_isBlank hb] at hc; cases hc
    have hs : c ≠ '/' := by
      rintro rfl
      exact absurd hc (by decide)
    have hcs' : ∀ d ∈ cs, isNameChar d = true := fun d hd ↦ hall d (List.mem_cons_of_mem c hd)
    obtain ⟨htake, hdrop⟩ := span_name hcs' hr
    rw [List.cons_append, words_of_visible hb hs, readAt, if_pos hc, htake, hdrop, ← hcs]
    simp [ofName, word]

theorem words_quote (value : String) (rest : List Char) :
    words (Literal.quote value ++ rest) = (.literal, value) :: words rest := by
  have hv : Literal.Body.value ⟨value.toList.map Literal.Piece.ofChar, .closed⟩ = value := by
    rw [Literal.Body.value, Literal.Body.map_char_quoted, String.ofList_toList]
  have hq : Literal.quote value ++ rest =
      '\'' :: (value.toList.flatMap (fun c ↦ (Literal.Piece.ofChar c).text) ++ '\'' :: rest) := by
    simp [Literal.quote]
  rw [hq, words_of_visible (by decide) (by decide), readAt, if_neg (by decide), if_pos rfl,
    Literal.Body.read_quoted]
  simp [ofLiteral, Literal.Body.hasInvalid_quoted, hv, word]

theorem map_word_locate (before : Location) (xs : List Lexeme) :
    (TokenStream.locate before xs).map Token.word = xs.map Lexeme.word := by
  induction xs generalizing before with
  | nil => rfl
  | cons x xs ih => exact congrArg (x.word :: ·) (ih (before.after x.whole))

theorem map_word_ofSource (source : String) :
    (TokenStream.ofSource source).tokens.map Token.word = words source.toList :=
  map_word_locate .start (lexemes source.toList)

/-- What holds of each lexeme that can be read holds of the lexemes of a text. -/
theorem forall_mem_lexemes {P : Lexeme → Prop} (h : ∀ gap c rest, P (readAt gap c rest).1)
    (cs : List Char) : ∀ x ∈ lexemes cs, P x := by
  cases hf : first? cs with
  | none =>
    rw [lexemes_of_none hf]
    exact nofun
  | some r =>
    obtain ⟨x, rest⟩ := r
    have hlt := length_lt_of_first? hf
    obtain ⟨c, us, -, hr⟩ := readAt_of_first? hf
    have hx := h x.gap c us
    rw [hr] at hx
    rw [lexemes_of_some hf]
    exact List.forall_mem_cons.mpr ⟨hx, forall_mem_lexemes h rest⟩
termination_by cs.length

theorem kind_of_ofPunctuation? {c : Char} {kind : Token.Kind}
    (h : Token.Kind.ofPunctuation? c = some kind) :
    kind ∈ [Token.Kind.equals, .star, .question, .lparen, .rparen, .pipe, .colon] :=
  List.mem_map_of_mem (f := Prod.snd) (mem_punctuation_iff.mpr h)

theorem kind_ofLiteral (gap : List Char) (body : Literal.Body) :
    (ofLiteral gap body).kind ∈ [Token.Kind.literal, .error] := by
  unfold ofLiteral
  dsimp only
  split
  · exact List.mem_cons_of_mem _ List.mem_cons_self
  · split
    · exact List.mem_cons_self
    · exact List.mem_cons_of_mem _ List.mem_cons_self

/-- The words that a text can give. -/
def Word.Proper (w : Word) : Prop :=
  w.1 = .node ∧ isName w.2 = true ∨ w.1 ∈ [Token.Kind.literal, .error] ∨
    w.1 ∈ [Token.Kind.equals, .star, .question, .lparen, .rparen, .pipe, .colon] ∧
      ∃ c, w.2 = String.singleton c

theorem proper_readAt (gap : List Char) (c : Char) (rest : List Char) :
    Word.Proper (readAt gap c rest).1.word := by
  unfold readAt
  split
  · next hc => exact .inl ⟨rfl, by simp [word, ofName, isName, hc]⟩
  · split
    · exact .inr (.inl (kind_ofLiteral gap _))
    · split
      · next kind hk => exact .inr (.inr ⟨kind_of_ofPunctuation? hk, c, rfl⟩)
      · exact .inr (.inl (List.mem_cons_of_mem _ List.mem_cons_self))

theorem proper_of_mem_locate {before : Location} {cs : List Char} {t : Token}
    (ht : t ∈ TokenStream.locate before (lexemes cs)) : Word.Proper t.word := by
  have hm : t.word ∈ (TokenStream.locate before (lexemes cs)).map Token.word :=
    List.mem_map_of_mem ht
  rw [map_word_locate] at hm
  obtain ⟨x, hx, hw⟩ := List.mem_map.mp hm
  rw [← hw]
  exact forall_mem_lexemes (P := fun x ↦ x.word.Proper) proper_readAt _ x hx

theorem proper_of_mem_ofSource {source : String} {t : Token}
    (ht : t ∈ (TokenStream.ofSource source).tokens) : Word.Proper t.word := proper_of_mem_locate ht

theorem Word.Proper.isName {t : Token} (h : Word.Proper t.word) (hk : t.kind = .node) :
    isName t.value = true := by
  have hw : t.word.1 = .node := hk
  rcases h with ⟨-, h⟩ | h | ⟨h, -⟩
  · exact h
  · rw [hw] at h
    exact absurd h (by decide)
  · rw [hw] at h
    exact absurd h (by decide)

theorem Word.Proper.kind_ne_eof {t : Token} (h : Word.Proper t.word) : t.kind ≠ .eof := by
  intro hk
  have hw : t.word.1 = .eof := hk
  rcases h with ⟨h, -⟩ | h | ⟨h, -⟩ <;> simp [hw] at h

theorem kind_ne_eof_of_mem_ofSource {source : String} {t : Token}
    (ht : t ∈ (TokenStream.ofSource source).tokens) : t.kind ≠ .eof :=
  (proper_of_mem_ofSource ht).kind_ne_eof

/-- Only a literal or an error can look like the end marker. -/
theorem Word.Proper.ne_end {t : Token} (h : Word.Proper t.word)
    (hk : t.kind ∉ [Token.Kind.literal, .error]) : t.value ≠ "<end of input>" := by
  intro hv
  have hw : t.word.2 = "<end of input>" := hv
  rcases h with ⟨-, h⟩ | h | ⟨-, c, h⟩
  · rw [hw] at h
    exact absurd h (by decide)
  · exact hk h
  · rw [hw] at h
    have hl := congrArg (List.length ∘ String.toList) h
    simp at hl

end CstGrammar
