import CstGrammar.Proofs.Grammar.Concatenation
import CstGrammar.Proofs.Grammar.RoundTrip

namespace CstGrammar

open Lexeme

/-- Whether a text is cut in two at its start, or behind a lexeme that another one follows. -/
def IsSeam (cs ds : List Char) : Prop :=
  cs = [] ∨ ∃ xs y ys, lexemes (cs ++ ds) = xs ++ y :: ys ∧ xs.flatMap whole = cs

theorem words_layout {pre : List Char} (h : Trivia.Layout false pre) (cs : List Char) :
    words (pre ++ cs) = words cs := words_of_split (h.split_append cs)

/-- At a seam, a text says the same with blanks and comments put in. -/
theorem words_insert {cs ds filler : List Char} (hs : IsSeam cs ds)
    (hf : Trivia.Layout false filler) (hb : ∃ c ∈ filler.head?, Trivia.isBlank c = true) :
    words (cs ++ (filler ++ ds)) = words (cs ++ ds) := by
  obtain ⟨c, hc, hblank⟩ := hb
  obtain ⟨us, rfl⟩ := List.head?_eq_some_iff.mp hc
  rcases hs with rfl | ⟨xs, y, ys, hl, hw⟩
  · exact words_layout hf ds
  · obtain ⟨-, hys⟩ := lexemes_of_append hl hw
    have hne : ds ≠ [] := by
      rintro rfl
      have hnil : lexemes [] = [] := lexemes_of_none rfl
      rw [hnil] at hys
      cases hys
    have hkeeps : KeepsEnd ds ((c :: us) ++ ds) := by
      refine ⟨fun h ↦ absurd h hne, fun d hd ↦ ?_⟩
      cases hd
      exact .inl hblank
    have hwords : (lexemes ((c :: us) ++ ds)).map Lexeme.word = (lexemes ds).map Lexeme.word :=
      words_layout hf ds
    rw [words, words, lexemes_append hl hw hkeeps, hl, ← hys, List.map_append, List.map_append,
      hwords]

namespace ParseError

theorem problem_carry (f : Location → Location) {old new : Token} (h : old.value = new.value)
    (e : ParseError) : (e.carry f old new).problem = e.problem := by
  rw [carry]
  split
  · next hf =>
    rw [h] at hf
    have hp := hf.2
    cases hproblem : e.problem <;> rw [hproblem] at hp <;> cases hp <;> rfl
  · rfl

end ParseError

theorem TokenStream.map_word_toList (s : TokenStream) :
    s.toList.map Token.word = s.tokens.map Token.word ++ [(.eof, "<end of input>")] := by
  rw [toList, List.map_append]
  rfl

def TokenStream.bare (s : TokenStream) : TokenStream :=
  ⟨s.tokens.map (Token.relocate fun _ ↦ .start), .start⟩

theorem TokenStream.bare_congr {s s' : TokenStream}
    (h : s.tokens.map Token.word = s'.tokens.map Token.word) : s.bare = s'.bare := by
  have hr : Token.relocate (fun _ ↦ .start) = (fun w : Word ↦ ⟨w.1, w.2, .start⟩) ∘ Token.word :=
    rfl
  rw [bare, bare, hr, ← List.map_map, ← List.map_map, h]

namespace Parse

open CstGrammar.Parser

section

variable {s : TokenStream} (hv : ProperValues s.tokens)

include hv

theorem entries_bare : entries s.bare.finish s.bare.tokens = (entries s.finish s.tokens).map
    (Entry.carry (fun _ ↦ .start) (.eof s.finish) (.eof .start)) := by
  have h := @entries_transport s.finish _ hv .start (fun _ ↦ .start) [] (.inl rfl)
  rw [transport, List.append_nil, entries_nil, List.append_nil] at h
  exact h

/-- The places of the words decide nothing about the rules but where these are located. -/
theorem bareList_bare : (ofTokens s.bare).grammar.toList = (ofTokens s).grammar.bareList := by
  have h := Grammar.map_toList_congr (g := (ofTokens s.bare).grammar) (h := (ofTokens s).grammar)
    id Rule.bare fun name ↦ ?_
  · have hid : (fun d : String × Rule ↦ (d.1, id d.2)) = id := rfl
    rw [hid, List.map_id] at h
    exact h
  · rw [Option.map_id, grammar_ofTokens, grammar_ofTokens, entries_bare hv, definitions_map_carry,
      Grammar.get?_defineAll, Grammar.get?_defineAll, Definition.last?_map_relocate]
    cases Definition.last? name (definitions (entries s.finish s.tokens)) <;> rfl

/-- The places of the words decide nothing about the messages. -/
theorem messages_bare : (ofTokens s.bare).errors.map ParseError.message =
    (ofTokens s).errors.map ParseError.message := by
  rw [errors_ofTokens, errors_ofTokens, entries_bare hv, reports_map_carry, List.map_map]
  apply List.map_congr_left
  intro e _
  have hvalue : (Token.eof s.finish).value = (Token.eof .start).value := rfl
  exact congrArg Problem.message (ParseError.problem_carry _ hvalue e)

end

theorem meaning_congr {source source' : String}
    (h : (TokenStream.ofSource source).toList.map Token.word =
      (TokenStream.ofSource source').toList.map Token.word) :
    (ofSource source).grammar.bareList = (ofSource source').grammar.bareList ∧
      (ofSource source).errors.map ParseError.message =
        (ofSource source').errors.map ParseError.message := by
  rw [TokenStream.map_word_toList, TokenStream.map_word_toList] at h
  have hbare := TokenStream.bare_congr (List.append_cancel_right h)
  have hv := properValues_ofSource source
  have hv' := properValues_ofSource source'
  rw [ofSource, ofSource, ← bareList_bare hv, ← bareList_bare hv', ← messages_bare hv,
    ← messages_bare hv', hbare]
  exact ⟨rfl, rfl⟩

/-- A text means the same wherever its words stand. Blanks and comments may be put in at its start
and behind each word that another one follows, if a blank comes first. -/
theorem ofSource_layout :
    (∀ source source' : String,
      (TokenStream.ofSource source).toList.map Token.word =
        (TokenStream.ofSource source').toList.map Token.word →
      (ofSource source).grammar.bareList = (ofSource source').grammar.bareList ∧
        (ofSource source).errors.map ParseError.message =
          (ofSource source').errors.map ParseError.message) ∧
    ∀ before behind filler : String, IsSeam before.toList behind.toList →
      Trivia.Layout false filler.toList →
      (∃ c ∈ filler.toList.head?, Trivia.isBlank c = true) →
      (TokenStream.ofSource (before ++ filler ++ behind)).toList.map Token.word =
          (TokenStream.ofSource (before ++ behind)).toList.map Token.word ∧
        (ofSource (before ++ filler ++ behind)).grammar.bareList =
          (ofSource (before ++ behind)).grammar.bareList ∧
        (ofSource (before ++ filler ++ behind)).errors.map ParseError.message =
          (ofSource (before ++ behind)).errors.map ParseError.message := by
  refine ⟨fun _ _ ↦ meaning_congr, fun before behind filler hs hf hb ↦ ?_⟩
  have hw : (TokenStream.ofSource (before ++ filler ++ behind)).toList.map Token.word =
      (TokenStream.ofSource (before ++ behind)).toList.map Token.word := by
    rw [TokenStream.map_word_toList, TokenStream.map_word_toList, map_word_ofSource,
      map_word_ofSource, String.toList_append, String.toList_append, String.toList_append,
      List.append_assoc, words_insert hs hf hb]
  exact ⟨hw, meaning_congr hw⟩

/-- Behind a slash, a comment needs a blank in front of it. The quote in it opens no literal. -/
theorem ofSource_layout_slash :
    (ofSource "x=a/'b'").grammar.bareList = (ofSource "x =\na /'b'//").grammar.bareList ∧
    (ofSource ("x=a/" ++ " //'\n" ++ "'b'")).errors.map ParseError.message =
      ["unknown token starting with '/'"] := by
  have hw : (TokenStream.ofSource "x=a/'b'").toList.map Token.word =
      (TokenStream.ofSource "x =\na /'b'//").toList.map Token.word := by
    decide +kernel
  have hs : IsSeam "x=a/".toList "'b'".toList :=
    .inr ⟨[⟨.node, "x", [], ['x'], []⟩, ⟨.equals, "=", [], ['='], []⟩,
      ⟨.node, "a", [], ['a'], []⟩, ⟨.error, "unknown token starting with '/'", [], ['/'], []⟩],
      ⟨.literal, "b", [], ['\'', 'b', '\''], []⟩, [], by decide +kernel, by decide⟩
  have hcomment : Trivia.Layout false ('/' :: '/' :: (['\''] ++ '\n' :: [])) :=
    .comment (by decide) .nil
  obtain ⟨hbare, -⟩ := ofSource_layout.1 _ _ hw
  obtain ⟨-, -, hmessages⟩ :=
    ofSource_layout.2 "x=a/" "'b'" " //'\n" hs (.blank rfl hcomment) ⟨' ', rfl, rfl⟩
  refine ⟨hbare, ?_⟩
  rw [hmessages]
  decide +kernel

end Parse

end CstGrammar
