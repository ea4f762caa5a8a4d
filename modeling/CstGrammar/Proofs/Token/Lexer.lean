import CstGrammar.Proofs.Token.Lexeme
import CstGrammar.Token.Lexer

namespace CstGrammar

namespace Literal.Body

/-- The token of a literal opened at `opening`, if reading stands at `loc` in front of the body and
has found some characters already. -/
def token (body : Body) (opening loc : Location) (found : List Char) : Token :=
  if body.hasInvalid then
    ⟨.error, "invalid escape in token literal",
      (loc.after (body.validRun.flatMap Piece.text)).next⟩
  else if body.ending = .closed then
    ⟨.literal, String.ofList (found ++ body.pieces.map Piece.char), opening⟩
  else ⟨.error, "unterminated token literal", opening⟩

def skip (loc : Location) : List Char → Location × List Char
  | [] => (loc, [])
  | '\'' :: rest => (loc.step '\'', rest)
  | ['\\'] => (loc.step '\\', [])
  | '\\' :: c :: rest => skip ((loc.step '\\').step c) rest
  | c :: rest => skip (loc.step c) rest

/-- Scans a literal character by character, and does not look for a value in it any more once there
is an invalid escape. -/
def scan (opening loc : Location) (found : List Char) : List Char → Token × Location × List Char
  | [] => (⟨.error, "unterminated token literal", opening⟩, loc, [])
  | '\'' :: rest => (⟨.literal, String.ofList found, opening⟩, loc.step '\'', rest)
  | ['\\'] => (⟨.error, "unterminated token literal", opening⟩, loc.step '\\', [])
  | '\\' :: c :: rest =>
    if c = '\'' ∨ c = '\\' then scan opening ((loc.step '\\').step c) (found ++ [c]) rest
    else
      (⟨.error, "invalid escape in token literal", loc.next⟩, skip (loc.step '\\') (c :: rest))
  | c :: rest => scan opening (loc.step c) (found ++ [c]) rest

theorem skip_eq (loc : Location) (cs : List Char) :
    skip loc cs = (loc.after (read cs).1.text, (read cs).2) := by
  fun_induction skip loc cs with
  | case1 | case2 | case3 => rfl
  | case4 loc c cs ih =>
    rw [ih, read]
    rfl
  | case5 loc c cs hq hs he ih =>
    rw [ih, read_plain (plain_of_unmatched hq hs he)]
    rfl

theorem token_cons {piece : Piece} (hv : piece.isValid = true) (pieces : List Piece)
    (ending : Ending) (opening loc : Location) (found : List Char) :
    token ⟨piece :: pieces, ending⟩ opening loc found =
      token ⟨pieces, ending⟩ opening (loc.after piece.text) (found ++ [piece.char]) := by
  have hi : hasInvalid ⟨piece :: pieces, ending⟩ = hasInvalid ⟨pieces, ending⟩ := by
    simp [hasInvalid, hv]
  have hrun : validRun ⟨piece :: pieces, ending⟩ = piece :: validRun ⟨pieces, ending⟩ := by
    rw [validRun, List.takeWhile_cons, if_pos hv]
    rfl
  rw [token, token, hi, hrun, List.flatMap_cons, Location.after_append, List.map_cons,
    List.append_assoc, List.singleton_append]

theorem scan_eq (opening loc : Location) (found cs : List Char) : scan opening loc found cs =
    ((read cs).1.token opening loc found, loc.after (read cs).1.text, (read cs).2) := by
  fun_induction scan opening loc found cs with
  | case1 | case2 | case3 => simp [read, token, hasInvalid, text, Ending.text]
  | case4 loc found c cs hc ih =>
    rw [ih, read, token_cons (by simpa [Piece.isValid] using hc)]
    rfl
  | case5 loc found c cs hc =>
    have hi : (Piece.escape c).isValid = false := by simpa [Piece.isValid] using hc
    have htoken : ∀ pieces ending, token ⟨.escape c :: pieces, ending⟩ opening loc found =
        ⟨.error, "invalid escape in token literal", loc.next⟩ := by
      intro pieces ending
      simp [token, hasInvalid, validRun, hi]
    rw [skip_eq, read_plain (not_or.mp hc), read, htoken]
    rfl
  | case6 loc found c cs hq hs he ih =>
    rw [ih, read_plain (plain_of_unmatched hq hs he), token_cons rfl]
    rfl

end Literal.Body

open Lexeme Literal

namespace Lexer

theorem pull_of_none {l : Lexer} (h : first? l.rest = none) :
    l.pull = (.eof (l.before.after l.rest),
      { l with before := l.before.after l.rest, rest := [] }) := by
  rw [pull, h]

theorem pull_of_some {l : Lexer} {x : Lexeme} {rest : List Char}
    (h : first? l.rest = some (x, rest)) :
    l.pull = (x.token l.before, { l with before := l.before.after x.whole, rest }) := by
  rw [pull, h]

def pulled (l : Lexer) : Nat → List Token
  | 0 => []
  | n + 1 => l.pull.1 :: l.pull.2.pulled n

/-- The end is met again and again. -/
theorem pulled_of_none {l : Lexer} (h : first? l.rest = none) (n : Nat) :
    l.pulled n = List.replicate n (.eof (l.before.after l.rest)) := by
  induction n generalizing l with
  | zero => rfl
  | succ n ih =>
    rw [pulled, pull_of_none h, List.replicate_succ]
    exact congrArg (_ :: ·) (ih rfl)

theorem pulled_of_some {l : Lexer} {x : Lexeme} {rest : List Char}
    (h : first? l.rest = some (x, rest)) (n : Nat) : l.pulled (n + 1) =
      x.token l.before :: ({ l with before := l.before.after x.whole, rest } : Lexer).pulled n := by
  rw [pulled, pull_of_some h]

theorem pulled_add (l : Lexer) (k : Nat) : l.pulled ((lexemes l.rest).length + k) =
    TokenStream.locate l.before (lexemes l.rest) ++
      List.replicate k (.eof (l.before.after l.rest)) := by
  cases hf : first? l.rest with
  | none =>
    rw [lexemes_of_none hf, List.length_nil, Nat.zero_add]
    exact pulled_of_none hf k
  | some r =>
    obtain ⟨x, rest⟩ := r
    have hlt := Lexeme.length_lt_of_first? hf
    have hrest := pulled_add { l with before := l.before.after x.whole, rest } k
    rw [lexemes_of_some hf, List.length_cons, Nat.add_right_comm, pulled_of_some hf, hrest,
      ← Lexeme.after_whole_of_first? hf]
    rfl
termination_by l.rest.length

/-- Taking tokens one by one gives those of the text, and then the end as often as one asks. -/
theorem pulled_ofSource (source : String) (k : Nat) :
    (ofSource source).pulled ((TokenStream.ofSource source).tokens.length + k) =
      (TokenStream.ofSource source).tokens ++
        List.replicate k (.eof (TokenStream.ofSource source).finish) := by
  have hlength : ∀ (before : Location) (xs : List Lexeme),
      (TokenStream.locate before xs).length = xs.length := by
    intro before xs
    have h := congrArg List.length (map_word_locate before xs)
    rwa [List.length_map, List.length_map] at h
  have h := pulled_add (ofSource source) k
  rw [← hlength .start] at h
  exact h

theorem first?_quoted (us : List Char) : first? ('\'' :: us) =
    some (ofLiteral [] (Body.read us).1, (Body.read us).2) := by
  rw [first?_of_visible (by decide) (by decide), readAt, if_neg (by decide), if_pos rfl]

/-- A literal is taken character by character, and its rest is skipped after an invalid escape. -/
theorem pull_eq_scan (loc : Location) (us : List Char) (exhausted : Bool) :
    pull ⟨loc, '\'' :: us, exhausted⟩ =
      let r := Body.scan loc.next (loc.step '\'') [] us
      (r.1, ⟨r.2.1, r.2.2, exhausted⟩) := by
  have htoken : ∀ body : Body, (ofLiteral [] body).token loc =
      body.token loc.next (loc.step '\'') [] := by
    intro body
    rw [ofLiteral, Body.token]
    split
    · rfl
    · split <;> rfl
  have hgap : (ofLiteral [] (Body.read us).1).gap = [] := gap_readAt [] '\'' us
  rw [Body.scan_eq, pull, first?_quoted]
  dsimp only
  rw [htoken, whole, hgap, text_ofLiteral, List.nil_append, Location.after_cons]

end Lexer

end CstGrammar
