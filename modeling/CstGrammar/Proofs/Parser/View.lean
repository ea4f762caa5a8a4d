import CstGrammar.Proofs.Parser.Reader
import CstGrammar.Proofs.Token.Pulling

namespace CstGrammar

theorem TokenStream.get_eq_look (s : TokenStream) (k : Nat) :
    s.get k = Parser.look s.finish (s.tokens.drop k) := by
  rw [get, Parser.look, List.headD_eq_head?_getD, List.head?_drop, List.getD_eq_getElem?_getD]

namespace Lexer

def behind (l : Lexer) : Nat → Lexer
  | 0 => l
  | n + 1 => l.pull.2.behind n

theorem behind_succ (l : Lexer) (n : Nat) : l.behind (n + 1) = (l.behind n).pull.2 := by
  induction n generalizing l with
  | zero => rfl
  | succ n ih => exact ih l.pull.2

theorem stream_behind (l : Lexer) (n : Nat) :
    (l.behind n).stream = ⟨l.stream.tokens.drop n, l.stream.finish⟩ := by
  induction n with
  | zero => rfl
  | succ n ih =>
    rw [behind_succ, stream_pull, ih, TokenStream.tail, List.tail_drop]

end Lexer

namespace Parser

namespace Reader

theorem advance_ofLexer {l : Lexer} (h : l.pull.1.isEof = false) (errors : ErrorList)
    (log : List Event) : (ofLexer l errors log).advance =
      ofLexer l.pull.2 errors (log ++ [.pulled (l.stream.get 2)]) := by
  have hthird : l.pull.2.pull.2.pull.1 = l.stream.get 2 := by
    rw [Lexer.pull_fst, Lexer.stream_pull, Lexer.stream_pull, TokenStream.get_tail,
      TokenStream.get_tail]
  rw [advance, if_neg (by simp [ofLexer, h]), ← hthird]
  rfl

/-- The parser that has come to some last tokens of a lexer. -/
def view (l : Lexer) (ts : List Token) (errors : ErrorList) (log : List Event) : Reader :=
  ofLexer (l.behind (l.stream.tokens.length - ts.length)) errors log

theorem ofLexer_eq_view (l : Lexer) (errors : ErrorList) (log : List Event) :
    ofLexer l errors log = view l l.stream.tokens errors log := by
  rw [view, Nat.sub_self]
  rfl

variable {l : Lexer} {t : Token} {ts : List Token} {errors : ErrorList} {log : List Event}

theorem stream_behind_of_suffix (hs : ts <:+ l.stream.tokens) :
    (l.behind (l.stream.tokens.length - ts.length)).stream = ⟨ts, l.stream.finish⟩ := by
  rw [Lexer.stream_behind, ← List.suffix_iff_eq_drop.mp hs]

theorem token_view (hs : ts <:+ l.stream.tokens) :
    (view l ts errors log).token = look l.stream.finish ts := by
  change (l.behind _).pull.1 = _
  rw [Lexer.pull_fst, TokenStream.get_eq_look, stream_behind_of_suffix hs]
  rfl

theorem next_view (hs : ts <:+ l.stream.tokens) :
    (view l ts errors log).next = look l.stream.finish ts.tail := by
  change (l.behind _).pull.2.pull.1 = _
  rw [Lexer.pull_fst, Lexer.stream_pull, TokenStream.get_tail, TokenStream.get_eq_look,
    stream_behind_of_suffix hs, List.drop_one]

theorem isEof_eq_false (h : t ∈ l.stream.tokens) : t.isEof = false :=
  decide_eq_false (proper_of_mem_locate h).kind_ne_eof

theorem advance_view (hs : t :: ts <:+ l.stream.tokens) :
    (view l (t :: ts) errors log).advance =
      view l ts errors (log ++ pulls l.stream.finish 1 (t :: ts)) := by
  have ht : (l.behind (l.stream.tokens.length - (t :: ts).length)).pull.1.isEof = false := by
    have htoken := @token_view l _ errors log hs
    change (l.behind _).pull.1 = _ at htoken
    rw [htoken]
    exact isEof_eq_false (hs.subset List.mem_cons_self)
  have hlength : l.stream.tokens.length - ts.length =
      (l.stream.tokens.length - (t :: ts).length) + 1 := by
    have hle := hs.length_le
    rw [List.length_cons] at hle ⊢
    omega
  rw [view, view, advance_ofLexer ht, hlength, Lexer.behind_succ, TokenStream.get_eq_look,
    stream_behind_of_suffix hs]
  rfl

theorem tell_view (e : Event) : (view l ts errors log).tell e = view l ts errors (log ++ [e]) := rfl

theorem emit_view (e : ParseError) :
    (view l ts errors log).emit e = view l ts (errors ++ [e]) (log ++ [.reported e]) := rfl

theorem report_view (hs : ts <:+ l.stream.tokens) (problem : String → Problem) :
    (view l ts errors log).report problem =
      view l ts (errors ++ [errorAt l.stream.finish problem ts])
        (log ++ [.reported (errorAt l.stream.finish problem ts)]) := by
  rw [report, token_view hs, emit_view]
  rfl

theorem startsDefinition_view (hs : ts <:+ l.stream.tokens) :
    (view l ts errors log).startsDefinition = Parser.startsDefinition ts := by
  rw [startsDefinition, token_view hs, next_view hs]
  match ts with
  | [] => rfl
  | [t] => simp [Parser.startsDefinition, Token.eof]
  | _ :: _ :: _ => rfl

theorem isEof_token_view (hs : ts <:+ l.stream.tokens) :
    (view l ts errors log).token.isEof = ts.isEmpty := by
  rw [token_view hs]
  cases ts with
  | nil => rfl
  | cons t ts => exact isEof_eq_false (hs.subset List.mem_cons_self)

theorem atBoundary_view (hs : ts <:+ l.stream.tokens) :
    (view l ts errors log).atBoundary = true ↔ Boundary ts := by
  rw [atBoundary, isEof_token_view hs, startsDefinition_view hs, Boundary, Bool.or_eq_true,
    List.isEmpty_iff]

theorem loop_skipTurn_of_boundary (hs : ts <:+ l.stream.tokens) (hb : Boundary ts)
    (skipped : Nat) : loop skipTurn (skipped, view l ts errors log) =
      some (view l ts errors
        (log ++ [.synchronized skipped (look l.stream.finish ts).location])) := by
  apply loop_of_leave
  rw [skipTurn, if_pos ((atBoundary_view hs).mpr hb), token_view hs]
  rfl

theorem loop_skipTurn_view (hs : ts <:+ l.stream.tokens) (skipped : Nat) :
    loop skipTurn (skipped, view l ts errors log) = some (view l (resume ts) errors
      (log ++ pulls l.stream.finish (distance ts) ts ++
        [.synchronized (skipped + distance ts) (look l.stream.finish (resume ts)).location])) := by
  induction ts generalizing skipped log with
  | nil =>
    rw [loop_skipTurn_of_boundary hs (.inl rfl), distance, pulls, List.append_nil]
    rfl
  | cons t ts ih =>
    by_cases hb : Parser.startsDefinition (t :: ts) = true
    · rw [loop_skipTurn_of_boundary hs (.inr hb), resume_of_starts hb, distance, if_pos hb, pulls,
        List.append_nil]
      rfl
    · have hagain : skipTurn (skipped, view l (t :: ts) errors log) =
          some (.again
            (skipped + 1, view l ts errors (log ++ pulls l.stream.finish 1 (t :: ts)))) := by
        have hstop : ¬ Boundary (t :: ts) := not_or.mpr ⟨List.cons_ne_nil t ts, hb⟩
        rw [skipTurn, if_neg (mt (atBoundary_view hs).mp hstop), advance_view hs]
      rw [loop_of_again hagain, ih ((List.suffix_cons t ts).trans hs),
        resume_cons (Bool.eq_false_iff.mpr hb), distance, if_neg hb, Nat.add_right_comm,
        List.append_assoc log]
      rfl

theorem synchronize_view (hs : ts <:+ l.stream.tokens) : (view l ts errors log).synchronize =
    some (view l (resume ts) errors (log ++ recovery l.stream.finish ts)) := by
  rw [synchronize, loop_skipTurn_view hs, Nat.zero_add, List.append_assoc]
  rfl

theorem fail_view (hs : ts <:+ l.stream.tokens) (problem : String → Problem) :
    (view l ts errors log).fail problem =
      some (view l (resume ts) (errors ++ [errorAt l.stream.finish problem ts])
        (log ++ failure l.stream.finish problem ts)) := by
  rw [fail, report_view hs, synchronize_view hs, List.append_assoc]
  rfl

end Reader

end Parser

end CstGrammar
