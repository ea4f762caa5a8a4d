import CstGrammar.Proofs.Token.Scanner

namespace CstGrammar

namespace TokenStream

/-- The token at a place of the stream. Behind the last one the end comes again and again. -/
def get (s : TokenStream) (k : Nat) : Token := s.tokens.getD k (.eof s.finish)

def tail (s : TokenStream) : TokenStream := { s with tokens := s.tokens.tail }

theorem get_tail (s : TokenStream) (k : Nat) : s.tail.get k = s.get (k + 1) := by
  simp [get, tail]

theorem get_of_le {s : TokenStream} {k : Nat} (h : s.tokens.length ≤ k) :
    s.get k = .eof s.finish := by
  simp [get, h]

end TokenStream

namespace Lexer

def stream (l : Lexer) : TokenStream :=
  ⟨TokenStream.locate l.before (lexemes l.rest), l.before.after l.rest⟩

theorem tokens_stream_of_none {l : Lexer} (h : Lexeme.first? l.rest = none) :
    l.stream.tokens = [] := by
  rw [stream, lexemes_of_none h]
  rfl

theorem stream_of_some {l : Lexer} {x : Lexeme} {rest : List Char}
    (h : Lexeme.first? l.rest = some (x, rest)) :
    l.stream = ⟨l.pull.1 :: l.pull.2.stream.tokens, l.pull.2.stream.finish⟩ := by
  rw [pull_of_some h, stream, lexemes_of_some h, ← Lexeme.after_whole_of_first? h]
  rfl

theorem pull_fst (l : Lexer) : l.pull.1 = l.stream.get 0 := by
  cases h : Lexeme.first? l.rest with
  | none => rw [TokenStream.get, tokens_stream_of_none h, pull_of_none h]; rfl
  | some r => rw [stream_of_some h]; rfl

/-- Taking a token leaves those behind it. -/
theorem stream_pull (l : Lexer) : l.pull.2.stream = l.stream.tail := by
  cases h : Lexeme.first? l.rest with
  | none =>
    have hrest : Lexeme.first? l.pull.2.rest = none := by rw [pull_of_none h]; rfl
    have hfinish : l.pull.2.stream.finish = l.stream.finish := by rw [pull_of_none h]; rfl
    rw [TokenStream.tail, tokens_stream_of_none h, ← hfinish]
    exact congrArg (TokenStream.mk · _) (tokens_stream_of_none hrest)
  | some r =>
    rw [stream_of_some h]
    rfl

theorem isEof_get_stream (l : Lexer) (k : Nat) :
    (l.stream.get k).isEof = true ↔ l.stream.tokens.length ≤ k := by
  refine ⟨fun h ↦ ?_, fun h ↦ by rw [TokenStream.get_of_le h]; rfl⟩
  rcases Nat.lt_or_ge k l.stream.tokens.length with hk | hk
  · have hget : l.stream.get k = l.stream.tokens[k] := by simp [TokenStream.get, hk]
    have hm : l.stream.get k ∈ l.stream.tokens := hget ▸ List.getElem_mem hk
    exact absurd (of_decide_eq_true h) (proper_of_mem_locate hm).kind_ne_eof
  · exact hk

theorem rest_pull_of_isEof {l : Lexer} (h : l.pull.1.isEof = true) : l.pull.2.rest = [] := by
  cases hf : Lexeme.first? l.rest with
  | none => rw [pull_of_none hf]
  | some r =>
    rw [pull_fst, isEof_get_stream, stream_of_some hf] at h
    cases h

/-- The two ways to ask for a token: one gives the end as a token, the other gives nothing there. -/
inductive Call
  | pull
  | next
  deriving DecidableEq, Repr

def Call.answer (t : Token) : Call → Option Token
  | pull => some t
  | next => if t.isEof then none else some t

def call (l : Lexer) : Call → Option Token × Lexer
  | .pull => (some l.pull.1, l.pull.2)
  | .next => l.next?

def answers (l : Lexer) : List Call → List (Option Token)
  | [] => []
  | c :: cs => (l.call c).1 :: (l.call c).2.answers cs

def scanCall (l : Lexer) : Call → Option (Option Token × Lexer)
  | .pull => l.scan.map fun r ↦ (some r.1, r.2)
  | .next =>
    if l.exhausted then some (none, l)
    else
      l.scan.map fun r ↦
        if r.1.isEof then (none, { r.2 with exhausted := true }) else (some r.1, r.2)

def scanAnswers (l : Lexer) : List Call → Option (List (Option Token))
  | [] => some []
  | c :: cs => do
    let (answer, l) ← l.scanCall c
    return answer :: (← l.scanAnswers cs)

theorem scanCall_eq (l : Lexer) (c : Call) : l.scanCall c = some (l.call c) := by
  cases c with
  | pull =>
    rw [scanCall, scan_eq_pull]
    rfl
  | next =>
    rw [scanCall, scan_eq_pull, call, next?]
    split <;> rfl

theorem scanAnswers_eq (l : Lexer) (calls : List Call) :
    l.scanAnswers calls = some (l.answers calls) := by
  induction calls generalizing l with
  | nil => rfl
  | cons c cs ih =>
    rw [scanAnswers, scanCall_eq, Option.bind_eq_bind, Option.bind_some]
    dsimp only
    rw [ih]
    rfl

def afterCalls (l : Lexer) (cs : List Call) : Lexer := cs.foldl (fun l c ↦ (l.call c).2) l

/-- Whether the end has been met where iteration takes it to be met. -/
def Settled (l : Lexer) : Prop := l.exhausted = true → l.rest = []

theorem settled_pull {l : Lexer} (h : l.Settled) : l.pull.2.Settled := by
  cases hf : Lexeme.first? l.rest with
  | none =>
    rw [pull_of_none hf]
    exact fun _ ↦ rfl
  | some r =>
    rw [pull_of_some hf]
    intro he
    rw [h he] at hf
    cases hf

/-- A call answers for the next token, and takes it. -/
theorem call_eq {l : Lexer} (h : l.Settled) (c : Call) :
    (l.call c).1 = c.answer (l.stream.get 0) ∧ (l.call c).2.stream = l.stream.tail ∧
      (l.call c).2.Settled := by
  rw [← pull_fst, ← stream_pull]
  cases c with
  | pull => exact ⟨rfl, rfl, settled_pull h⟩
  | next =>
    simp only [call, next?, Call.answer]
    split
    · next he =>
      have hnone : Lexeme.first? l.rest = none := by rw [h he]; rfl
      have hpull : l.pull.2 = l := by
        rw [pull_of_none hnone, h he]
        obtain ⟨before, rest, exhausted⟩ := l
        obtain rfl := h he
        rfl
      refine ⟨?_, by rw [hpull], h⟩
      rw [pull_of_none hnone]
      rfl
    · split
      · next ht => exact ⟨rfl, rfl, fun _ ↦ rest_pull_of_isEof ht⟩
      · exact ⟨rfl, rfl, settled_pull h⟩

theorem getElem?_answers {l : Lexer} (h : l.Settled) (calls : List Call) (k : Nat) :
    (l.answers calls)[k]? = calls[k]?.map (Call.answer (l.stream.get k)) := by
  induction calls generalizing l k with
  | nil => rfl
  | cons c cs ih =>
    obtain ⟨hanswer, hstream, hsettled⟩ := call_eq h c
    cases k with
    | zero =>
      rw [answers, hanswer]
      rfl
    | succ k =>
      rw [answers, List.getElem?_cons_succ, List.getElem?_cons_succ, ih hsettled, hstream,
        TokenStream.get_tail]

theorem settled_afterCalls {l : Lexer} (h : l.Settled) (calls : List Call) :
    (l.afterCalls calls).Settled := by
  induction calls generalizing l with
  | nil => exact h
  | cons c cs ih => exact ih (call_eq h c).2.2

theorem Call.answer_eq_none_iff {c : Call} {t : Token} :
    c.answer t = none ↔ c = .next ∧ t.isEof = true := by
  cases c with
  | pull => simp [answer]
  | next => by_cases h : t.isEof = true <;> simp [answer, h]

/-- However the two ways to ask for a token are mixed, each call takes the next token of the text.
At the end both keep to their answers, and whether iteration has been there makes no difference. -/
theorem answers_ofSource (source : String) (calls : List Call) :
    let s := TokenStream.ofSource source
    let l := ofSource source
    l.scanAnswers calls = some (l.answers calls) ∧
    (∀ k, (l.answers calls)[k]? = calls[k]?.map (Call.answer (s.get k))) ∧
    (∀ k, (s.get k).isEof = true ↔ s.tokens.length ≤ k) ∧
    (∀ j k : Nat, j ≤ k → (s.get j).isEof = true → s.get k = s.get j) ∧
    (∀ j k : Nat, j ≤ k → calls[k]? = some Call.next → (l.answers calls)[j]? = some none →
      (l.answers calls)[k]? = some none) ∧
    ∀ more, ({ l.afterCalls calls with exhausted := false } : Lexer).answers more =
      (l.afterCalls calls).answers more := by
  intro s l
  have hsettled : l.Settled := nofun
  have hanswers : ∀ k, (l.answers calls)[k]? = calls[k]?.map (Call.answer (s.get k)) :=
    getElem?_answers hsettled calls
  have heof : ∀ k, (s.get k).isEof = true ↔ s.tokens.length ≤ k := isEof_get_stream l
  have hstays : ∀ j k, j ≤ k → (s.get j).isEof = true → s.get k = s.get j := by
    intro j k hjk hj
    have hj := (heof j).mp hj
    rw [TokenStream.get_of_le hj, TokenStream.get_of_le (Nat.le_trans hj hjk)]
  refine ⟨l.scanAnswers_eq calls, hanswers, heof, hstays, fun j k hjk hk hj ↦ ?_, fun more ↦ ?_⟩
  · rw [hanswers] at hj
    obtain ⟨c, -, hc⟩ := Option.map_eq_some_iff.mp hj
    have hend : (s.get j).isEof = true := (Call.answer_eq_none_iff.mp hc).2
    rw [hanswers, hk, hstays j k hjk hend]
    exact congrArg some (Call.answer_eq_none_iff.mpr ⟨rfl, hend⟩)
  · apply List.ext_getElem?
    intro k
    have hcleared : ({ l.afterCalls calls with exhausted := false } : Lexer).Settled :=
      fun h ↦ absurd h Bool.false_ne_true
    rw [getElem?_answers hcleared, getElem?_answers (settled_afterCalls hsettled calls)]
    rfl

end Lexer

end CstGrammar
