import CstGrammar.Proofs.Token.Lexer

namespace CstGrammar

inductive Turn (State Result : Type)
  | again (s : State)
  | leave (r : Result)

/-- Takes the turns that are left until one leaves. Nothing comes of it if none does. -/
def Turn.finish {State Result : Type} (turn : State → Option (Turn State Result)) :
    Turn State Result → Option Result
  | .again s => do
    let next ← turn s
    next |>.finish turn
  | .leave r => some r
partial_fixpoint

def loop {State Result : Type} (turn : State → Option (Turn State Result)) (s : State) :
    Option Result :=
  (Turn.again s).finish turn

section Loop

variable {State Result : Type} {turn : State → Option (Turn State Result)} {s s' : State}

theorem loop_of_again (h : turn s = some (.again s')) : loop turn s = loop turn s' := by
  rw [loop, Turn.finish, h]
  rfl

theorem loop_of_leave {r : Result} (h : turn s = some (.leave r)) : loop turn s = some r := by
  rw [loop, Turn.finish, h, Option.bind_eq_bind, Option.bind_some, Turn.finish]

end Loop

namespace Lexer

def current? (l : Lexer) : Option Char := l.rest.head?

def peek? (l : Lexer) : Option Char := l.rest.tail.head?

/-- The position of the current character. At the end this is where reading stands. -/
def location (l : Lexer) : Location :=
  if l.current?.isSome then l.before.next else l.before

def advance (l : Lexer) : Lexer :=
  match l.rest with
  | [] => l
  | c :: rest => { l with before := l.before.step c, rest }

def commentTurn (l : Lexer) : Option (Turn Lexer Lexer) :=
  match l.current? with
  | none | some '\n' => some (.leave l)
  | some _ => some (.again l.advance)

def gapTurn (l : Lexer) : Option (Turn Lexer Lexer) :=
  match l.current? with
  | none => some (.leave l)
  | some c =>
    if Trivia.isBlank c then some (.again l.advance)
    else if c = '/' ∧ l.peek? = some '/' then (loop commentTurn l).map .again
    else some (.leave l)

def nameTurn (l : Lexer) : Option (Turn Lexer Lexer) :=
  match l.current? with
  | none => some (.leave l)
  | some c => some (if isNameChar c then .again l.advance else .leave l)

def remainsTurn (l : Lexer) : Option (Turn Lexer Lexer) :=
  match l.current? with
  | none => some (.leave l)
  | some '\'' => some (.leave l.advance)
  | some '\\' => some (.again (if l.advance.current?.isSome then l.advance.advance else l.advance))
  | some _ => some (.again l.advance)

/-- A turn over a literal opened at `opening`, in which some characters have been found. -/
def literalTurn (opening : Location) :
    List Char × Lexer → Option (Turn (List Char × Lexer) (Token × Lexer))
  | (found, l) =>
    match l.current? with
    | none => some (.leave (⟨.error, "unterminated token literal", opening⟩, l))
    | some '\'' => some (.leave (⟨.literal, String.ofList found, opening⟩, l.advance))
    | some '\\' =>
      match l.advance.current? with
      | none => some (.leave (⟨.error, "unterminated token literal", opening⟩, l.advance))
      | some c =>
        if c = '\'' ∨ c = '\\' then some (.again (found ++ [c], l.advance.advance))
        else (loop remainsTurn l.advance).map fun l' ↦
          .leave (⟨.error, "invalid escape in token literal", l.location⟩, l')
    | some c => some (.again (found ++ [c], l.advance))

def scanHere (l : Lexer) : Option (Token × Lexer) :=
  match l.current? with
  | none => some (.eof l.location, l)
  | some c =>
    if isNameChar c then do
      let l' ← loop nameTurn l
      let name := l.rest.take (l.rest.length - l'.rest.length)
      some (⟨.node, String.ofList name, l.location⟩, l')
    else if c = '\'' then loop (literalTurn l.location) ([], l.advance)
    else match Token.Kind.ofPunctuation? c with
      | some kind => some (⟨kind, String.singleton c, l.location⟩, l.advance)
      | none => some (⟨.error, (LexicalError.unknownCharacter c).message, l.location⟩, l.advance)

def scan (l : Lexer) : Option (Token × Lexer) := (loop gapTurn l).bind scanHere

/-- Whether `l'` comes of `l` by reading some characters. -/
def Advances (l l' : Lexer) : Prop := ∃ taken rest, taken ≠ [] ∧ l.rest = taken ++ rest ∧
  l' = { l with before := l.before.after taken, rest }

theorem Advances.trans {l l' l'' : Lexer} (h : l.Advances l') (h' : l'.Advances l'') :
    l.Advances l'' := by
  obtain ⟨cs, rest, hne, hrest, rfl⟩ := h
  obtain ⟨ds, rest', -, rfl, rfl⟩ := h'
  refine ⟨cs ++ ds, rest', by simp [hne], by rw [hrest, List.append_assoc], ?_⟩
  rw [Location.after_append]

theorem advances_advance {l : Lexer} {c : Char} (h : l.current? = some c) :
    l.Advances l.advance := by
  obtain ⟨before, rest, exhausted⟩ := l
  obtain ⟨cs, rfl⟩ := List.head?_eq_some_iff.mp h
  exact ⟨[c], cs, List.cons_ne_nil _ _, rfl, rfl⟩

theorem loop_commentTurn (l : Lexer) : loop commentTurn l = some { l with
    before := l.before.after (l.rest.takeWhile (· != '\n'))
    rest := l.rest.dropWhile (· != '\n') } := by
  obtain ⟨before, rest, exhausted⟩ := l
  induction rest generalizing before with
  | nil => exact loop_of_leave rfl
  | cons c rest ih =>
    by_cases hc : c = '\n'
    · subst hc
      exact loop_of_leave rfl
    · have hturn : commentTurn ⟨before, c :: rest, exhausted⟩ =
          some (.again ⟨before.step c, rest, exhausted⟩) := by
        simp [commentTurn, current?, advance]
      rw [loop_of_again hturn, ih]
      simp [hc]

theorem advances_commentTurn {l l' : Lexer} (h : commentTurn l = some (.again l')) :
    l.Advances l' := by
  unfold commentTurn at h
  split at h
  · cases h
  · cases h
  · next hc =>
    cases h
    exact advances_advance hc

theorem loop_nameTurn (l : Lexer) : loop nameTurn l = some { l with
    before := l.before.after (l.rest.takeWhile isNameChar)
    rest := l.rest.dropWhile isNameChar } := by
  obtain ⟨before, rest, exhausted⟩ := l
  induction rest generalizing before with
  | nil => exact loop_of_leave rfl
  | cons c rest ih =>
    by_cases hc : isNameChar c = true
    · have hturn : nameTurn ⟨before, c :: rest, exhausted⟩ =
          some (.again ⟨before.step c, rest, exhausted⟩) := by
        simp [nameTurn, current?, hc, advance]
      rw [loop_of_again hturn, ih]
      simp [hc]
    · have hturn : nameTurn ⟨before, c :: rest, exhausted⟩ =
          some (.leave ⟨before, c :: rest, exhausted⟩) := by
        simp [nameTurn, current?, hc]
      rw [loop_of_leave hturn]
      simp [hc]

/-- Behind a comment, the gap goes on at the end of the line. -/
theorem split_comment_eq (cs : List Char) : Trivia.split true cs =
    (cs.takeWhile (· != '\n') ++ (Trivia.split false (cs.dropWhile (· != '\n'))).1,
      (Trivia.split false (cs.dropWhile (· != '\n'))).2) := by
  have htext : '\n' ∉ cs.takeWhile (· != '\n') := by
    intro h
    simpa using List.all_eq_true.mp List.all_takeWhile _ h
  have hsplit := Trivia.split_comment htext (cs.dropWhile (· != '\n'))
  rw [List.takeWhile_append_dropWhile] at hsplit
  rw [hsplit]
  have hrest : Trivia.split true (cs.dropWhile (· != '\n')) =
      Trivia.split false (cs.dropWhile (· != '\n')) := by
    cases hd : cs.dropWhile (· != '\n') with
    | nil => rfl
    | cons c ds =>
      have hc := List.head?_dropWhile_not (· != '\n') cs
      rw [hd] at hc
      obtain rfl : c = '\n' := by simpa using hc
      rw [Trivia.split_blank (by decide), Trivia.split, if_pos rfl]
      rfl
  rw [hrest]

theorem loop_gapTurn (l : Lexer) : loop gapTurn l = some { l with
    before := l.before.after (Trivia.split false l.rest).1
    rest := (Trivia.split false l.rest).2 } := by
  obtain ⟨before, rest, exhausted⟩ := l
  match rest with
  | [] => exact loop_of_leave rfl
  | c :: rest =>
    by_cases hb : Trivia.isBlank c = true
    · have hturn : gapTurn ⟨before, c :: rest, exhausted⟩ =
          some (.again ⟨before.step c, rest, exhausted⟩) := by
        simp [gapTurn, current?, hb, advance]
      rw [loop_of_again hturn, loop_gapTurn, Trivia.split_blank hb]
      rfl
    · by_cases hs : c = '/' ∧ rest.head? = some '/'
      · obtain ⟨rfl, hh⟩ := hs
        obtain ⟨us, hus⟩ := List.head?_eq_some_iff.mp hh
        have hlt : (us.dropWhile (· != '\n')).length < rest.length + 1 := by
          have hle := (List.dropWhile_suffix (· != '\n') (l := us)).length_le
          rw [hus, List.length_cons]
          omega
        have hturn : gapTurn ⟨before, '/' :: '/' :: us, exhausted⟩ =
            some (.again ⟨before.after ('/' :: '/' :: us.takeWhile (· != '\n')),
              us.dropWhile (· != '\n'), exhausted⟩) := by
          rw [gapTurn, loop_commentTurn]
          rfl
        rw [hus, loop_of_again hturn, loop_gapTurn, Trivia.split_slashes, split_comment_eq,
          ← Location.after_append]
        rfl
      · have hturn : gapTurn ⟨before, c :: rest, exhausted⟩ =
            some (.leave ⟨before, c :: rest, exhausted⟩) := by
          simp [gapTurn, current?, peek?, hb, hs]
        have hv : Trivia.Visible (c :: rest) := Trivia.visible_cons_iff.mpr ⟨by simpa using hb, hs⟩
        rw [loop_of_leave hturn, hv]
        rfl
termination_by l.rest.length

theorem loop_remainsTurn (l : Lexer) : loop remainsTurn l = some { l with
    before := (Literal.Body.skip l.before l.rest).1
    rest := (Literal.Body.skip l.before l.rest).2 } := by
  obtain ⟨before, rest, exhausted⟩ := l
  dsimp only
  fun_induction Literal.Body.skip before rest with
  | case1 | case2 => exact loop_of_leave rfl
  | case3 before => exact (loop_of_again rfl).trans (loop_of_leave rfl)
  | case4 before c rest ih => exact (loop_of_again rfl).trans ih
  | case5 before c rest hq hs he ih =>
    have hc := Literal.Body.plain_of_unmatched hq hs he
    have hturn : remainsTurn ⟨before, c :: rest, exhausted⟩ =
        some (.again ⟨before.step c, rest, exhausted⟩) := by
      simp [remainsTurn, current?, hc, advance]
    rw [loop_of_again hturn, ih]

theorem loop_literalTurn (opening : Location) (found : List Char) (l : Lexer) :
    loop (literalTurn opening) (found, l) =
      let r := Literal.Body.scan opening l.before found l.rest
      some (r.1, { l with before := r.2.1, rest := r.2.2 }) := by
  obtain ⟨before, rest, exhausted⟩ := l
  dsimp only
  fun_induction Literal.Body.scan opening before found rest with
  | case1 | case2 | case3 => exact loop_of_leave rfl
  | case4 before found c rest hc ih =>
    have hturn : literalTurn opening (found, ⟨before, '\\' :: c :: rest, exhausted⟩) =
        some (.again (found ++ [c], ⟨(before.step '\\').step c, rest, exhausted⟩)) := by
      simp [literalTurn, current?, advance, hc]
    rw [loop_of_again hturn, ih]
  | case5 before found c rest hc =>
    apply loop_of_leave
    simp [literalTurn, current?, advance, hc, loop_remainsTurn, location]
  | case6 before found c rest hq hs he ih =>
    have hc := Literal.Body.plain_of_unmatched hq hs he
    have hturn : literalTurn opening (found, ⟨before, c :: rest, exhausted⟩) =
        some (.again (found ++ [c], ⟨before.step c, rest, exhausted⟩)) := by
      simp [literalTurn, current?, hc, advance]
    rw [loop_of_again hturn, ih]

theorem take_eq_takeWhile (p : Char → Bool) (cs : List Char) :
    cs.take (cs.length - (cs.dropWhile p).length) = cs.takeWhile p := by
  have happ := congrArg List.length (List.takeWhile_append_dropWhile (p := p) (l := cs))
  rw [List.length_append] at happ
  have hlength : cs.length - (cs.dropWhile p).length = (cs.takeWhile p).length := by omega
  rw [hlength]
  exact (List.prefix_iff_eq_take.mp (List.takeWhile_prefix p)).symm

theorem scanHere_cons (before : Location) (c : Char) (us : List Char) (exhausted : Bool) :
    scanHere ⟨before, c :: us, exhausted⟩ = some ((Lexeme.readAt [] c us).1.token before,
      ⟨before.after (Lexeme.readAt [] c us).1.text, (Lexeme.readAt [] c us).2, exhausted⟩) := by
  by_cases hn : isNameChar c = true
  · have htake := take_eq_takeWhile isNameChar (c :: us)
    rw [List.takeWhile_cons_of_pos hn, List.dropWhile_cons_of_pos hn] at htake
    rw [Lexeme.readAt, if_pos hn, scanHere]
    simp only [current?, List.head?_cons, hn, if_true, loop_nameTurn, Option.bind_eq_bind,
      Option.bind_some, List.takeWhile_cons_of_pos, List.dropWhile_cons_of_pos, htake]
    rfl
  · by_cases hq : c = '\''
    · subst hq
      have hgap : (Lexeme.ofLiteral [] (Literal.Body.read us).1).gap = [] :=
        Lexeme.gap_readAt [] '\'' us
      calc scanHere ⟨before, '\'' :: us, exhausted⟩
        _ = loop (literalTurn before.next) ([], ⟨before.step '\'', us, exhausted⟩) := rfl
        _ = some (pull ⟨before, '\'' :: us, exhausted⟩) := by
          rw [loop_literalTurn, pull_eq_scan]
        _ = _ := by
          rw [pull_of_some (first?_quoted us), Lexeme.whole, hgap, Lexeme.readAt, if_neg hn,
            if_pos rfl]
          rfl
    · rw [Lexeme.readAt, if_neg hn, if_neg hq]
      cases hp : Token.Kind.ofPunctuation? c <;>
        simp [scanHere, current?, hn, hq, hp, advance, location, Lexeme.ofError,
          Lexeme.ofPunctuation, Lexeme.token]

/-- Taking a token character by character is taking a token. -/
theorem scan_eq_pull (l : Lexer) : l.scan = some l.pull := by
  rw [scan, loop_gapTurn, Option.bind_some]
  match hs : Trivia.split false l.rest with
  | (gap, []) =>
    have hnone : Lexeme.first? l.rest = none := by rw [Lexeme.first?, hs]
    have hrest := Trivia.split_append false l.rest
    rw [hs, List.append_nil] at hrest
    rw [pull_of_none hnone, ← hrest]
    rfl
  | (gap, c :: us) =>
    have hgap : (Lexeme.readAt [] c us).1.gap = [] := Lexeme.gap_readAt [] c us
    have hsome : Lexeme.first? l.rest =
        some ({ (Lexeme.readAt [] c us).1 with gap }, (Lexeme.readAt [] c us).2) := by
      rw [Lexeme.first?, hs]
      exact congrArg some (Lexeme.readAt_gap gap c us)
    rw [pull_of_some hsome, scanHere_cons]
    simp only [Lexeme.token, Lexeme.whole, Location.after_append, hgap, List.nil_append]

def scanned (l : Lexer) : Nat → Option (List Token)
  | 0 => some []
  | n + 1 => do
    let (t, l) ← l.scan
    return t :: (← l.scanned n)

theorem scanned_eq (l : Lexer) (n : Nat) : l.scanned n = some (l.pulled n) := by
  induction n generalizing l with
  | zero => rfl
  | succ n ih =>
    rw [scanned, scan_eq_pull, Option.bind_eq_bind, Option.bind_some]
    dsimp only
    rw [ih]
    rfl

theorem advances_gapTurn {l l' : Lexer} (h : gapTurn l = some (.again l')) : l.Advances l' := by
  unfold gapTurn at h
  split at h
  · cases h
  · next c hc =>
    split at h
    · cases h
      exact advances_advance hc
    · split at h
      · next hs =>
        have hne : l.rest.takeWhile (· != '\n') ≠ [] := by
          obtain ⟨cs, hrest⟩ := List.head?_eq_some_iff.mp hc
          rw [hrest, hs.1, List.takeWhile_cons_of_pos (by decide)]
          exact List.cons_ne_nil _ _
        rw [loop_commentTurn] at h
        cases h
        exact ⟨_, _, hne, List.takeWhile_append_dropWhile.symm, rfl⟩
      · cases h

theorem advances_nameTurn {l l' : Lexer} (h : nameTurn l = some (.again l')) : l.Advances l' := by
  unfold nameTurn at h
  split at h
  · cases h
  · next c hc =>
    split at h
    · cases h
      exact advances_advance hc
    · cases h

theorem advances_remainsTurn {l l' : Lexer} (h : remainsTurn l = some (.again l')) :
    l.Advances l' := by
  unfold remainsTurn at h
  split at h
  · cases h
  · cases h
  · next hc =>
    cases h
    have hslash := advances_advance hc
    split
    · next hs =>
      obtain ⟨c, hc'⟩ := Option.isSome_iff_exists.mp hs
      exact hslash.trans (advances_advance hc')
    · exact hslash
  · next hc =>
    cases h
    exact advances_advance hc

theorem advances_literalTurn {opening : Location} {found found' : List Char} {l l' : Lexer}
    (h : literalTurn opening (found, l) = some (.again (found', l'))) : l.Advances l' := by
  rw [literalTurn] at h
  split at h
  · cases h
  · cases h
  · next hc =>
    split at h
    · cases h
    · next c hc' =>
      split at h
      · cases h
        exact (advances_advance hc).trans (advances_advance hc')
      · rw [loop_remainsTurn] at h
        cases h
  · next hc =>
    cases h
    exact advances_advance hc

/-- Whether a loop ends from every state, as each turn that goes on reads something. -/
def Progresses {State Result : Type} (lexer : State → Lexer)
    (turn : State → Option (Turn State Result)) : Prop :=
  ∀ s, (∃ r, loop turn s = some r) ∧
    ∀ s', turn s = some (.again s') → (lexer s).Advances (lexer s')

theorem advances_pull (l : Lexer) : l.pull.1.isEof = true ∨ l.Advances l.pull.2 := by
  cases h : Lexeme.first? l.rest with
  | none =>
    rw [pull_of_none h]
    exact .inl rfl
  | some r =>
    obtain ⟨x, rest⟩ := r
    have happ := Lexeme.whole_append_of_first? h
    have hlt := Lexeme.length_lt_of_first? h
    rw [pull_of_some h]
    refine .inr ⟨x.whole, rest, ?_, happ.symm, rfl⟩
    intro hnil
    rw [← happ, hnil, List.nil_append] at hlt
    exact absurd hlt (Nat.lt_irrefl _)

end Lexer

end CstGrammar
