import CstGrammar.Proofs.Parser.Errors
import CstGrammar.Proofs.Parser.Simulation
import CstGrammar.Proofs.Token.Lexer

namespace CstGrammar

def Event.token? : Event → Option Token
  | pulled t => some t
  | _ => none

namespace Parser

/-- What the log can tell while the tokens in front of `rest` are taken. Tokens come into view one
at a time; where an error is found or a token belongs to no rule, those up to the next boundary are
skipped, and their number and the boundary are told. -/
inductive Tells (finish : Location) : List Token → List Event → (rest : List Token) → Prop
  | done {ts} : Tells finish ts [] ts
  | pulled {t ts rest log} : Tells finish ts log rest →
      Tells finish (t :: ts) (.pulled (look finish (ts.drop 1)) :: log) rest
  | groupFailed {ts rest log} : Tells finish ts log rest →
      Tells finish ts (.groupFailed :: log) rest
  | duplicate {ts rest log e} : e.isDuplicate = true → Tells finish ts log rest →
      Tells finish ts (.reported e :: log) rest
  | failure {ts rest log e} : e.isDuplicate = false → Tells finish (resume ts) log rest →
      Tells finish ts (.reported e :: (recovery finish ts ++ log)) rest
  | skipped {ts rest log} : distance ts ≠ 0 → Tells finish (resume ts) log rest →
      Tells finish ts (recovery finish ts ++ log) rest

variable {finish : Location} {ts mid rest : List Token} {log log' : List Event}

theorem Tells.trans (h : Tells finish ts log mid) (h' : Tells finish mid log' rest) :
    Tells finish ts (log ++ log') rest := by
  induction h with
  | done => exact h'
  | pulled _ ih => exact .pulled (ih h')
  | groupFailed _ ih => exact .groupFailed (ih h')
  | duplicate he _ ih => exact .duplicate he (ih h')
  | failure he _ ih =>
    rw [List.cons_append, List.append_assoc]
    exact .failure he (ih h')
  | skipped hd _ ih =>
    rw [List.append_assoc]
    exact .skipped hd (ih h')

theorem tells_failure (problem : String → Problem) (ts : List Token)
    (hp : ∀ loc found, ParseError.isDuplicate ⟨loc, problem found⟩ = false) :
    Tells finish ts (failure finish problem ts) (resume ts) := by
  rw [failure, ← List.append_nil (recovery finish ts)]
  exact .failure (hp _ _) .done

/-- The log of a phrase tells of the tokens that the phrase takes. -/
theorem Run.tells {p : Phrase} {v : p.Value} (h : Run finish p ts v rest log) :
    Tells finish ts log rest := by
  induction h with
  | alternatives_stop | elements_stop => exact .done
  | alt_none _ ih | seq_none _ ih | elements_none _ ih | single_none _ ih
  | single_plain _ _ _ ih => exact ih
  | alt_some _ _ ih ih' | seq_some _ _ ih ih' | elements_cons _ _ ih ih' => exact ih.trans ih'
  | alternatives_cons _ _ _ ih ih' =>
    rw [List.append_assoc]
    exact .pulled (ih.trans ih')
  | seq_missing => exact tells_failure .expectedRule _ fun _ _ ↦ rfl
  | single_opt _ _ ih | single_rep _ _ ih => exact ih.trans (.pulled .done)
  | atom_node | atom_literal => exact .pulled .done
  | @atom_error t ts ht =>
    have hs : startsDefinition (t :: ts) = false := startsDefinition_eq_false ts (by simp [ht])
    rw [← resume_cons hs]
    exact tells_failure .stated _ fun _ _ ↦ rfl
  | labeled_missing =>
    exact .pulled (.pulled (tells_failure .expectedRuleAfterLabel _ fun _ _ ↦ rfl))
  | labeled_some _ _ _ ih => exact .pulled (.pulled ih)
  | group_none _ _ ih => exact .pulled ih
  | group_reported _ _ _ ih =>
    rw [List.append_assoc]
    exact .pulled (ih.trans (.groupFailed .done))
  | group_closed _ _ _ _ ih =>
    rw [List.append_assoc]
    exact .pulled (ih.trans (.pulled .done))
  | group_unclosed _ _ _ _ ih =>
    rw [List.append_assoc]
    exact .pulled (ih.trans (tells_failure .expectedClosing _ fun _ _ ↦ rfl))

/-- The log of a text tells of all its tokens. -/
theorem tells_assemble (g : Grammar) (ts : List Token) :
    Tells finish ts (assemble g (passages finish ts)).log [] := by
  induction ts using text_induction finish generalizing g with
  | nil =>
    rw [passages]
    exact .done
  | @definition name equals ts rest v log hn he h ih =>
    have htaken : Tells finish (name :: equals :: ts)
        (pulls finish 2 (name :: equals :: ts) ++ log) rest := .pulled (.pulled h.tells)
    rw [passages_of_run hn he h]
    cases v with
    | none => exact htaken.trans (ih g)
    | some rule =>
      have hrest := ih (g.insert name.value name.location rule)
      rw [assemble]
      split
      · exact htaken.trans (.duplicate rfl hrest)
      · exact htaken.trans hrest
  | @skipped t ts hs ih =>
    have hd : distance (t :: ts) ≠ 0 := by simp [distance, hs]
    rw [passages_of_not_starts hs]
    exact .skipped hd (resume_cons hs ▸ ih g)

def upcoming (finish : Location) (ts : List Token) : List Token :=
  (ts ++ [Token.eof finish, Token.eof finish]).drop 2

theorem upcoming_cons (t : Token) (ts : List Token) :
    upcoming finish (t :: ts) = look finish (ts.drop 1) :: upcoming finish ts := by
  match ts with
  | [] | [_] | _ :: _ :: _ => rfl

theorem distance_le (ts : List Token) : distance ts ≤ ts.length := by
  induction ts with
  | nil => exact Nat.le_refl 0
  | cons t ts ih =>
    rw [distance]
    split
    · exact Nat.zero_le _
    · exact Nat.succ_le_succ ih

theorem exists_pulls {n : Nat} {ts : List Token} (h : n ≤ ts.length) :
    ∃ us, pulls finish n ts = us.map .pulled ∧ us.length = n ∧
      us ++ upcoming finish (ts.drop n) = upcoming finish ts := by
  induction n generalizing ts with
  | zero => exact ⟨[], rfl, rfl, rfl⟩
  | succ n ih =>
    cases ts with
    | nil => cases h
    | cons t ts =>
      obtain ⟨us, hp, hl, hu⟩ := ih (Nat.le_of_succ_le_succ h)
      refine ⟨look finish (ts.drop 1) :: us, ?_, congrArg Nat.succ hl, ?_⟩
      · exact congrArg (_ :: ·) hp
      · rw [List.drop_succ_cons, List.cons_append, hu, upcoming_cons]

theorem exists_recovery (finish : Location) (ts : List Token) :
    ∃ us, recovery finish ts =
        us.map .pulled ++ [.synchronized us.length (look finish (resume ts)).location] ∧
      us.length = distance ts ∧ us ++ upcoming finish (resume ts) = upcoming finish ts := by
  obtain ⟨us, hp, hl, hu⟩ := @exists_pulls finish _ ts (distance_le ts)
  exact ⟨us, by rw [recovery, hp, hl], hl, hu⟩

@[simp] theorem filterMap_token?_map_pulled (us : List Token) :
    (us.map Event.pulled).filterMap Event.token? = us := by
  rw [List.filterMap_map]
  exact List.filterMap_some

theorem filterMap_token?_recovery (ts : List Token) :
    (recovery finish ts).filterMap Event.token? ++ upcoming finish (resume ts) =
      upcoming finish ts := by
  obtain ⟨us, hr, -, hu⟩ := exists_recovery finish ts
  have hs : ∀ n loc, [Event.synchronized n loc].filterMap Event.token? = [] := fun _ _ ↦ rfl
  rw [hr, List.filterMap_append, filterMap_token?_map_pulled, hs, List.append_nil, hu]

theorem Tells.tokens (h : Tells finish ts log rest) :
    log.filterMap Event.token? ++ upcoming finish rest = upcoming finish ts := by
  induction h with
  | done => rfl
  | pulled _ ih =>
    rw [upcoming_cons, ← ih]
    rfl
  | groupFailed _ ih | duplicate _ _ ih => exact ih
  | @failure ts _ _ _ _ _ ih =>
    rw [← filterMap_token?_recovery ts, ← ih, ← List.append_assoc, ← List.filterMap_append]
    rfl
  | @skipped ts _ _ _ _ ih =>
    rw [← filterMap_token?_recovery ts, ← ih, ← List.append_assoc, ← List.filterMap_append]

theorem exists_of_append_eq {α : Type} {xs ys pre post : List α} {a : α}
    (h : xs ++ ys = pre ++ a :: post) (ha : a ∉ xs) :
    ∃ mid, pre = xs ++ mid ∧ ys = mid ++ a :: post := by
  rcases List.append_eq_append_iff.mp h with ⟨mid, hpre, hys⟩ | ⟨mid, hxs, hpost⟩
  · exact ⟨mid, hpre, hys⟩
  · cases mid with
    | nil => exact ⟨[], by rw [hxs, List.append_nil, List.append_nil], hpost.symm⟩
    | cons b mid =>
      obtain ⟨rfl, -⟩ := List.cons.inj hpost
      rw [hxs] at ha
      exact absurd (List.mem_append_right _ List.mem_cons_self) ha

theorem exists_of_concat_eq {α : Type} {xs pre post : List α} {a b : α}
    (h : xs ++ [b] = pre ++ a :: post) (hab : a ≠ b) :
    ∃ more, post = more ++ [b] ∧ xs = pre ++ a :: more := by
  cases post using List.reverseRecOn with
  | nil =>
    obtain ⟨-, hb⟩ := List.append_inj' h rfl
    exact absurd (List.cons.inj hb).1.symm hab
  | append_singleton more c =>
    rw [← List.cons_append, ← List.append_assoc] at h
    obtain ⟨hxs, hc⟩ := List.append_inj' h rfl
    rw [(List.cons.inj hc).1]
    exact ⟨more, rfl, hxs⟩

theorem reported_not_mem_recovery (e : ParseError) (ts : List Token) :
    .reported e ∉ recovery finish ts := by
  obtain ⟨us, hr, -⟩ := exists_recovery finish ts
  simp [hr]

/-- Behind an error in a definition nothing happens but recovery. -/
theorem Tells.recovers {pre post : List Event} {e : ParseError} (h : Tells finish ts log rest)
    (hl : log = pre ++ .reported e :: post) (he : e.isDuplicate = false) :
    ∃ (us : List Token) (loc : Location) (more : List Event),
      post = us.map .pulled ++ .synchronized us.length loc :: more := by
  induction h generalizing pre with
  | done => simp at hl
  | pulled _ ih | groupFailed _ ih =>
    cases pre with
    | nil => cases hl
    | cons event pre => exact ih (List.cons.inj hl).2
  | duplicate hd _ ih =>
    cases pre with
    | nil =>
      cases hl
      rw [hd] at he
      cases he
    | cons event pre => exact ih (List.cons.inj hl).2
  | @failure ts _ log _ _ _ ih =>
    cases pre with
    | nil =>
      obtain ⟨us, hr, -⟩ := exists_recovery finish ts
      refine ⟨us, (look finish (resume ts)).location, log, ?_⟩
      rw [← (List.cons.inj hl).2, hr]
      simp
    | cons event pre =>
      obtain ⟨mid, -, hlog⟩ :=
        exists_of_append_eq (List.cons.inj hl).2 (reported_not_mem_recovery e ts)
      exact ih hlog
  | @skipped ts _ _ _ _ ih =>
    obtain ⟨mid, -, hlog⟩ := exists_of_append_eq hl (reported_not_mem_recovery e ts)
    exact ih hlog

/-- Where recovery has ended: `before` is the log up to there, of which the last `n` events tell of
the tokens that were skipped, behind an error in a definition if there are none. -/
def Recovered (n : Nat) (before : List Event) : Prop :=
  ∃ (earlier : List Event) (us : List Token), before = earlier ++ us.map .pulled ∧ us.length = n ∧
    (1 ≤ n ∨ ∃ events e, earlier = events ++ [.reported e] ∧ e.isDuplicate = false)

theorem Recovered.append {n : Nat} {before : List Event} (h : Recovered n before)
    (events : List Event) : Recovered n (events ++ before) := by
  obtain ⟨earlier, us, rfl, hl, hn⟩ := h
  refine ⟨events ++ earlier, us, (List.append_assoc _ _ _).symm, hl, hn.imp_right ?_⟩
  rintro ⟨older, e, rfl, he⟩
  exact ⟨events ++ older, e, (List.append_assoc _ _ _).symm, he⟩

/-- Whether `loc` is where the tokens start, which are at their end or at a definition. -/
def BoundaryAt (finish loc : Location) (ts : List Token) : Prop :=
  ts = [] ∧ loc = finish ∨ ∃ name equals us, ts = name :: equals :: us ∧ name.kind = .node ∧
    equals.kind = .equals ∧ loc = name.location

theorem boundaryAt_resume (ts : List Token) :
    BoundaryAt finish (look finish (resume ts)).location (resume ts) := by
  rcases boundary_resume ts with hb | hb
  · rw [hb]
    exact .inl ⟨rfl, rfl⟩
  · obtain ⟨name, equals, us, hr, hn, he⟩ := exists_of_startsDefinition hb
    rw [hr]
    exact .inr ⟨name, equals, us, rfl, hn, he, rfl⟩

/-- A recovery that is told of in front of a log is over, or is one in that log. -/
theorem synchronized_cases {n : Nat} {loc : Location} {pre post : List Event}
    (h : recovery finish ts ++ log = pre ++ .synchronized n loc :: post) :
    (∃ us : List Token, pre = us.map .pulled ∧ us.length = n ∧ n = distance ts ∧
      loc = (look finish (resume ts)).location) ∨
    ∃ mid, pre = recovery finish ts ++ mid ∧ log = mid ++ .synchronized n loc :: post := by
  obtain ⟨us, hr, hd, -⟩ := exists_recovery finish ts
  have hus : Event.synchronized n loc ∉ us.map Event.pulled := by simp
  rw [hr, List.append_assoc] at h
  obtain ⟨mid, rfl, hmid⟩ := exists_of_append_eq h hus
  cases mid with
  | nil =>
    cases hmid
    exact .inl ⟨us, List.append_nil _, rfl, hd, rfl⟩
  | cons event mid =>
    obtain ⟨rfl, hlog⟩ := List.cons.inj hmid
    exact .inr ⟨mid, by rw [hr, List.append_assoc]; rfl, hlog⟩

/-- Each recovery skips the tokens that were taken just before it. -/
theorem Tells.recovered {pre post : List Event} {n : Nat} {loc : Location}
    (h : Tells finish ts log rest) (hl : log = pre ++ .synchronized n loc :: post) :
    Recovered n pre := by
  induction h generalizing pre with
  | done => simp at hl
  | pulled _ ih | groupFailed _ ih | duplicate _ _ ih =>
    cases pre with
    | nil => cases hl
    | cons event pre => exact (ih (List.cons.inj hl).2).append [event]
  | @failure ts _ _ e he _ ih =>
    cases pre with
    | nil => cases hl
    | cons event pre =>
      obtain ⟨rfl, hlog⟩ := List.cons.inj hl
      rcases synchronized_cases hlog with ⟨us, rfl, hn, -⟩ | ⟨mid, rfl, hmid⟩
      · exact ⟨[.reported e], us, rfl, hn, .inr ⟨[], e, rfl, he⟩⟩
      · exact ((ih hmid).append (recovery finish ts)).append [.reported e]
  | @skipped ts _ _ hd _ ih =>
    rcases synchronized_cases hl with ⟨us, rfl, hn, hdist, -⟩ | ⟨mid, rfl, hmid⟩
    · exact ⟨[], us, rfl, hn, .inl (hdist ▸ Nat.pos_of_ne_zero hd)⟩
    · exact (ih hmid).append (recovery finish ts)

theorem length_tokens_recovery (finish : Location) (ts : List Token) :
    ((recovery finish ts).filterMap Event.token?).length = distance ts := by
  obtain ⟨us, hr, hd, -⟩ := exists_recovery finish ts
  rw [hr, List.filterMap_append, filterMap_token?_map_pulled, List.length_append, hd]
  rfl

theorem boundaryAt_of_recovery {n : Nat} {loc : Location} {pre post : List Event}
    (h : recovery finish ts ++ log = pre ++ .synchronized n loc :: post)
    (hlog : ∀ {mid}, log = mid ++ .synchronized n loc :: post →
      BoundaryAt finish loc ((resume ts).drop (mid.filterMap Event.token?).length)) :
    BoundaryAt finish loc (ts.drop (pre.filterMap Event.token?).length) := by
  rcases synchronized_cases h with ⟨us, rfl, hn, hd, rfl⟩ | ⟨mid, rfl, hmid⟩
  · rw [filterMap_token?_map_pulled, hn, hd]
    exact boundaryAt_resume ts
  · rw [List.filterMap_append, List.length_append, length_tokens_recovery, ← List.drop_drop]
    exact hlog hmid

theorem Tells.boundaryAt {pre post : List Event} {n : Nat} {loc : Location}
    (h : Tells finish ts log rest) (hl : log = pre ++ .synchronized n loc :: post) :
    BoundaryAt finish loc (ts.drop (pre.filterMap Event.token?).length) := by
  induction h generalizing pre with
  | done => simp at hl
  | pulled _ ih | groupFailed _ ih | duplicate _ _ ih =>
    cases pre with
    | nil => cases hl
    | cons event pre =>
      obtain ⟨rfl, hlog⟩ := List.cons.inj hl
      exact (ih hlog :)
  | failure _ _ ih =>
    cases pre with
    | nil => cases hl
    | cons event pre =>
      obtain ⟨rfl, hlog⟩ := List.cons.inj hl
      exact (boundaryAt_of_recovery hlog ih :)
  | skipped _ _ ih => exact boundaryAt_of_recovery hl ih

theorem Tells.not_finished (h : Tells finish ts log rest) (rules errors : Nat) :
    .finished rules errors ∉ log := by
  have hr : ∀ ts, Event.finished rules errors ∉ recovery finish ts := by
    intro ts
    obtain ⟨us, hr, -⟩ := exists_recovery finish ts
    simp [hr]
  induction h with
  | done => exact List.not_mem_nil
  | pulled _ ih | groupFailed _ ih | duplicate _ _ ih => simpa using ih
  | @failure ts _ _ _ _ _ ih => simpa [hr ts] using ih
  | @skipped ts _ _ _ _ ih => simpa [hr ts] using ih

end Parser

namespace Parse

open CstGrammar.Parser

/-- The log tells what happens: each token comes into view once, each error is reported, behind each
error in a definition the parser skips to a boundary, it tells how many tokens it has skipped, and
at the end how many rules and errors there are. -/
theorem ofSource_log (source : String) :
    let s := TokenStream.ofSource source
    let p := ofSource source
    let pulled := (Lexer.ofSource source).pulled (s.tokens.length + 2)
    Reader.parse source = some p ∧
    pulled = s.tokens ++ [.eof s.finish, .eof s.finish] ∧ (∀ t ∈ s.tokens, t.kind ≠ .eof) ∧
    p.log.filterMap Event.token? = pulled.drop 2 ∧
    p.log.filterMap Event.error? = p.errors ∧
    (∀ pre e post, p.log = pre ++ .reported e :: post → e.isDuplicate = false →
      ∃ (us : List Token) (loc : Location) (more : List Event),
        post = us.map .pulled ++ .synchronized us.length loc :: more) ∧
    (∀ pre n loc post, p.log = pre ++ .synchronized n loc :: post → Recovered n pre ∧
      BoundaryAt s.finish loc (s.tokens.drop (pre.filterMap Event.token?).length)) ∧
    ∃ log, p.log = log ++ [.finished p.grammar.size p.errors.length] ∧
      ∀ rules errors, .finished rules errors ∉ log := by
  intro s p pulled
  have hview : pulled = s.tokens ++ [.eof s.finish, .eof s.finish] := Lexer.pulled_ofSource source 2
  have htells : Tells s.finish s.tokens (assemble {} (passages s.finish s.tokens)).log [] :=
    tells_assemble {} s.tokens
  have hlog : p.log = (assemble {} (passages s.finish s.tokens)).log ++
      [.finished p.grammar.size p.errors.length] := rfl
  refine ⟨parse_eq source, hview, fun t ↦ kind_ne_eof_of_mem_ofSource, ?_, errorsOf_log_ofTokens s,
    ?_, ?_, _, hlog, htells.not_finished⟩
  · have htokens := htells.tokens
    rw [upcoming, List.nil_append, List.drop_succ_cons, List.drop_succ_cons, List.drop_zero,
      List.append_nil] at htokens
    rw [hlog, List.filterMap_append, htokens, hview]
    exact List.append_nil _
  · intro pre e post h he
    rw [hlog] at h
    obtain ⟨more, rfl, hpre⟩ := exists_of_concat_eq h Event.noConfusion
    obtain ⟨us, loc, events, rfl⟩ := htells.recovers hpre he
    exact ⟨us, loc, events ++ _, List.append_assoc _ _ _⟩
  · intro pre n loc post h
    rw [hlog] at h
    obtain ⟨more, -, hpre⟩ := exists_of_concat_eq h Event.noConfusion
    exact ⟨htells.recovered hpre, htells.boundaryAt hpre⟩

end Parse

end CstGrammar
