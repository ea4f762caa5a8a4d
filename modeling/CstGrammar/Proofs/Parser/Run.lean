import CstGrammar.Parser.Rule
import CstGrammar.Proofs.Parser.Recovery

namespace CstGrammar.Parser

inductive Phrase
  | alt | alternatives | seq | elements | single | atom
  deriving DecidableEq, Repr

namespace Phrase

@[reducible] def Value : Phrase → Type
  | alt | seq | single | atom => Option Rule
  | alternatives => List (Option Rule)
  | elements => List Rule

/-- The order in which phrases call each other without taking a token. -/
def level : Phrase → Nat
  | alt => 4
  | seq => 3
  | alternatives | elements => 2
  | single => 1
  | atom => 0

end Phrase

/-- The steps of the parser: what it makes of tokens as a phrase, which ones it leaves, and the
log. A single rule and an atom are read only where a rule starts. -/
inductive Run (finish : Location) :
    (p : Phrase) → List Token → p.Value → List Token → List Event → Prop
  | alt_none {ts rest log} : Run finish .seq ts none rest log → Run finish .alt ts none rest log
  | alt_some {ts first mid more rest log log'} :
      Run finish .seq ts (some first) mid log → Run finish .alternatives mid more rest log' →
      Run finish .alt ts (some (alternation first more)) rest (log ++ log')
  | alternatives_stop {ts} : (look finish ts).kind ≠ .pipe → Run finish .alternatives ts [] ts []
  | alternatives_cons {pipe ts head mid more rest log log'} : pipe.kind = .pipe →
      Run finish .seq ts head mid log → Run finish .alternatives mid more rest log' →
      Run finish .alternatives (pipe :: ts) (head :: more) rest
        (pulls finish 1 (pipe :: ts) ++ log ++ log')
  | seq_missing {ts} : startsRule ts = false →
      Run finish .seq ts none (resume ts) (failure finish .expectedRule ts)
  | seq_none {ts rest log} : Run finish .single ts none rest log →
      Run finish .seq ts none rest log
  | seq_some {ts first mid more rest log log'} :
      Run finish .single ts (some first) mid log → Run finish .elements mid more rest log' →
      Run finish .seq ts (some (sequence first more)) rest (log ++ log')
  | elements_stop {ts} : startsRule ts = false → Run finish .elements ts [] ts []
  | elements_none {ts rest log} : Run finish .single ts none rest log →
      Run finish .elements ts [] rest log
  | elements_cons {ts rule mid more rest log log'} :
      Run finish .single ts (some rule) mid log → Run finish .elements mid more rest log' →
      Run finish .elements ts (rule :: more) rest (log ++ log')
  | single_none {ts rest log} : Run finish .atom ts none rest log →
      Run finish .single ts none rest log
  | single_plain {ts rule rest log} : Run finish .atom ts (some rule) rest log →
      (look finish rest).kind ≠ .question → (look finish rest).kind ≠ .star →
      Run finish .single ts (some rule) rest log
  | single_opt {ts rule s rest log} : Run finish .atom ts (some rule) (s :: rest) log →
      s.kind = .question →
      Run finish .single ts (some (.opt rule)) rest (log ++ pulls finish 1 (s :: rest))
  | single_rep {ts rule s rest log} : Run finish .atom ts (some rule) (s :: rest) log →
      s.kind = .star →
      Run finish .single ts (some (.rep rule)) rest (log ++ pulls finish 1 (s :: rest))
  | atom_node {t ts} : t.kind = .node → (look finish ts).kind ≠ .equals →
      (look finish ts).kind ≠ .colon →
      Run finish .atom (t :: ts) (some (.node t.value t.location)) ts (pulls finish 1 (t :: ts))
  | atom_literal {t ts} : t.kind = .literal →
      Run finish .atom (t :: ts) (some (.literal t.value t.location)) ts (pulls finish 1 (t :: ts))
  | atom_error {t ts} : t.kind = .error →
      Run finish .atom (t :: ts) none (resume ts) (failure finish .stated (t :: ts))
  | labeled_missing {label colon ts} : label.kind = .node → colon.kind = .colon →
      startsRule ts = false →
      Run finish .atom (label :: colon :: ts) (some (.labeled label.value none label.location))
        (resume ts)
        (pulls finish 2 (label :: colon :: ts) ++ failure finish .expectedRuleAfterLabel ts)
  | labeled_some {label colon ts rule rest log} : label.kind = .node → colon.kind = .colon →
      Run finish .single ts rule rest log →
      Run finish .atom (label :: colon :: ts) (some (.labeled label.value rule label.location))
        rest (pulls finish 2 (label :: colon :: ts) ++ log)
  | group_none {opening ts rest log} : opening.kind = .lparen →
      Run finish .alt ts none rest log →
      Run finish .atom (opening :: ts) none rest (pulls finish 1 (opening :: ts) ++ log)
  | group_reported {opening ts rule rest log} : opening.kind = .lparen →
      Run finish .alt ts (some rule) rest log → errorsOf log ≠ [] →
      Run finish .atom (opening :: ts) (some rule) rest
        (pulls finish 1 (opening :: ts) ++ log ++ [.groupFailed])
  | group_closed {opening ts rule closing rest log} : opening.kind = .lparen →
      Run finish .alt ts (some rule) (closing :: rest) log → errorsOf log = [] →
      closing.kind = .rparen →
      Run finish .atom (opening :: ts) (some rule) rest
        (pulls finish 1 (opening :: ts) ++ log ++ pulls finish 1 (closing :: rest))
  | group_unclosed {opening ts rule rest log} : opening.kind = .lparen →
      Run finish .alt ts (some rule) rest log → errorsOf log = [] →
      (look finish rest).kind ≠ .rparen →
      Run finish .atom (opening :: ts) (some rule) (resume rest)
        (pulls finish 1 (opening :: ts) ++ log ++ failure finish .expectedClosing rest)

variable {finish : Location}

def Gives (finish : Location) :
    (p : Phrase) → List Token → p.Value → List Token → List Event → Prop
  | .alt, ts, v, rest, log => ∃ h, alt finish ts = ⟨v, rest, errorsOf log, log, h⟩
  | .alternatives, ts, v, rest, log => ∃ h, alternatives finish ts = ⟨v, rest, errorsOf log, log, h⟩
  | .seq, ts, v, rest, log => ∃ h, seq finish ts = ⟨v, rest, errorsOf log, log, h⟩
  | .elements, ts, v, rest, log => ∃ h, elements finish ts = ⟨v, rest, errorsOf log, log, h⟩
  | .single, ts, v, rest, log => ∃ h, single finish ts = some ⟨v, rest, errorsOf log, log, h⟩
  | .atom, ts, v, rest, log => ∃ h, atom finish ts = some ⟨v, rest, errorsOf log, log, h⟩

theorem atom_eq_none {ts : List Token} (h : startsRule ts = false) : atom finish ts = none := by
  rw [atom.eq_def]
  split
  · rfl
  · next t ts =>
    cases ht : t.kind with
    | node =>
      have hs : startsDefinition (t :: ts) = true := by simpa [startsRule, ht] using h
      simp [((startsDefinition_cons t ts).mp hs).2]
    | literal | lparen | error => simp [startsRule, ht] at h
    | eof | equals | star | pipe | question | colon | rparen => rfl

theorem single_eq_none {ts : List Token} (h : startsRule ts = false) :
    single finish ts = none := by
  rw [single, atom_eq_none h]
  rfl

/-- Every step is what the functions do, and the errors that they return are those in its log. -/
theorem Run.gives {p : Phrase} {ts rest : List Token} {v : p.Value} {log : List Event}
    (h : Run finish p ts v rest log) : Gives finish p ts v rest log := by
  induction h with
  | alt_none h ih =>
    obtain ⟨hr, he⟩ := ih
    exact ⟨hr, by rw [alt, he]⟩
  | alt_some h h' ih ih' =>
    obtain ⟨hr, he⟩ := ih
    obtain ⟨hr', he'⟩ := ih'
    refine ⟨by omega, ?_⟩
    rw [alt, he]
    simp only [he', errorsOf_append]
  | @alternatives_stop ts hk =>
    refine ⟨by simp, ?_⟩
    cases ts with
    | nil => rw [alternatives, errorsOf_nil]
    | cons t ts =>
      rw [look_cons] at hk
      rw [alternatives, if_neg hk, errorsOf_nil]
  | alternatives_cons hk h h' ih ih' =>
    obtain ⟨hr, he⟩ := ih
    obtain ⟨hr', he'⟩ := ih'
    refine ⟨by simp only [List.length_cons]; omega, ?_⟩
    rw [alternatives, if_pos hk, he]
    simp only [he', errorsOf_append, errorsOf_pulls, List.nil_append]
  | @seq_missing ts h =>
    refine ⟨Nat.lt_succ_of_le (length_resume_le ts), ?_⟩
    rw [seq, single_eq_none h, errorsOf_failure]
  | seq_none h ih =>
    obtain ⟨hr, he⟩ := ih
    exact ⟨Nat.lt_succ_of_lt hr, by rw [seq, he]⟩
  | seq_some h h' ih ih' =>
    obtain ⟨hr, he⟩ := ih
    obtain ⟨hr', he'⟩ := ih'
    refine ⟨by omega, ?_⟩
    rw [seq, he]
    simp only [he', errorsOf_append]
  | elements_stop h =>
    refine ⟨Nat.lt_succ_self _, ?_⟩
    rw [elements, single_eq_none h, errorsOf_nil]
  | elements_none h ih =>
    obtain ⟨hr, he⟩ := ih
    exact ⟨Nat.lt_succ_of_lt hr, by rw [elements, he]⟩
  | elements_cons h h' ih ih' =>
    obtain ⟨hr, he⟩ := ih
    obtain ⟨hr', he'⟩ := ih'
    refine ⟨by omega, ?_⟩
    rw [elements, he]
    simp only [he', errorsOf_append]
  | single_none h ih =>
    obtain ⟨hr, he⟩ := ih
    exact ⟨hr, by rw [single, he]; rfl⟩
  | single_plain h hq hs ih =>
    obtain ⟨hr, he⟩ := ih
    refine ⟨hr, ?_⟩
    rw [single, he]
    simp [suffix, hq, hs]
  | single_opt h hk ih | single_rep h hk ih =>
    obtain ⟨hr, he⟩ := ih
    refine ⟨by simp only [List.length_cons] at hr; omega, ?_⟩
    rw [single, he]
    simp [suffix, hk, errorsOf_append]
  | atom_node ht he hc =>
    refine ⟨by simp, ?_⟩
    simp only [atom, ht, errorsOf_pulls]
  | atom_literal ht =>
    refine ⟨by simp, ?_⟩
    simp only [atom, ht, errorsOf_pulls]
  | @atom_error t ts ht =>
    refine ⟨Nat.lt_succ_of_le (length_resume_le ts), ?_⟩
    simp only [atom, ht, errorsOf_failure]
  | @labeled_missing label colon ts hl hc h =>
    have hr := length_resume_le ts
    refine ⟨by simp only [List.length_cons]; omega, ?_⟩
    simp only [atom, hl, look_cons, hc, labeled, List.tail_cons, single_eq_none h, errorsOf_append,
      errorsOf_pulls, errorsOf_failure, List.nil_append]
  | labeled_some hl hc h ih =>
    obtain ⟨hr, he⟩ := ih
    refine ⟨by simp only [List.length_cons]; omega, ?_⟩
    simp only [atom, hl, look_cons, hc, labeled, List.tail_cons, he, errorsOf_append,
      errorsOf_pulls, List.nil_append]
  | group_none ht h ih =>
    obtain ⟨hr, he⟩ := ih
    refine ⟨hr, ?_⟩
    simp only [atom, ht, group, he, errorsOf_append, errorsOf_pulls, List.nil_append]
  | group_reported ht h hl ih =>
    obtain ⟨hr, he⟩ := ih
    refine ⟨hr, ?_⟩
    simp [atom, ht, group, he, close, errorsOf_append, hl]
  | group_closed ht h hl hc ih =>
    obtain ⟨hr, he⟩ := ih
    refine ⟨by simp only [List.length_cons] at hr ⊢; omega, ?_⟩
    simp [atom, ht, group, he, close, errorsOf_append, hl, hc]
  | @group_unclosed opening ts rule rest log ht h hl hc ih =>
    obtain ⟨hr, he⟩ := ih
    refine ⟨Nat.lt_of_le_of_lt (length_resume_le rest) hr, ?_⟩
    simp [atom, ht, group, he, close, errorsOf_append, hl, hc]

theorem Run.length_le {p : Phrase} {ts rest : List Token} {v : p.Value} {log : List Event}
    (h : Run finish p ts v rest log) : rest.length ≤ ts.length := by
  have hg := h.gives
  cases p <;> obtain ⟨hr, -⟩ := hg <;> omega

theorem Run.length_lt {ts rest : List Token} {v : Option Rule} {log : List Event}
    (h : Run finish .single ts v rest log) : rest.length < ts.length := h.gives.1

/-- The parser can always go on to the end of a phrase. -/
theorem exists_run (finish : Location) (p : Phrase) (ts : List Token)
    (hs : p.level ≤ 1 → startsRule ts = true) : ∃ v rest log, Run finish p ts v rest log := by
  cases p with
  | alt =>
    obtain ⟨v, mid, log, h⟩ := exists_run finish .seq ts (by simp [Phrase.level])
    cases v with
    | none => exact ⟨_, _, _, .alt_none h⟩
    | some first =>
      have hl := h.length_le
      obtain ⟨more, rest, log', h'⟩ := exists_run finish .alternatives mid (by simp [Phrase.level])
      exact ⟨_, _, _, .alt_some h h'⟩
  | alternatives =>
    by_cases hk : (look finish ts).kind = .pipe
    · obtain ⟨pipe, us, rfl, hk⟩ := exists_cons_of_look hk (by decide)
      obtain ⟨head, mid, log, h⟩ := exists_run finish .seq us (by simp [Phrase.level])
      have hl := h.length_le
      obtain ⟨more, rest, log', h'⟩ := exists_run finish .alternatives mid (by simp [Phrase.level])
      exact ⟨_, _, _, .alternatives_cons hk h h'⟩
    · exact ⟨_, _, _, .alternatives_stop hk⟩
  | seq =>
    by_cases hs : startsRule ts = true
    · obtain ⟨v, mid, log, h⟩ := exists_run finish .single ts (fun _ ↦ hs)
      cases v with
      | none => exact ⟨_, _, _, .seq_none h⟩
      | some first =>
        have hl := h.length_le
        obtain ⟨more, rest, log', h'⟩ := exists_run finish .elements mid (by simp [Phrase.level])
        exact ⟨_, _, _, .seq_some h h'⟩
    · exact ⟨_, _, _, .seq_missing (by simpa using hs)⟩
  | elements =>
    by_cases hs : startsRule ts = true
    · obtain ⟨v, mid, log, h⟩ := exists_run finish .single ts (fun _ ↦ hs)
      cases v with
      | none => exact ⟨_, _, _, .elements_none h⟩
      | some rule =>
        have hl := h.length_lt
        obtain ⟨more, rest, log', h'⟩ := exists_run finish .elements mid (by simp [Phrase.level])
        exact ⟨_, _, _, .elements_cons h h'⟩
    · exact ⟨_, _, _, .elements_stop (by simpa using hs)⟩
  | single =>
    obtain ⟨v, rest, log, h⟩ := exists_run finish .atom ts (fun _ ↦ hs (Nat.le_refl 1))
    cases v with
    | none => exact ⟨_, _, _, .single_none h⟩
    | some rule =>
      by_cases hq : (look finish rest).kind = .question
      · obtain ⟨s, rest, rfl, hq⟩ := exists_cons_of_look hq (by decide)
        exact ⟨_, _, _, .single_opt h hq⟩
      · by_cases hr : (look finish rest).kind = .star
        · obtain ⟨s, rest, rfl, hr⟩ := exists_cons_of_look hr (by decide)
          exact ⟨_, _, _, .single_rep h hr⟩
        · exact ⟨_, _, _, .single_plain h hq hr⟩
  | atom =>
    have hs := hs (Nat.zero_le 1)
    obtain ⟨t, us, rfl⟩ := exists_cons_of_startsRule hs
    cases ht : t.kind with
    | node =>
      by_cases hc : (look finish us).kind = .colon
      · obtain ⟨colon, vs, rfl, hc⟩ := exists_cons_of_look hc (by decide)
        by_cases hr : startsRule vs = true
        · obtain ⟨rule, rest, log, h⟩ := exists_run finish .single vs (fun _ ↦ hr)
          exact ⟨_, _, _, .labeled_some ht hc h⟩
        · exact ⟨_, _, _, .labeled_missing ht hc (by simpa using hr)⟩
      · have he : (look finish us).kind ≠ .equals := by
          intro he
          simp [startsRule, ht, (startsDefinition_cons t us).mpr ⟨ht, he⟩] at hs
        exact ⟨_, _, _, .atom_node ht he hc⟩
    | literal => exact ⟨_, _, _, .atom_literal ht⟩
    | error => exact ⟨_, _, _, .atom_error ht⟩
    | lparen =>
      obtain ⟨v, rest, log, h⟩ := exists_run finish .alt us (by simp [Phrase.level])
      cases v with
      | none => exact ⟨_, _, _, .group_none ht h⟩
      | some rule =>
        by_cases hl : errorsOf log = []
        · by_cases hc : (look finish rest).kind = .rparen
          · obtain ⟨closing, rest, rfl, hc⟩ := exists_cons_of_look hc (by decide)
            exact ⟨_, _, _, .group_closed ht h hl hc⟩
          · exact ⟨_, _, _, .group_unclosed ht h hl hc⟩
        · exact ⟨_, _, _, .group_reported ht h hl⟩
    | eof | equals | star | pipe | question | colon | rparen => simp [startsRule, ht] at hs
termination_by 5 * ts.length + p.level
decreasing_by all_goals subst_vars; simp only [Phrase.level, List.length_cons]; omega

theorem run_alt (finish : Location) (ts : List Token) :
    Run finish .alt ts (alt finish ts).value (alt finish ts).rest (alt finish ts).log := by
  obtain ⟨v, rest, log, h⟩ := exists_run finish .alt ts (by simp [Phrase.level])
  obtain ⟨hr, he⟩ := h.gives
  rw [he]
  exact h

/-- The errors that the parser returns are those that its log reports. -/
theorem errorsOf_log_alt (finish : Location) (ts : List Token) :
    errorsOf (alt finish ts).log = (alt finish ts).errors := by
  obtain ⟨hr, he⟩ := (run_alt finish ts).gives
  exact (congrArg Reply.errors he).symm

theorem run_seq (finish : Location) (ts : List Token) :
    Run finish .seq ts (seq finish ts).value (seq finish ts).rest (seq finish ts).log := by
  obtain ⟨v, rest, log, h⟩ := exists_run finish .seq ts (by simp [Phrase.level])
  obtain ⟨hr, he⟩ := h.gives
  rw [he]
  exact h

end CstGrammar.Parser
