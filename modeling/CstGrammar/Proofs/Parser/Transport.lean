import CstGrammar.Proofs.Parser.Entries
import CstGrammar.Proofs.Rule.Relocation

namespace CstGrammar

def Problem.found? : Problem → Option String
  | expectedRule found | expectedClosing found | expectedRuleAfterLabel found => some found
  | stated _ | duplicateName _ => none

def Problem.refound (found : String) : Problem → Problem
  | expectedRule _ => expectedRule found
  | expectedClosing _ => expectedClosing found
  | expectedRuleAfterLabel _ => expectedRuleAfterLabel found
  | stated message => stated message
  | duplicateName name => duplicateName name

/-- An error at the token `old` as an error at the token `new`. Any other error is moved. -/
def ParseError.carry (f : Location → Location) (old new : Token) (e : ParseError) : ParseError :=
  if e.location = old.location ∧ e.problem.found? = some old.value then
    ⟨new.location, e.problem.refound new.value⟩
  else ⟨f e.location, e.problem⟩

theorem ParseError.carry_of_found?_eq_none (f : Location → Location) (old new : Token)
    {e : ParseError} (h : e.problem.found? = none) :
    e.carry f old new = ⟨f e.location, e.problem⟩ := by
  rw [carry, if_neg]
  rintro ⟨-, hf⟩
  rw [h] at hf
  cases hf

def Definition.relocate (f : Location → Location) (d : Definition) : Definition :=
  ⟨d.name.relocate f, d.rule.relocate f⟩

theorem Definition.relocate_id (d : Definition) : d.relocate id = d := by
  rw [relocate, Rule.relocate_id]
  rfl

theorem Definition.last?_map_relocate (f : Location → Location) (name : String)
    (ds : List Definition) :
    last? name (ds.map (relocate f)) = (last? name ds).map (relocate f) := by
  rw [last?, last?, ← List.map_reverse, List.find?_map]
  rfl

namespace Parser

/-- Whether no token looks like the end marker, but for those that a rule can start with. -/
def ProperValues (ts : List Token) : Prop :=
  ∀ t ∈ ts, t.kind ∉ [Token.Kind.literal, .error] → t.value ≠ "<end of input>"

theorem ProperValues.suffix {ts us : List Token} (h : ProperValues ts) (hs : us <:+ ts) :
    ProperValues us := fun t ht ↦ h t (hs.subset ht)

def Phrase.relocate (f : Location → Location) : (p : Phrase) → p.Value → p.Value
  | .alt, v => v.map (Rule.relocate f)
  | .alternatives, parts => parts.map (Option.map (Rule.relocate f))
  | .seq, v => v.map (Rule.relocate f)
  | .elements, rules => rules.map (Rule.relocate f)
  | .single, v => v.map (Rule.relocate f)
  | .atom, v => v.map (Rule.relocate f)

/-- The tokens at other places, and with other tokens behind them. -/
def transport (f : Location → Location) (ds ts : List Token) : List Token :=
  ts.map (Token.relocate f) ++ ds

section

variable {finish finish' : Location} {f : Location → Location} {ts ds : List Token}

theorem startsDefinition_transport (hd : Boundary ds) (t : Token) (ts : List Token) :
    startsDefinition (transport f ds (t :: ts)) = startsDefinition (t :: ts) := by
  cases ts with
  | nil =>
    rcases hd with rfl | hd
    · rfl
    · obtain ⟨name, equals, us, rfl, hn, -⟩ := exists_of_startsDefinition hd
      simp [transport, startsDefinition, hn]
  | cons u ts => rfl

theorem startsRule_transport (hd : Boundary ds) (ts : List Token) :
    startsRule (transport f ds ts) = startsRule ts := by
  cases ts with
  | nil => exact hd.startsRule_eq
  | cons t ts =>
    have h : startsDefinition (t.relocate f :: transport f ds ts) = startsDefinition (t :: ts) :=
      startsDefinition_transport hd t ts
    change startsRule (t.relocate f :: transport f ds ts) = startsRule (t :: ts)
    rw [startsRule, startsRule, h]
    rfl

theorem resume_transport (hd : Boundary ds) (ts : List Token) :
    resume (transport f ds ts) = transport f ds (resume ts) := by
  induction ts with
  | nil => exact hd.resume_eq
  | cons t ts ih =>
    have h : startsDefinition (t.relocate f :: transport f ds ts) = startsDefinition (t :: ts) :=
      startsDefinition_transport hd t ts
    change resume (t.relocate f :: transport f ds ts) = _
    by_cases hs : startsDefinition (t :: ts) = true
    · rw [resume_of_starts hs, resume_of_starts (h.trans hs)]
      rfl
    · have hs : startsDefinition (t :: ts) = false := by simpa using hs
      rw [resume_cons hs, resume_cons (h.trans hs), ih]

theorem kind_look_transport_ne (finish' : Location) (f : Location → Location) (hd : Boundary ds)
    {kind : Token.Kind} (h : (look finish ts).kind ≠ kind) (hk : kind ∉ [Token.Kind.node, .eof]) :
    (look finish' (transport f ds ts)).kind ≠ kind := by
  cases ts with
  | nil => exact hd.kind_look_ne finish' hk
  | cons t ts => exact h

theorem errorsOf_failure_transport {problem : String → Problem}
    (hp : ∀ found, (problem found).found? = some found ∧
      ∀ found', (problem found).refound found' = problem found')
    (hs : startsRule ts = false) (hv : ProperValues ts) :
    errorsOf (failure finish' problem (transport f ds ts)) =
      (errorsOf (failure finish problem ts)).map
        (ParseError.carry f (.eof finish) (look finish' ds)) := by
  rw [errorsOf_failure, errorsOf_failure, List.map_singleton, errorAt, errorAt]
  cases ts with
  | nil =>
    rw [ParseError.carry, if_pos ⟨rfl, (hp _).1⟩]
    exact congrArg (fun p ↦ [ParseError.mk _ p]) ((hp _).2 _).symm
  | cons t ts =>
    have hk : t.kind ∉ [Token.Kind.literal, .error] := by
      intro hm
      simp only [List.mem_cons, List.not_mem_nil, or_false] at hm
      rcases hm with hm | hm <;> simp [startsRule, hm] at hs
    have hne := hv t List.mem_cons_self hk
    rw [ParseError.carry, if_neg]
    · rfl
    · rintro ⟨-, hf⟩
      rw [(hp _).1] at hf
      exact hne (Option.some.inj hf)

end

variable {finish : Location} {p : Phrase} {ts rest : List Token} {v : p.Value} {log : List Event}

/-- The parser does the same at other places, and where a definition follows instead of the end. -/
theorem Run.transport (h : Run finish p ts v rest log) (hv : ProperValues ts)
    (finish' : Location) (f : Location → Location) {ds : List Token} (hd : Boundary ds) :
    ∃ log', Run finish' p (transport f ds ts) (p.relocate f v) (transport f ds rest) log' ∧
      errorsOf log' =
        (errorsOf log).map (ParseError.carry f (.eof finish) (look finish' ds)) := by
  induction h with
  | alt_none _ ih =>
    obtain ⟨log', hrun, hl⟩ := ih hv
    exact ⟨log', .alt_none hrun, hl⟩
  | alt_some h _ ih ih' =>
    obtain ⟨log', hrun, hl⟩ := ih hv
    obtain ⟨log'', hmore, hl'⟩ := ih' (hv.suffix h.suffix)
    rw [Phrase.relocate, Option.map_some, Rule.relocate_alternation]
    refine ⟨_, .alt_some hrun hmore, ?_⟩
    rw [errorsOf_append, errorsOf_append, List.map_append, hl, hl']
  | alternatives_stop hk =>
    exact ⟨[], .alternatives_stop (kind_look_transport_ne finish' f hd hk (by decide)), rfl⟩
  | alternatives_cons hk h _ ih ih' =>
    have hv' := hv.suffix (List.suffix_cons _ _)
    obtain ⟨log', hrun, hl⟩ := ih hv'
    obtain ⟨log'', hmore, hl'⟩ := ih' (hv'.suffix h.suffix)
    refine ⟨_, .alternatives_cons hk hrun hmore, ?_⟩
    simp only [errorsOf_append, errorsOf_pulls, List.nil_append, List.map_append, hl, hl']
  | @seq_missing ts hs =>
    have h := @Run.seq_missing finish' _ ((startsRule_transport (f := f) hd ts).trans hs)
    rw [resume_transport hd] at h
    exact ⟨_, h, errorsOf_failure_transport (fun _ ↦ ⟨rfl, fun _ ↦ rfl⟩) hs hv⟩
  | seq_none _ ih =>
    obtain ⟨log', hrun, hl⟩ := ih hv
    exact ⟨log', .seq_none hrun, hl⟩
  | seq_some h _ ih ih' =>
    obtain ⟨log', hrun, hl⟩ := ih hv
    obtain ⟨log'', hmore, hl'⟩ := ih' (hv.suffix h.suffix)
    rw [Phrase.relocate, Option.map_some, Rule.relocate_sequence]
    refine ⟨_, .seq_some hrun hmore, ?_⟩
    rw [errorsOf_append, errorsOf_append, List.map_append, hl, hl']
  | @elements_stop ts hs =>
    exact ⟨[], .elements_stop ((startsRule_transport hd ts).trans hs), rfl⟩
  | elements_none _ ih =>
    obtain ⟨log', hrun, hl⟩ := ih hv
    exact ⟨log', .elements_none hrun, hl⟩
  | elements_cons h _ ih ih' =>
    obtain ⟨log', hrun, hl⟩ := ih hv
    obtain ⟨log'', hmore, hl'⟩ := ih' (hv.suffix h.suffix)
    refine ⟨_, .elements_cons hrun hmore, ?_⟩
    rw [errorsOf_append, errorsOf_append, List.map_append, hl, hl']
  | single_none _ ih =>
    obtain ⟨log', hrun, hl⟩ := ih hv
    exact ⟨log', .single_none hrun, hl⟩
  | single_plain _ hq hs ih =>
    obtain ⟨log', hrun, hl⟩ := ih hv
    have hq' := kind_look_transport_ne finish' f hd hq (by decide)
    have hs' := kind_look_transport_ne finish' f hd hs (by decide)
    exact ⟨log', .single_plain hrun hq' hs', hl⟩
  | @single_opt _ _ s _ _ _ hk ih =>
    obtain ⟨log', hrun, hl⟩ := ih hv
    exact ⟨_, @Run.single_opt finish' _ _ (s.relocate f) _ _ hrun hk, by simp [errorsOf_append, hl]⟩
  | @single_rep _ _ s _ _ _ hk ih =>
    obtain ⟨log', hrun, hl⟩ := ih hv
    exact ⟨_, @Run.single_rep finish' _ _ (s.relocate f) _ _ hrun hk, by simp [errorsOf_append, hl]⟩
  | @atom_node t ts ht he hc =>
    have he' := kind_look_transport_ne finish' f hd he (by decide)
    have hc' := kind_look_transport_ne finish' f hd hc (by decide)
    exact ⟨_, @Run.atom_node finish' (t.relocate f) _ ht he' hc', by simp⟩
  | @atom_literal t ts ht => exact ⟨_, @Run.atom_literal finish' (t.relocate f) _ ht, by simp⟩
  | @atom_error t ts ht =>
    have h := @Run.atom_error finish' (t.relocate f) (Parser.transport f ds ts) ht
    rw [resume_transport hd] at h
    refine ⟨_, h, ?_⟩
    rw [errorsOf_failure, errorsOf_failure, List.map_singleton,
      ParseError.carry_of_found?_eq_none f _ _ rfl]
    rfl
  | @labeled_missing label colon ts hl hc hs =>
    have hv' := hv.suffix ((List.suffix_cons _ _).trans (List.suffix_cons _ _))
    have h := @Run.labeled_missing finish' (label.relocate f) (colon.relocate f) _ hl hc
      ((startsRule_transport (f := f) hd ts).trans hs)
    rw [resume_transport hd] at h
    refine ⟨_, h, ?_⟩
    rw [errorsOf_append, errorsOf_append, errorsOf_pulls, errorsOf_pulls]
    exact errorsOf_failure_transport (fun _ ↦ ⟨rfl, fun _ ↦ rfl⟩) hs hv'
  | @labeled_some label colon _ _ _ _ hl hc _ ih =>
    obtain ⟨log', hrun, he⟩ := ih (hv.suffix ((List.suffix_cons _ _).trans (List.suffix_cons _ _)))
    have h := @Run.labeled_some finish' (label.relocate f) (colon.relocate f) _ _ _ _ hl hc hrun
    rw [Phrase.relocate, Option.map_some, Rule.relocate_labeled]
    exact ⟨_, h, by simp [errorsOf_append, he]⟩
  | @group_none opening _ _ _ ho _ ih =>
    obtain ⟨log', hrun, hl⟩ := ih (hv.suffix (List.suffix_cons _ _))
    exact ⟨_, @Run.group_none finish' (opening.relocate f) _ _ _ ho hrun,
      by simp [errorsOf_append, hl]⟩
  | @group_reported opening _ _ _ _ ho _ he ih =>
    obtain ⟨log', hrun, hl⟩ := ih (hv.suffix (List.suffix_cons _ _))
    have he' : errorsOf log' ≠ [] := by simpa [hl] using he
    exact ⟨_, @Run.group_reported finish' (opening.relocate f) _ _ _ _ ho hrun he',
      by simp [errorsOf_append, hl]⟩
  | @group_closed opening _ _ closing _ _ ho _ he hc ih =>
    obtain ⟨log', hrun, hl⟩ := ih (hv.suffix (List.suffix_cons _ _))
    have he' : errorsOf log' = [] := by simp [hl, he]
    exact ⟨_, @Run.group_closed finish' (opening.relocate f) _ _ (closing.relocate f) _ _ ho hrun
      he' hc, by simp [errorsOf_append, he, he']⟩
  | @group_unclosed opening ts rule rest log ho h he hc ih =>
    have hv' := hv.suffix (List.suffix_cons _ _)
    obtain ⟨log', hrun, hl⟩ := ih hv'
    have he' : errorsOf log' = [] := by simp [hl, he]
    have hc' := kind_look_transport_ne finish' f hd hc (by decide)
    have hs : startsRule rest = false := h.startsRule_rest trivial he
    have hu := @Run.group_unclosed finish' (opening.relocate f) _ _ _ _ ho hrun he' hc'
    rw [resume_transport hd] at hu
    refine ⟨_, hu, ?_⟩
    rw [errorsOf_append, errorsOf_append, errorsOf_append, errorsOf_append, errorsOf_pulls,
      errorsOf_pulls, he, he']
    exact errorsOf_failure_transport (fun _ ↦ ⟨rfl, fun _ ↦ rfl⟩) hs (hv'.suffix h.suffix)

def Entry.carry (f : Location → Location) (old new : Token) (e : Entry) : Entry :=
  ⟨e.name.relocate f, e.rule.map (Rule.relocate f), e.errors.map (ParseError.carry f old new)⟩

/-- In front of a definition, definitions are read as at the end of a text. -/
theorem entries_transport {ts : List Token} (hv : ProperValues ts) (finish' : Location)
    (f : Location → Location) {ds : List Token} (hd : Boundary ds) :
    entries finish' (transport f ds ts) =
      (entries finish ts).map (Entry.carry f (.eof finish) (look finish' ds)) ++
        entries finish' ds := by
  induction ts using text_induction finish with
  | nil =>
    rw [entries_nil]
    rfl
  | @definition name equals us rest v log hn he hrun ih =>
    have hus := hv.suffix ((List.suffix_cons _ _).trans (List.suffix_cons _ _))
    obtain ⟨log', hrun', hl⟩ := hrun.transport hus finish' f hd
    have hentries : entries finish' (transport f ds (name :: equals :: us)) = _ :=
      @entries_of_run finish' (name.relocate f) (equals.relocate f) _ _ _ _ hn he hrun'
    rw [hentries, entries_of_run hn he hrun, ih (hus.suffix hrun.suffix), hl]
    rfl
  | @skipped t ts hs ih =>
    have hrest := hv.suffix ((resume_suffix ts).trans (List.suffix_cons _ _))
    have hentries : entries finish' (transport f ds (t :: ts)) =
        entries finish' (resume (transport f ds ts)) :=
      entries_cons ((startsDefinition_transport hd t ts).trans hs)
    rw [hentries, entries_cons hs, resume_transport hd, ih hrest]

theorem reports_map_carry (f : Location → Location) (old new : Token) (seen : List String)
    (es : List Entry) : reports seen (es.map (Entry.carry f old new)) =
      (reports seen es).map (ParseError.carry f old new) := by
  induction es generalizing seen with
  | nil => rfl
  | cons e es ih =>
    match e with
    | ⟨name, none, errors⟩ =>
      change errors.map _ ++ reports seen (es.map _) = (errors ++ reports seen es).map _
      rw [ih, List.map_append]
    | ⟨name, some rule, errors⟩ =>
      have hr : Definition.repeated seen (name.relocate f) =
          (Definition.repeated seen name).map (ParseError.carry f old new) := by
        rw [Definition.repeated, Definition.repeated]
        by_cases hm : name.value ∈ seen
        · rw [if_pos hm, if_pos (show (name.relocate f).value ∈ seen from hm), List.map_singleton,
            ParseError.carry_of_found?_eq_none f old new rfl]
          rfl
        · rw [if_neg hm, if_neg (show (name.relocate f).value ∉ seen from hm)]
          rfl
      change errors.map _ ++ Definition.repeated seen (name.relocate f) ++
        reports (name.value :: seen) (es.map _) = _
      rw [hr, ih, ← List.map_append, ← List.map_append]
      rfl

theorem exists_reports_append (seen : List String) (es es' : List Entry) :
    ∃ seen', reports seen (es ++ es') = reports seen es ++ reports seen' es' := by
  induction es generalizing seen with
  | nil => exact ⟨seen, rfl⟩
  | cons e es ih =>
    match e with
    | ⟨name, none, errors⟩ =>
      obtain ⟨seen', h⟩ := ih seen
      refine ⟨seen', ?_⟩
      change errors ++ reports seen (es ++ es') = errors ++ reports seen es ++ reports seen' es'
      rw [h, List.append_assoc]
    | ⟨name, some rule, errors⟩ =>
      obtain ⟨seen', h⟩ := ih (name.value :: seen)
      refine ⟨seen', ?_⟩
      change errors ++ Definition.repeated seen name ++ reports (name.value :: seen) (es ++ es') =
        errors ++ Definition.repeated seen name ++ reports (name.value :: seen) es ++
          reports seen' es'
      rw [h, ← List.append_assoc]

theorem definitions_map_carry (f : Location → Location) (old new : Token) (es : List Entry) :
    definitions (es.map (Entry.carry f old new)) =
      (definitions es).map (Definition.relocate f) := by
  induction es with
  | nil => rfl
  | cons e es ih =>
    match e with
    | ⟨name, none, errors⟩ => exact ih
    | ⟨name, some rule, errors⟩ =>
      exact congrArg ((⟨name.relocate f, rule.relocate f⟩ : Definition) :: ·) ih

end Parser

end CstGrammar
