import CstGrammar.Parser.Grammar
import CstGrammar.Proofs.Grammar.Definition
import CstGrammar.Proofs.Parser.Progress

namespace CstGrammar

namespace Parser

/-- What the text of one definition comes to. -/
structure Entry where
  name : Token
  rule : Option Rule
  errors : ErrorList
  deriving DecidableEq, Repr

def Entry.definition? (e : Entry) : Option Definition := e.rule.map (⟨e.name, ·⟩)

def Passage.entry? : Passage → Option Entry
  | .skipped _ => none
  | .definition name rule errors _ => some ⟨name, rule, errors⟩

def Passage.errors : Passage → ErrorList
  | .skipped _ => []
  | .definition _ _ errors _ => errors

def Passage.log : Passage → List Event
  | .skipped log | .definition _ _ _ log => log

def entries (finish : Location) (ts : List Token) : List Entry :=
  (passages finish ts).filterMap Passage.entry?

def definitions (es : List Entry) : List Definition := es.filterMap Entry.definition?

/-- All that is reported on the definitions, where the names `seen` are defined already. -/
def reports (seen : List String) : List Entry → ErrorList
  | [] => []
  | ⟨_, none, errors⟩ :: es => errors ++ reports seen es
  | ⟨name, some _, errors⟩ :: es =>
    errors ++ Definition.repeated seen name ++ reports (name.value :: seen) es

variable {finish : Location}

/-- Texts are empty, or start with a definition, behind which a text follows again, or with tokens
to skip, up to the next boundary. -/
theorem text_induction (finish : Location) {motive : List Token → Prop} (nil : motive [])
    (definition : ∀ {name equals ts rest v log}, name.kind = .node → equals.kind = .equals →
      Run finish .alt ts v rest log → motive rest → motive (name :: equals :: ts))
    (skipped : ∀ {t ts}, startsDefinition (t :: ts) = false → motive (resume ts) →
      motive (t :: ts)) (ts : List Token) : motive ts := by
  by_cases hs : startsDefinition ts = true
  · obtain ⟨name, equals, us, rfl, hn, he⟩ := exists_of_startsDefinition hs
    have hl := (alt finish us).rest_lt
    exact definition hn he (run_alt finish us)
      (text_induction finish nil definition skipped (alt finish us).rest)
  · cases ts with
    | nil => exact nil
    | cons t ts =>
      have hl := length_resume_le ts
      exact skipped (by simpa using hs)
        (text_induction finish nil definition skipped (resume ts))
termination_by ts.length
decreasing_by all_goals subst_vars; simp only [List.length_cons]; omega

theorem passages_of_run {name equals : Token} {ts rest : List Token} {v : Option Rule}
    {log : List Event} (hn : name.kind = .node) (he : equals.kind = .equals)
    (h : Run finish .alt ts v rest log) : passages finish (name :: equals :: ts) =
      .definition name v (errorsOf log) (pulls finish 2 (name :: equals :: ts) ++ log) ::
        passages finish rest := by
  have hs : startsDefinition (name :: equals :: ts) = true := by simp [startsDefinition, hn, he]
  obtain ⟨hr, hv⟩ := h.gives
  rw [passages, if_pos hs]
  change .definition name (alt finish ts).value (alt finish ts).errors
    (pulls finish 2 _ ++ (alt finish ts).log) :: passages finish (alt finish ts).rest = _
  rw [hv]

theorem passages_of_not_starts {t : Token} {ts : List Token}
    (hs : startsDefinition (t :: ts) = false) : passages finish (t :: ts) =
      .skipped (recovery finish (t :: ts)) :: passages finish (resume ts) := by
  rw [passages, if_neg (by simp [hs])]

theorem entries_nil : entries finish [] = [] := by
  rw [entries, passages]
  rfl

theorem entries_of_run {name equals : Token} {ts rest : List Token} {v : Option Rule}
    {log : List Event} (hn : name.kind = .node) (he : equals.kind = .equals)
    (h : Run finish .alt ts v rest log) : entries finish (name :: equals :: ts) =
      ⟨name, v, errorsOf log⟩ :: entries finish rest := by
  rw [entries, passages_of_run hn he h]
  rfl

theorem entries_cons {t : Token} {ts : List Token} (hs : startsDefinition (t :: ts) = false) :
    entries finish (t :: ts) = entries finish (resume ts) := by
  rw [entries, passages_of_not_starts hs, List.filterMap_cons_none rfl, entries]

theorem grammar_assemble (g : Grammar) (ps : List Passage) :
    (assemble g ps).grammar = g.defineAll (definitions (ps.filterMap Passage.entry?)) := by
  induction ps generalizing g with
  | nil => rfl
  | cons p ps ih =>
    match p with
    | .skipped log | .definition name none errors log => exact ih g
    | .definition name (some rule) errors log =>
      rw [assemble]
      split <;> exact ih (g.insert name.value name.location rule)

theorem errors_assemble (g : Grammar) (ps : List Passage) {seen : List String}
    (hs : ∀ name, name ∈ seen ↔ g.contains name = true) :
    (assemble g ps).errors = reports seen (ps.filterMap Passage.entry?) := by
  induction ps generalizing g seen with
  | nil => rfl
  | cons p ps ih =>
    match p with
    | .skipped log => exact ih g hs
    | .definition name none errors log => exact congrArg (errors ++ ·) (ih g hs)
    | .definition name (some rule) errors log =>
      have hi := ih (g.define ⟨name, rule⟩) (Grammar.mem_cons_iff_contains hs ⟨name, rule⟩)
      change _ = errors ++ Definition.repeated seen name ++ reports (name.value :: seen) _
      rw [assemble, Definition.repeated, ← hi]
      by_cases hc : g.contains name.value = true
      · rw [if_pos hc, if_pos ((hs _).mpr hc), List.append_assoc]
        rfl
      · rw [if_neg hc, if_neg (mt (hs _).mp hc), List.append_nil]
        rfl

/-- The errors are those in the log, if each passage tells of its own. -/
theorem errorsOf_assemble (g : Grammar) {ps : List Passage}
    (h : ∀ p ∈ ps, errorsOf p.log = p.errors) :
    errorsOf (assemble g ps).log = (assemble g ps).errors := by
  induction ps generalizing g with
  | nil => rfl
  | cons p ps ih =>
    obtain ⟨hp, hps⟩ := List.forall_mem_cons.mp h
    match p with
    | .skipped log =>
      change errorsOf (log ++ (assemble g ps).log) = (assemble g ps).errors
      rw [errorsOf_append, ih g hps]
      exact congrArg (· ++ (assemble g ps).errors) hp
    | .definition name none errors log =>
      change errorsOf (log ++ (assemble g ps).log) = errors ++ (assemble g ps).errors
      rw [errorsOf_append, ih g hps]
      exact congrArg (· ++ (assemble g ps).errors) hp
    | .definition name (some rule) errors log =>
      have hi := ih (g.insert name.value name.location rule) hps
      have hlog : errorsOf log = errors := hp
      rw [assemble]
      split
      · rw [errorsOf_append, errorsOf_reported, hlog, hi]
      · rw [errorsOf_append, hlog, hi]

theorem mem_log_assemble (g : Grammar) {ps : List Passage} {p : Passage} {e : Event}
    (hp : p ∈ ps) (he : e ∈ p.log) : e ∈ (assemble g ps).log := by
  induction ps generalizing g with
  | nil => cases hp
  | cons q ps ih =>
    match q with
    | .skipped log | .definition name none errors log =>
      change e ∈ log ++ (assemble g ps).log
      rcases List.mem_cons.mp hp with rfl | hp
      · exact List.mem_append_left _ he
      · exact List.mem_append_right _ (ih g hp)
    | .definition name (some rule) errors log =>
      have hg := ih (g.insert name.value name.location rule)
      rw [assemble]
      rcases List.mem_cons.mp hp with rfl | hp
      · split <;> exact List.mem_append_left _ he
      · split
        · exact List.mem_append_right _ (List.mem_cons_of_mem _ (hg hp))
        · exact List.mem_append_right _ (hg hp)

theorem any_isSkip_assemble (g : Grammar) (ps : List Passage) :
    (assemble g ps).log.any Event.isSkip = ps.any (·.log.any Event.isSkip) := by
  induction ps generalizing g with
  | nil => rfl
  | cons p ps ih =>
    rw [List.any_cons]
    match p with
    | .skipped log | .definition name none errors log =>
      change (log ++ (assemble g ps).log).any Event.isSkip = _
      rw [List.any_append, ih]
      rfl
    | .definition name (some rule) errors log =>
      rw [← ih (g.insert name.value name.location rule), assemble]
      split
      · exact List.any_append
      · exact List.any_append

theorem exists_of_mem_passages {ts : List Token} {p : Passage} (hm : p ∈ passages finish ts) :
    (∃ u us, startsDefinition (u :: us) = false ∧ p = .skipped (recovery finish (u :: us))) ∨
    ∃ name us vs v rest log, name.kind = .node ∧ name ∈ ts ∧ vs <:+ ts ∧
      Run finish .alt vs v rest log ∧
      p = .definition name v (errorsOf log) (pulls finish 2 us ++ log) := by
  induction ts using text_induction finish with
  | nil => simp [passages] at hm
  | @definition name equals ts rest v log hn he h ih =>
    have hsuf : ts <:+ name :: equals :: ts := (List.suffix_cons _ _).trans (List.suffix_cons _ _)
    rw [passages_of_run hn he h, List.mem_cons] at hm
    rcases hm with hm | hm
    · exact .inr ⟨name, _, ts, v, rest, log, hn, List.mem_cons_self, hsuf, h, hm⟩
    · have hrest : rest <:+ name :: equals :: ts := h.suffix.trans hsuf
      rcases ih hm with hp | ⟨n, us', vs, w, mid, log', hk, hmem, hvs, hp⟩
      · exact .inl hp
      · exact .inr ⟨n, us', vs, w, mid, log', hk, hrest.subset hmem, hvs.trans hrest, hp⟩
  | @skipped t ts hs ih =>
    rw [passages_of_not_starts hs, List.mem_cons] at hm
    rcases hm with hm | hm
    · exact .inl ⟨t, ts, hs, hm⟩
    · have hrest : resume ts <:+ t :: ts := (resume_suffix ts).trans (List.suffix_cons _ _)
      rcases ih hm with hp | ⟨n, us', vs, w, mid, log', hk, hmem, hvs, hp⟩
      · exact .inl hp
      · exact .inr ⟨n, us', vs, w, mid, log', hk, hrest.subset hmem, hvs.trans hrest, hp⟩

/-- Each passage tells of its errors. -/
theorem errorsOf_log_of_mem_passages {ts : List Token} {p : Passage} (hm : p ∈ passages finish ts) :
    errorsOf p.log = p.errors := by
  rcases exists_of_mem_passages hm with ⟨u, us, -, rfl⟩ | ⟨_, us, _, _, _, log, -, -, -, -, rfl⟩
  · exact errorsOf_recovery _
  · change errorsOf (pulls finish 2 us ++ log) = errorsOf log
    rw [errorsOf_append, errorsOf_pulls, List.nil_append]

/-- Each rule comes from a run of the parser behind its name. -/
theorem exists_run_of_mem_definitions {ts : List Token} {d : Definition}
    (hd : d ∈ definitions (entries finish ts)) : d.name.kind = .node ∧ d.name ∈ ts ∧
      ∃ us rest log, us <:+ ts ∧ Run finish .alt us (some d.rule) rest log := by
  obtain ⟨e, he, hed⟩ := List.mem_filterMap.mp hd
  obtain ⟨p, hp, hpe⟩ := List.mem_filterMap.mp he
  rcases exists_of_mem_passages hp with
    ⟨_, _, -, rfl⟩ | ⟨name, _, us, v, rest, log, hk, hm, hs, hrun, rfl⟩
  · cases hpe
  · cases hpe
    obtain ⟨rule, rfl, rfl⟩ := Option.map_eq_some_iff.mp hed
    exact ⟨hk, hm, us, rest, log, hs, hrun⟩

theorem reports_of_clean {seen : List String} {es : List Entry} (h : ∀ e ∈ es, e.errors = []) :
    reports seen es = Definition.repetitions seen (definitions es) := by
  induction es generalizing seen with
  | nil => rfl
  | cons e es ih =>
    obtain ⟨he, hes⟩ := List.forall_mem_cons.mp h
    match e with
    | ⟨name, none, errors⟩ =>
      obtain rfl : errors = [] := he
      exact ih hes
    | ⟨name, some rule, errors⟩ =>
      obtain rfl : errors = [] := he
      exact congrArg (Definition.repeated seen name ++ ·) (ih hes)

theorem length_reports (seen : List String) (es : List Entry) : (reports seen es).length =
    (es.flatMap (·.errors)).length + (Definition.repetitions seen (definitions es)).length := by
  induction es generalizing seen with
  | nil => rfl
  | cons e es ih =>
    rw [List.flatMap_cons, List.length_append]
    match e with
    | ⟨name, none, errors⟩ =>
      change (errors ++ reports seen es).length = errors.length + _ +
        (Definition.repetitions seen (definitions es)).length
      rw [List.length_append, ih, Nat.add_assoc]
    | ⟨name, some rule, errors⟩ =>
      change (errors ++ Definition.repeated seen name ++ reports (name.value :: seen) es).length =
        errors.length + _ + (Definition.repeated seen name ++
          Definition.repetitions (name.value :: seen) (definitions es)).length
      rw [List.length_append, List.length_append, List.length_append, ih]
      omega

end Parser

namespace Parse

open CstGrammar.Parser

theorem grammar_ofTokens (s : TokenStream) :
    (ofTokens s).grammar = Grammar.defineAll {} (definitions (entries s.finish s.tokens)) :=
  grammar_assemble {} (passages s.finish s.tokens)

theorem errors_ofTokens (s : TokenStream) :
    (ofTokens s).errors = reports [] (entries s.finish s.tokens) :=
  errors_assemble {} (passages s.finish s.tokens) Grammar.mem_nil_iff_contains

/-- The errors of a parse are those that its log reports. -/
theorem errorsOf_log_ofTokens (s : TokenStream) :
    errorsOf (ofTokens s).log = (ofTokens s).errors := by
  have hpassages : ∀ p ∈ passages s.finish s.tokens, errorsOf p.log = p.errors :=
    fun p ↦ errorsOf_log_of_mem_passages
  have hall := errorsOf_assemble {} hpassages
  rw [ofTokens, errorsOf_append]
  exact (List.append_nil _).trans hall

theorem any_isSkip_ofTokens (s : TokenStream) : (ofTokens s).log.any Event.isSkip =
    (passages s.finish s.tokens).any (·.log.any Event.isSkip) := by
  rw [ofTokens, List.any_append, any_isSkip_assemble]
  exact Bool.or_false _

end Parse

end CstGrammar
