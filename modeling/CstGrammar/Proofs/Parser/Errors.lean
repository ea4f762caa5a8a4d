import CstGrammar.Proofs.Parser.Clauses
import CstGrammar.Proofs.Token.Order

namespace CstGrammar

def ParseError.isDuplicate (e : ParseError) : Bool :=
  match e.problem with
  | .duplicateName _ => true
  | _ => false

theorem ParseError.IsAt.isDuplicate_eq {e : ParseError} {t : Token} (h : e.IsAt t) :
    e.isDuplicate = false := by
  rw [isDuplicate]
  split
  · next name hp => exact absurd hp (h.not_duplicate name)
  · rfl

namespace Parser

def Entry.repetition (earlier : List Entry) (e : Entry) : ErrorList :=
  if e.rule.isSome then Definition.repeated ((definitions earlier).map (·.name.value)) e.name
  else []

theorem definitions_concat (es : List Entry) (e : Entry) :
    definitions (es ++ [e]) = definitions es ++ e.definition?.toList := by
  rw [definitions, List.filterMap_append]
  cases h : e.definition? <;> simp [h, definitions]

theorem reports_eq_flatMap_of_mem {seen : List String} {before : List Entry} (es : List Entry)
    (hs : ∀ name, name ∈ seen ↔ name ∈ (definitions before).map (·.name.value)) :
    reports seen es = (es.zip (es.inits.map (before ++ ·))).flatMap
      (fun r ↦ r.1.errors ++ r.1.repetition r.2) := by
  induction es generalizing seen before with
  | nil => rfl
  | cons e es ih =>
    have hinits : (e :: es).inits.map (before ++ ·) =
        before :: es.inits.map ((before ++ [e]) ++ ·) := by
      simp [Function.comp_def]
    rw [hinits, List.zip_cons_cons, List.flatMap_cons]
    match e with
    | ⟨name, none, errors⟩ =>
      have hs' : ∀ n, n ∈ seen ↔
          n ∈ (definitions (before ++ [⟨name, none, errors⟩])).map (·.name.value) := by
        intro n
        rw [hs, definitions_concat]
        simp [Entry.definition?]
      rw [← ih hs']
      simp [reports, Entry.repetition]
    | ⟨name, some rule, errors⟩ =>
      have hs' : ∀ n, n ∈ name.value :: seen ↔
          n ∈ (definitions (before ++ [⟨name, some rule, errors⟩])).map (·.name.value) := by
        intro n
        rw [List.mem_cons, hs, definitions_concat]
        simp [Entry.definition?, or_comm]
      rw [← ih hs']
      simp [reports, Entry.repetition, Definition.repeated, hs]

theorem reports_eq_flatMap (es : List Entry) : reports [] es =
    (es.zip es.inits).flatMap (fun r ↦ r.1.errors ++ r.1.repetition r.2) := by
  have h := @reports_eq_flatMap_of_mem [] [] es (fun _ ↦ Iff.rfl)
  simpa using h

theorem isDuplicate_of_mem_repeated {seen : List String} {name : Token} {e : ParseError}
    (h : e ∈ Definition.repeated seen name) : e.isDuplicate = true := by
  rw [Definition.repeated] at h
  split at h
  · rw [List.mem_singleton.mp h]
    rfl
  · cases h

theorem filter_reports {seen : List String} {es : List Entry}
    (h : ∀ e ∈ es, ∀ err ∈ e.errors, err.isDuplicate = false) :
    (reports seen es).filter (!·.isDuplicate) = es.flatMap (·.errors) := by
  have hown : ∀ errors : ErrorList, (∀ err ∈ errors, err.isDuplicate = false) →
      errors.filter (!·.isDuplicate) = errors := by
    intro errors hd
    rw [List.filter_eq_self]
    intro err hm
    rw [hd err hm]
    rfl
  induction es generalizing seen with
  | nil => rfl
  | cons e es ih =>
    obtain ⟨he, hes⟩ := List.forall_mem_cons.mp h
    match e with
    | ⟨name, none, errors⟩ =>
      change (errors ++ reports seen es).filter _ = errors ++ es.flatMap _
      rw [List.filter_append, hown errors he, ih hes]
    | ⟨name, some rule, errors⟩ =>
      have hrep : (Definition.repeated seen name).filter (!·.isDuplicate) = [] := by
        rw [List.filter_eq_nil_iff]
        intro err hm
        simp [isDuplicate_of_mem_repeated hm]
      change (errors ++ Definition.repeated seen name ++ reports (name.value :: seen) es).filter _ =
        errors ++ es.flatMap _
      rw [List.filter_append, List.filter_append, hown errors he, hrep, ih hes, List.append_nil]

theorem suffix_of_mem_clauses {ts : List Token} {c : Clause} (hc : c ∈ clauses ts) :
    c.tokens ++ c.next <:+ ts := by
  obtain ⟨us, hus, hof⟩ := List.mem_filterMap.mp hc
  rw [List.mem_tails] at hus
  match us, hof with
  | name :: equals :: vs, hof =>
    rw [Clause.ofTokens?] at hof
    split at hof
    · cases hof
      rwa [Clause.tokens, List.cons_append, List.cons_append, stretch_append_resume]
    · cases hof

theorem pairwise_clauses (ts : List Token) :
    (clauses ts).Pairwise (fun c d ↦ d.tokens ++ d.next <:+ c.next) := by
  induction ts using text_induction .start with
  | nil => exact .nil
  | @definition name equals ts rest v log hn he hrun ih =>
    obtain ⟨c, hc, -, -, hnext, -⟩ := clauses_of_run hn he hrun
    rw [hc]
    refine .cons (fun d hd ↦ ?_) ih
    rw [← clauses_resume, ← hnext] at hd
    exact suffix_of_mem_clauses hd
  | @skipped t ts hs ih =>
    rw [clauses_of_skipped hs]
    exact ih

def Sorted (finish : Location) (ts : List Token) : Prop :=
  ts.Pairwise (·.location < ·.location) ∧ ∀ t ∈ ts, t.location ≤ finish

variable {finish : Location} {ts us : List Token}

theorem Sorted.suffix (h : Sorted finish ts) (hs : us <:+ ts) : Sorted finish us :=
  ⟨h.1.sublist hs.sublist, fun t ht ↦ h.2 t (hs.subset ht)⟩

/-- The end of the text counts as a last token, though it is where the one before may be. -/
theorem Sorted.pairwise_le (h : Sorted finish ts) :
    (ts ++ [Token.eof finish]).Pairwise (·.location ≤ ·.location) := by
  refine List.pairwise_append.mpr ⟨h.1.imp Location.le_of_lt, List.pairwise_singleton _ _, ?_⟩
  intro t ht u hu
  rw [List.mem_singleton.mp hu]
  exact h.2 t ht

theorem exists_look_cons (finish : Location) (ts : List Token) :
    ∃ us, ts ++ [Token.eof finish] = look finish ts :: us := by
  cases ts with
  | nil => exact ⟨[], rfl⟩
  | cons t ts => exact ⟨ts ++ [Token.eof finish], rfl⟩

namespace Clause

variable {c d : Clause} {e : ParseError}

theorem length_errors_le (finish : Location) (c : Clause) :
    (c.entry finish).errors.length ≤ 1 := by
  rcases c.outcome finish with ⟨_, -, -, he⟩ | ⟨_, _, e, -, -, he, -⟩
  · rw [he]
    exact Nat.zero_le 1
  · rw [he]
    exact Nat.le_refl 1

theorem length_errors_eq_one {finish : Location} {c : Clause} (h : (c.entry finish).rule = none) :
    (c.entry finish).errors.length = 1 := by
  have hpos := List.length_pos_iff.mpr ((c.run finish).errors_of_fails h)
  rw [c.errorsOf_log_reply] at hpos
  exact Nat.le_antisymm (c.length_errors_le finish) hpos

theorem exists_isAt (he : e ∈ (c.entry finish).errors) :
    ∃ t ∈ c.body ++ [look finish c.next], e.IsAt t := by
  rcases c.outcome finish with ⟨_, -, -, hnil⟩ | ⟨taken, left, err, hbody, -, herr, hat⟩
  · rw [hnil] at he
    cases he
  · rw [herr] at he
    obtain rfl := List.mem_singleton.mp he
    refine ⟨_, ?_, hat⟩
    rw [hbody]
    cases left with
    | nil => exact List.mem_append_right _ List.mem_cons_self
    | cons t left => simp

/-- The error of a definition is behind its name and not behind the name of the next one. -/
theorem location_of_mem (hs : Sorted finish (c.tokens ++ c.next))
    (he : e ∈ (c.entry finish).errors) :
    c.name.location < e.location ∧ e.location ≤ (look finish c.next).location := by
  obtain ⟨t, ht, hat⟩ := exists_isAt he
  obtain ⟨us, hus⟩ := exists_look_cons finish c.next
  have hbehind : c.equals :: c.body ++ c.next <:+ c.tokens ++ c.next := List.suffix_cons _ _
  have hle := (hs.suffix hbehind).pairwise_le
  rw [List.cons_append, List.cons_append, List.append_assoc, hus, List.append_cons,
    List.pairwise_cons, List.pairwise_append] at hle
  obtain ⟨hequals, hbody, -⟩ := hle
  have hname : c.name.location < c.equals.location :=
    List.rel_of_pairwise_cons hs.1 List.mem_cons_self
  rw [hat.1]
  refine ⟨Location.lt_of_lt_of_le hname (hequals t (List.mem_append_left us ht)), ?_⟩
  rcases List.mem_append.mp ht with ht | ht
  · exact (List.pairwise_append.mp hbody).2.2 t ht _ List.mem_cons_self
  · rw [List.mem_singleton.mp ht]
    exact Location.le_refl _

end Clause

theorem Sorted.look_le (h : Sorted finish ts) {t : Token} (ht : t ∈ ts) :
    (look finish ts).location ≤ t.location := by
  cases ts with
  | nil => cases ht
  | cons u us =>
    rcases List.mem_cons.mp ht with rfl | ht
    · exact Location.le_refl _
    · exact Location.le_of_lt (List.rel_of_pairwise_cons h.1 ht)

/-- The errors found in a text are in the order of their positions, and no two are at the same. -/
theorem sorted_errors (hs : Sorted finish ts) :
    ((clauses ts).flatMap (fun c ↦ (c.entry finish).errors)).Pairwise
      (·.location < ·.location) := by
  rw [List.pairwise_flatMap]
  constructor
  · intro c _
    have hl := c.length_errors_le finish
    match (c.entry finish).errors, hl with
    | [], _ => exact .nil
    | [e], _ => exact List.pairwise_singleton _ e
  · refine (pairwise_clauses ts).imp_of_mem ?_
    intro c d hc _ hd e he err herr
    have hcs := hs.suffix (suffix_of_mem_clauses hc)
    have hds := hcs.suffix (hd.trans (List.suffix_append _ _))
    have hname : d.name ∈ c.next := hd.subset List.mem_cons_self
    have hnext := (hcs.suffix (List.suffix_append _ _)).look_le hname
    have hle := Location.le_trans (Clause.location_of_mem hcs he).2 hnext
    exact Location.lt_of_le_of_lt hle (Clause.location_of_mem hds herr).1

end Parser

namespace Parse

open CstGrammar.Parser

theorem isDuplicate_of_mem_entries {finish : Location} {ts : List Token} {e : Entry}
    (he : e ∈ entries finish ts) : ∀ err ∈ e.errors, err.isDuplicate = false := by
  intro err herr
  rw [entries_eq_map] at he
  obtain ⟨c, -, rfl⟩ := List.mem_map.mp he
  obtain ⟨t, -, ht⟩ := Clause.exists_isAt herr
  exact ht.isDuplicate_eq

theorem filter_errors_ofTokens (s : TokenStream) : (ofTokens s).errors.filter (!·.isDuplicate) =
    (entries s.finish s.tokens).flatMap (·.errors) := by
  rw [errors_ofTokens]
  apply filter_reports
  intro e he
  exact isDuplicate_of_mem_entries he

/-- Each definition has at most one error of its own, and one if it gives no rule. These errors are
in the order of the text, each in its own definition, and a name that is defined again is reported
behind the error of its definition. -/
theorem ofSource_errors (source : String) :
    let s := TokenStream.ofSource source
    let p := ofSource source
    let cs := clauses s.tokens
    let es := cs.map (Clause.entry s.finish)
    (passages s.finish s.tokens).filter Passage.isDefinition = cs.map (Clause.passage s.finish) ∧
    p.grammar = Grammar.defineAll {} (definitions es) ∧
    (∀ e ∈ es, e.errors.length ≤ 1 ∧ (e.rule = none → e.errors.length = 1)) ∧
    (p.errors.filter (!·.isDuplicate) = es.flatMap (·.errors) ∧
      (es.flatMap (·.errors)).Pairwise (·.location < ·.location)) ∧
    (∀ c ∈ cs, ∀ err ∈ (c.entry s.finish).errors,
      ∃ t ∈ c.body ++ [look s.finish c.next], err.IsAt t) ∧
    p.errors = (es.zip es.inits).flatMap (fun r ↦ r.1.errors ++ r.1.repetition r.2) := by
  intro s p cs es
  have hes : entries s.finish s.tokens = es := entries_eq_map s.tokens
  have hreports : p.errors = reports [] es := hes ▸ errors_ofTokens s
  have hat : ∀ c : Clause, ∀ err ∈ (c.entry s.finish).errors,
      ∃ t ∈ c.body ++ [look s.finish c.next], err.IsAt t := fun c err ↦ Clause.exists_isAt
  refine ⟨filter_passages s.tokens, hes ▸ grammar_ofTokens s, ?_, ⟨?_, ?_⟩, fun c _ ↦ hat c, ?_⟩
  · intro e he
    obtain ⟨c, -, rfl⟩ := List.mem_map.mp he
    exact ⟨c.length_errors_le s.finish, Clause.length_errors_eq_one⟩
  · rw [← hes]
    exact filter_errors_ofTokens s
  · rw [List.flatMap_map]
    exact sorted_errors (TokenStream.sorted_ofSource source)
  · rw [hreports]
    exact reports_eq_flatMap es

end Parse

end CstGrammar
