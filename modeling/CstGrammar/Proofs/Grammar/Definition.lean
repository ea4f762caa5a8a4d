import CstGrammar.Event
import CstGrammar.Grammar.Basic

namespace CstGrammar

structure Definition where
  name : Token
  rule : Rule
  deriving DecidableEq, Repr

namespace Definition

def last? (name : String) (ds : List Definition) : Option Definition :=
  ds.reverse.find? (·.name.value = name)

def repeated (seen : List String) (name : Token) : ErrorList :=
  if name.value ∈ seen then [⟨name.location, .duplicateName name.value⟩] else []

/-- The reports on definitions of names that are defined before. -/
def repetitions (seen : List String) : List Definition → ErrorList
  | [] => []
  | d :: ds => repeated seen d.name ++ repetitions (d.name.value :: seen) ds

theorem last?_cons (name : String) (d : Definition) (ds : List Definition) :
    last? name (d :: ds) = (last? name ds).or (if d.name.value = name then some d else none) := by
  simp [last?]

theorem last?_append (name : String) (ds es : List Definition) :
    last? name (ds ++ es) = (last? name es).or (last? name ds) := by
  rw [last?, List.reverse_append, List.find?_append]
  rfl

theorem mem_of_last? {name : String} {d : Definition} {ds : List Definition}
    (h : last? name ds = some d) : d ∈ ds ∧ d.name.value = name := by
  rw [last?, List.find?_eq_some_iff_append] at h
  obtain ⟨hv, as, bs, hr, -⟩ := h
  have hm : d ∈ ds.reverse := hr ▸ List.mem_append_right as List.mem_cons_self
  exact ⟨List.mem_reverse.mp hm, by simpa using hv⟩

theorem last?_eq_some_iff {name : String} {d : Definition} {ds : List Definition}
    (hd : (ds.map (·.name.value)).Nodup) :
    last? name ds = some d ↔ d ∈ ds ∧ d.name.value = name := by
  induction ds with
  | nil => simp [last?]
  | cons e ds ih =>
    rw [List.map_cons, List.nodup_cons] at hd
    rw [last?_cons, Option.or_eq_some_iff, ih hd.2, List.mem_cons]
    constructor
    · rintro (⟨hm, hn⟩ | ⟨-, he⟩)
      · exact ⟨.inr hm, hn⟩
      · split at he
        · next hn =>
          cases he
          exact ⟨.inl rfl, hn⟩
        · cases he
    · rintro ⟨rfl | hm, hn⟩
      · refine .inr ⟨Option.eq_none_iff_forall_ne_some.mpr fun f hf ↦ ?_, if_pos hn⟩
        obtain ⟨hm, hn'⟩ := mem_of_last? hf
        exact hd.1 (List.mem_map.mpr ⟨f, hm, hn'.trans hn.symm⟩)
      · exact .inl ⟨hm, hn⟩

theorem repetitions_eq_nil {seen : List String} {ds : List Definition}
    (hd : (ds.map (·.name.value)).Nodup) (hs : ∀ d ∈ ds, d.name.value ∉ seen) :
    repetitions seen ds = [] := by
  induction ds generalizing seen with
  | nil => rfl
  | cons d ds ih =>
    rw [List.map_cons, List.nodup_cons] at hd
    have hd' : ∀ e ∈ ds, e.name.value ∉ d.name.value :: seen := by
      intro e he hm
      rcases List.mem_cons.mp hm with hm | hm
      · exact hd.1 (hm ▸ List.mem_map_of_mem he)
      · exact hs e (List.mem_cons_of_mem d he) hm
    rw [repetitions, repeated, if_neg (hs d List.mem_cons_self), ih hd.2 hd']
    rfl

theorem duplicate_of_mem_repetitions {seen : List String} {ds : List Definition} (e : ParseError)
    (he : e ∈ repetitions seen ds) : ∃ name, e.problem = .duplicateName name := by
  induction ds generalizing seen with
  | nil => cases he
  | cons d ds ih =>
    rcases List.mem_append.mp he with he | he
    · rw [repeated] at he
      split at he
      · exact ⟨d.name.value, by rw [List.mem_singleton.mp he]⟩
      · cases he
    · exact ih he

end Definition

namespace Grammar

def define (g : Grammar) (d : Definition) : Grammar := g.insert d.name.value d.name.location d.rule

def defineAll (g : Grammar) (ds : List Definition) : Grammar := ds.foldl define g

theorem contains_iff (g : Grammar) (name : String) : g.contains name = (g.get? name).isSome :=
  Std.ExtTreeMap.contains_eq_isSome_getElem?

theorem get?_define (g : Grammar) (d : Definition) (name : String) :
    (g.define d).get? name = if d.name.value = name then some d.rule else g.get? name := by
  change (g.rules.insert _ _)[name]? = _
  rw [Std.ExtTreeMap.getElem?_insert]
  simp [Std.LawfulEqCmp.compare_eq_iff_eq, get?]

theorem locationOf?_define (g : Grammar) (d : Definition) (name : String) :
    (g.define d).locationOf? name =
      if d.name.value = name then some d.name.location else g.locationOf? name := by
  change (g.nameLocations.insert _ _)[name]? = _
  rw [Std.ExtTreeMap.getElem?_insert]
  simp [Std.LawfulEqCmp.compare_eq_iff_eq, locationOf?]

theorem contains_define (g : Grammar) (d : Definition) (name : String) :
    (g.define d).contains name = (decide (d.name.value = name) || g.contains name) := by
  rw [contains_iff, contains_iff, get?_define]
  by_cases h : d.name.value = name <;> simp [h]

theorem mem_nil_iff_contains (name : String) : name ∈ [] ↔ contains {} name = true := by
  simp [contains]

theorem mem_cons_iff_contains {g : Grammar} {seen : List String}
    (hs : ∀ name, name ∈ seen ↔ g.contains name = true) (d : Definition) (name : String) :
    name ∈ d.name.value :: seen ↔ (g.define d).contains name = true := by
  simp only [contains_define, List.mem_cons, hs, Bool.or_eq_true, decide_eq_true_eq,
    @eq_comm _ name]

theorem size_define (g : Grammar) (d : Definition) :
    (g.define d).size = if g.contains d.name.value then g.size else g.size + 1 :=
  Std.ExtTreeMap.size_insert

/-- The last definition of a name wins. -/
theorem defineAll_eq {α : Type} {name : String} (look : Grammar → Option α) (part : Definition → α)
    (h : ∀ g d, look (define g d) = if d.name.value = name then some (part d) else look g)
    (g : Grammar) (ds : List Definition) :
    look (g.defineAll ds) = ((Definition.last? name ds).map part).or (look g) := by
  induction ds generalizing g with
  | nil => rfl
  | cons d ds ih =>
    rw [defineAll, List.foldl_cons, ← defineAll, ih, h, Definition.last?_cons]
    cases Definition.last? name ds with
    | some e => rfl
    | none => by_cases hn : d.name.value = name <;> simp [hn]

theorem get?_defineAll (g : Grammar) (ds : List Definition) (name : String) :
    (g.defineAll ds).get? name =
      ((Definition.last? name ds).map Definition.rule).or (g.get? name) :=
  defineAll_eq (·.get? name) Definition.rule (fun g d ↦ get?_define g d name) g ds

theorem locationOf?_defineAll (g : Grammar) (ds : List Definition) (name : String) :
    (g.defineAll ds).locationOf? name =
      ((Definition.last? name ds).map (·.name.location)).or (g.locationOf? name) :=
  defineAll_eq (·.locationOf? name) (·.name.location)
    (fun g d ↦ locationOf?_define g d name) g ds

/-- Each definition makes the grammar larger or is reported. -/
theorem size_defineAll (g : Grammar) (ds : List Definition) {seen : List String}
    (hs : ∀ name, name ∈ seen ↔ g.contains name = true) :
    (g.defineAll ds).size + (Definition.repetitions seen ds).length = g.size + ds.length := by
  induction ds generalizing g seen with
  | nil => rfl
  | cons d ds ih =>
    have h := ih (g.define d) (mem_cons_iff_contains hs d)
    rw [size_define] at h
    rw [defineAll, List.foldl_cons, ← defineAll, Definition.repetitions, Definition.repeated,
      List.length_append, List.length_cons]
    by_cases hc : g.contains d.name.value = true
    · rw [if_pos hc] at h
      rw [if_pos ((hs _).mpr hc), List.length_singleton]
      omega
    · rw [if_neg hc] at h
      rw [if_neg (mt (hs _).mp hc), List.length_nil]
      omega

end Grammar

end CstGrammar
