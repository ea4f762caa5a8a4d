import CstGrammar.Json.Basic
import CstGrammar.Proofs.Grammar.RoundTrip
import CstGrammar.Proofs.Json.Reader

namespace CstGrammar

namespace Json

/-- Whether the keys of each object in the value come in the order of their characters, and none
comes twice. -/
inductive Ordered : Json → Prop
  | null : Ordered null
  | string {value} : Ordered (string value)
  | array {items} : (∀ v ∈ items, Ordered v) → Ordered (array items)
  | object {members} : members.Pairwise (fun m n ↦ m.1.toList < n.1.toList) →
      (∀ m ∈ members, Ordered m.2) → Ordered (object members)

theorem Ordered.single {key : String} {value : Json} (h : value.Ordered) :
    (Json.object [(key, value)]).Ordered := by
  refine .object (List.pairwise_singleton _ _) fun m hm ↦ ?_
  rw [List.mem_singleton.mp hm]
  exact h

end Json

namespace Rule

variable (label : String) (loc : Location) (part : Option Rule) (rules : List Rule)
  (parts : List (Option Rule))

theorem toJson_labeled : (labeled label part loc).toJson =
    .object [("label", .string label), ("rule", part.elim .null toJson)] := by
  rw [toJson, fold_labeled]
  cases part <;> rfl

theorem toJson_seq : (seq rules).toJson = .object [("seq", .array (rules.map toJson))] :=
  fold_seq _ rules

theorem toJson_alt :
    (alt parts).toJson = .object [("alt", .array (parts.map (·.elim .null toJson)))] := by
  have hparts : parts.map ((·.getD .null) ∘ Option.map toJson) =
      parts.map (·.elim .null toJson) := by
    apply List.map_congr_left
    intro part _
    cases part <;> rfl
  rw [← hparts, ← List.map_map]
  exact fold_alt _ parts

theorem toJson_bare (rule : Rule) : rule.bare.toJson = rule.toJson :=
  fold_bare _ (fun _ _ ↦ rfl) (fun _ _ ↦ rfl) (fun _ _ _ ↦ rfl) rule

theorem ordered_toJson (rule : Rule) : rule.toJson.Ordered := by
  induction rule using Rule.induction with
  | node name loc => exact .single .string
  | literal value loc => exact .single .string
  | labeled label part loc ih =>
    rw [toJson_labeled]
    have hlt : "label".toList < "rule".toList := by decide
    refine .object (List.pairwise_pair.mpr hlt) ?_
    refine List.forall_mem_cons.mpr ⟨.string, List.forall_mem_singleton.mpr ?_⟩
    cases part with
    | none => exact .null
    | some rule => exact ih rule rfl
  | seq rules ih =>
    rw [toJson_seq]
    exact .single (.array (List.forall_mem_map.mpr ih))
  | alt parts ih =>
    rw [toJson_alt]
    refine .single (.array (List.forall_mem_map.mpr fun part hp ↦ ?_))
    cases part with
    | none => exact .null
    | some rule => exact ih rule hp
  | opt rule ih | rep rule ih => exact .single ih

mutual

def ofJson? : Json → Option Rule
  | .object [("node", .string name)] => some (.node name .start)
  | .object [("token", .string value)] => some (.literal value .start)
  | .object [("label", .string label), ("rule", .null)] => some (.labeled label none .start)
  | .object [("label", .string label), ("rule", value)] =>
    (ofJson? value).map (fun rule ↦ .labeled label (some rule) .start)
  | .object [("seq", .array items)] => (allOfJson? items).map .seq
  | .object [("alt", .array items)] => (partsOfJson? items).map .alt
  | .object [("opt", value)] => (ofJson? value).map .opt
  | .object [("rep", value)] => (ofJson? value).map .rep
  | _ => none

def allOfJson? : List Json → Option (List Rule)
  | [] => some []
  | item :: items => do return (← ofJson? item) :: (← allOfJson? items)

def partsOfJson? : List Json → Option (List (Option Rule))
  | [] => some []
  | .null :: items => do return none :: (← partsOfJson? items)
  | item :: items => do return some (← ofJson? item) :: (← partsOfJson? items)

end

theorem toJson_ne_null (rule : Rule) : rule.toJson ≠ .null := by
  cases rule <;> exact nofun

theorem allOfJson?_map {rules : List Rule} (h : ∀ r ∈ rules, ofJson? r.toJson = some r.bare) :
    allOfJson? (rules.map toJson) = some (rules.map bare) := by
  induction rules with
  | nil => rw [List.map_nil, allOfJson?, List.map_nil]
  | cons rule rules ih =>
    obtain ⟨hr, hrs⟩ := List.forall_mem_cons.mp h
    rw [List.map_cons, allOfJson?, hr, ih hrs]
    rfl

theorem partsOfJson?_map {parts : List (Option Rule)}
    (h : ∀ r, some r ∈ parts → ofJson? r.toJson = some r.bare) :
    partsOfJson? (parts.map (·.elim .null toJson)) = some (parts.map (Option.map bare)) := by
  induction parts with
  | nil => rw [List.map_nil, partsOfJson?, List.map_nil]
  | cons part parts ih =>
    have hps := ih fun r hr ↦ h r (List.mem_cons_of_mem part hr)
    cases part with
    | none =>
      rw [List.map_cons, Option.elim_none, partsOfJson?, hps]
      rfl
    | some rule =>
      rw [List.map_cons, Option.elim_some, partsOfJson?, h rule List.mem_cons_self, hps]
      · rfl
      · exact rule.toJson_ne_null

theorem ofJson?_toJson (rule : Rule) : ofJson? rule.toJson = some rule.bare := by
  induction rule using Rule.induction with
  | node name loc =>
    change ofJson? (.object [("node", .string name)]) = _
    rw [ofJson?]
    rfl
  | literal value loc =>
    change ofJson? (.object [("token", .string value)]) = _
    rw [ofJson?]
    rfl
  | labeled label part loc ih =>
    rw [toJson_labeled, bare_labeled]
    cases part with
    | none =>
      rw [Option.elim_none, ofJson?]
      rfl
    | some rule =>
      rw [Option.elim_some, ofJson?, ih rule rfl]
      · rfl
      · exact rule.toJson_ne_null
  | seq rules ih =>
    rw [toJson_seq, ofJson?, allOfJson?_map ih, bare_seq]
    rfl
  | alt parts ih =>
    rw [toJson_alt, ofJson?, partsOfJson?_map ih, bare_alt]
    rfl
  | opt rule ih =>
    change ofJson? (.object [("opt", rule.toJson)]) = _
    rw [ofJson?, ih]
    rfl
  | rep rule ih =>
    change ofJson? (.object [("rep", rule.toJson)]) = _
    rw [ofJson?, ih]
    rfl

end Rule

namespace Grammar

def ofJson? : Json → Option (List (String × Rule))
  | .object members => members.mapM (fun m ↦ (Rule.ofJson? m.2).map (m.1, ·))
  | _ => none

def ofJsonText? (text : String) : Option (List (String × Rule)) := (Json.ofText? text).bind ofJson?

theorem ofJson?_toJson (g : Grammar) : ofJson? g.toJson = some g.bareList := by
  have hall : ∀ ds : List (String × Rule),
      (ds.map (fun d ↦ (d.1, d.2.toJson))).mapM (fun m ↦ (Rule.ofJson? m.2).map (m.1, ·)) =
        some (ds.map (fun d ↦ (d.1, d.2.bare))) := by
    intro ds
    induction ds with
    | nil => rfl
    | cons d ds ih => simp [ih, Rule.ofJson?_toJson]
  exact hall g.toList

theorem ofJsonText?_text (g : Grammar) {l : Json.Layout} (hl : l.Blank) :
    ofJsonText? (g.toJson.text l) = some g.bareList := by
  rw [ofJsonText?, Json.ofText?_text hl]
  exact g.ofJson?_toJson

theorem ordered_toJson (g : Grammar) : g.toJson.Ordered := by
  refine .object (List.pairwise_map.mpr ?_) (List.forall_mem_map.mpr fun d _ ↦ d.2.ordered_toJson)
  refine Std.ExtTreeMap.ordered_keys_toList.imp fun {d e} hlt ↦ ?_
  exact String.lt_iff.mp (compareOfLessAndEq_eq_lt.mp hlt)

theorem toJson_congr {g h : Grammar} (heq : g.bareList = h.bareList) : g.toJson = h.toJson := by
  have hbare : ∀ g : Grammar, g.toJson =
      .object (g.bareList.map (fun d ↦ (d.1, d.2.toJson))) := by
    intro g
    rw [bareList, List.map_map]
    simp [toJson, Function.comp_def, Rule.toJson_bare]
  rw [hbare, hbare, heq]

theorem bareList_eq_iff {g h : Grammar} : g.bareList = h.bareList ↔
    ∀ name, (g.get? name).map Rule.bare = (h.get? name).map Rule.bare := by
  constructor
  · intro heq name
    apply Option.ext
    intro rule
    rw [← mem_bareList_iff, ← mem_bareList_iff, heq]
  · exact map_toList_congr Rule.bare Rule.bare

/-- The text of a grammar as JSON, be it compact or pretty, keeps all but the positions. -/
theorem ofJsonText?_toJson (g : Grammar) :
    ofJsonText? (g.toJson.text Json.compact) = some g.bareList ∧
    ofJsonText? (g.toJson.text Json.pretty) = some g.bareList ∧
    (∀ h : Grammar,
      (g.toJson.text Json.compact = h.toJson.text Json.compact ↔
        ∀ name, (g.get? name).map Rule.bare = (h.get? name).map Rule.bare) ∧
      (g.toJson.text Json.pretty = h.toJson.text Json.pretty ↔
        ∀ name, (g.get? name).map Rule.bare = (h.get? name).map Rule.bare)) ∧
    Json.ofText? (g.toJson.text Json.compact) = some g.toJson ∧
    Json.ofText? (g.toJson.text Json.pretty) = some g.toJson ∧ g.toJson.Ordered := by
  have hiff : ∀ {l : Json.Layout} (hl : l.Blank) (h : Grammar),
      g.toJson.text l = h.toJson.text l ↔
        ∀ name, (g.get? name).map Rule.bare = (h.get? name).map Rule.bare := by
    intro l hl h
    rw [← bareList_eq_iff]
    constructor
    · intro htext
      have hg := g.ofJsonText?_text hl
      rw [htext, h.ofJsonText?_text hl] at hg
      exact (Option.some.inj hg).symm
    · exact fun heq ↦ congrArg (Json.text l) (toJson_congr heq)
  exact ⟨g.ofJsonText?_text Json.blank_compact, g.ofJsonText?_text Json.blank_pretty,
    fun h ↦ ⟨hiff Json.blank_compact h, hiff Json.blank_pretty h⟩,
    Json.ofText?_text Json.blank_compact _, Json.ofText?_text Json.blank_pretty _, g.ordered_toJson⟩

end Grammar

end CstGrammar
