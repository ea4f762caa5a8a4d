import CstGrammar.Proofs.Parser.Reach
import CstGrammar.Proofs.Rule.Words
import CstGrammar.Rule.Basic

namespace CstGrammar

def Token.isLegible (t : Token) : Bool :=
  if t.kind = .literal then '\'' ∉ t.value.toList else isName t.value

namespace Rule

/-- Whether it shows where each leaf ends in the canonical form. -/
def Legible (rule : Rule) : Prop := ∀ t ∈ rule.leaves, t.isLegible = true

instance (rule : Rule) : Decidable rule.Legible :=
  inferInstanceAs (Decidable (∀ t ∈ rule.leaves, t.isLegible = true))

def LegiblePart (part : Option Rule) : Prop := ∀ r ∈ part, r.Legible

section Legible

variable {name label value : String} {loc : Location} {rule : Rule} {part : Option Rule}
  {rules : List Rule} {parts : List (Option Rule)}

theorem Legible.node (h : (node name loc).Legible) : isName name = true := h _ List.mem_cons_self

theorem Legible.literal (h : (literal value loc).Legible) : '\'' ∉ value.toList :=
  of_decide_eq_true (h _ List.mem_cons_self)

theorem Legible.labeled (h : (labeled label part loc).Legible) :
    isName label = true ∧ LegiblePart part := by
  rw [Legible, leaves_labeled, List.forall_mem_cons] at h
  refine ⟨h.1, ?_⟩
  rintro r rfl
  exact h.2

theorem Legible.seq (h : (seq rules).Legible) : ∀ part ∈ rules.map some, LegiblePart part := by
  intro part hp
  obtain ⟨r, hr, rfl⟩ := List.mem_map.mp hp
  rintro _ ⟨⟩ t ht
  rw [Legible, leaves_seq] at h
  exact h t (List.mem_flatMap.mpr ⟨r, hr, ht⟩)

theorem Legible.alt (h : (alt parts).Legible) : ∀ part ∈ parts, LegiblePart part := by
  rintro _ hp r rfl t ht
  rw [Legible, leaves_alt] at h
  exact h t (List.mem_flatMap.mpr ⟨some r, hp, ht⟩)

theorem Legible.single (h : rule.Legible) : ∀ part ∈ [some rule], LegiblePart part := by
  intro part hp
  rw [List.mem_singleton.mp hp]
  rintro _ ⟨⟩
  exact h

end Legible

def canonicalPart (part : Option Rule) : List Char := part.elim absent canonical

def operands (parts : List (Option Rule)) : List Char :=
  List.intercalate [',', ' '] (parts.map canonicalPart)

def lead : Rule → List Char
  | node name _ => name.toList
  | literal .. => []
  | labeled label .. => label.toList
  | seq _ => ['S', 'e', 'q']
  | alt _ => ['A', 'l', 't']
  | opt _ => ['O', 'p', 't']
  | rep _ => ['R', 'e', 'p']

def body : Rule → List Char
  | node .. => []
  | literal value _ => '\'' :: value.toList ++ ['\'']
  | labeled _ part _ => ':' :: canonicalPart part
  | seq rules => '(' :: operands (rules.map some) ++ [')']
  | alt parts => '(' :: operands parts ++ [')']
  | opt rule | rep rule => '(' :: operands [some rule] ++ [')']

theorem canonical_eq (rule : Rule) : rule.canonical = rule.lead ++ rule.body := by
  have hpart : ∀ part : Option Rule, (part.map canonical).getD absent = canonicalPart part := by
    intro part
    cases part <;> rfl
  cases rule with
  | node name loc => exact (List.append_nil _).symm
  | literal | opt | rep => rfl
  | labeled label part loc =>
    rw [canonical, fold_labeled]
    exact congrArg (label.toList ++ ':' :: ·) (hpart part)
  | seq rules =>
    rw [canonical, fold_seq, lead, body, operands, List.map_map]
    rfl
  | alt parts =>
    have hparts : (parts.map (Option.map canonical)).map (·.getD absent) =
        parts.map canonicalPart := by
      rw [List.map_map]
      exact List.map_congr_left fun part _ ↦ hpart part
    rw [canonical, fold_alt]
    exact congrArg (applied ['A', 'l', 't']) hparts

/-- Whether the text starts with what follows a rule in a canonical form. -/
def Closes (cs : List Char) : Prop := ∀ c ∈ cs.head?, c = ',' ∨ c = ')'

theorem Closes.detached {cs : List Char} (h : Closes cs) : Detached cs := by
  intro c hc
  rcases h c hc with rfl | rfl <;> decide

theorem name_append_inj {cs ds us vs : List Char} (hc : ∀ c ∈ cs, isNameChar c = true)
    (hd : ∀ c ∈ ds, isNameChar c = true) (hu : Detached us) (hv : Detached vs)
    (h : cs ++ us = ds ++ vs) : cs = ds ∧ us = vs := by
  have hcs := span_name hc hu
  have hds := span_name hd hv
  rw [h] at hcs
  exact ⟨hcs.1.symm.trans hds.1, hcs.2.symm.trans hds.2⟩

theorem quoted_append_inj {cs ds us vs : List Char} (hc : '\'' ∉ cs) (hd : '\'' ∉ ds)
    (h : cs ++ '\'' :: us = ds ++ '\'' :: vs) : cs = ds ∧ us = vs := by
  induction cs generalizing ds with
  | nil =>
    cases ds with
    | nil => exact ⟨rfl, (List.cons.inj h).2⟩
    | cons d ds =>
      rw [← (List.cons.inj h).1] at hd
      exact absurd List.mem_cons_self hd
  | cons c cs ih =>
    cases ds with
    | nil =>
      rw [(List.cons.inj h).1] at hc
      exact absurd List.mem_cons_self hc
    | cons d ds =>
      obtain ⟨rfl, htail⟩ := List.cons.inj h
      obtain ⟨rfl, hrest⟩ :=
        ih (mt (List.mem_cons_of_mem _) hc) (mt (List.mem_cons_of_mem _) hd) htail
      exact ⟨rfl, hrest⟩

variable {rule : Rule} {part : Option Rule}

theorem isNameChar_of_isName {name : String} (h : isName name = true) :
    name.toList ≠ [] ∧ ∀ c ∈ name.toList, isNameChar c = true := by
  simpa [isName] using h

theorem Legible.isNameChar_lead (h : rule.Legible) : ∀ c ∈ rule.lead, isNameChar c = true := by
  cases rule with
  | node => exact (isNameChar_of_isName h.node).2
  | literal => exact nofun
  | labeled => exact (isNameChar_of_isName h.labeled.1).2
  | seq | alt | opt | rep => exact List.all_eq_true.mp rfl

/-- A name is closed by what follows it, and no other rule starts as it is closed. -/
theorem detached_body_append (rule : Rule) {rest : List Char} (h : Closes rest) :
    Detached (rule.body ++ rest) := by
  cases rule with
  | node => exact h.detached
  | literal | labeled | seq | alt | opt | rep => exact detached_cons (by decide) _

theorem head?_body_inj {r s : Rule} {us vs : List Char} (hu : Closes us) (hv : Closes vs)
    (h : r.body ++ us = s.body ++ vs) : r.body.head? = s.body.head? := by
  have hopen (rule : Rule) : ∀ c ∈ rule.body.head?, ¬ (c = ',' ∨ c = ')') := by
    cases rule <;> simp [body]
  have hhead := congrArg List.head? h
  rw [List.head?_append, List.head?_append] at hhead
  cases hr : r.body.head? with
  | none =>
    cases hs : s.body.head? with
    | none => rfl
    | some c =>
      rw [hr, hs] at hhead
      exact absurd (hu c hhead) (hopen s c hs)
  | some c =>
    cases hs : s.body.head? with
    | none =>
      rw [hr, hs] at hhead
      exact absurd (hv c hhead.symm) (hopen r c hr)
    | some d => simpa [hr, hs] using hhead

/-- Whether the canonical form of the rule tells it from all other rules, and tells where it ends.
-/
def Decodes (rule : Rule) : Prop := ∀ {s : Rule} {us vs : List Char}, rule.Legible → s.Legible →
  Closes us → Closes vs → rule.canonical ++ us = s.canonical ++ vs → rule.bare = s.bare ∧ us = vs

theorem exists_canonical_eq_cons (h : rule.Legible) :
    ∃ c cs, rule.canonical = c :: cs ∧ c ≠ '<' ∧ c ≠ ')' := by
  have hname {name : String} (hn : isName name = true) (cs : List Char) :
      ∃ c ds, name.toList ++ cs = c :: ds ∧ c ≠ '<' ∧ c ≠ ')' := by
    obtain ⟨hne, hall⟩ := isNameChar_of_isName hn
    obtain ⟨c, ds, hc⟩ := List.exists_cons_of_ne_nil hne
    have hchar : isNameChar c = true := hall c (hc ▸ List.mem_cons_self)
    refine ⟨c, ds ++ cs, by rw [hc]; rfl, ?_, ?_⟩ <;> rintro rfl <;> exact absurd hchar (by decide)
  rw [canonical_eq]
  cases rule with
  | node => exact hname h.node _
  | labeled => exact hname h.labeled.1 _
  | literal | seq | alt | opt | rep => exact ⟨_, _, rfl, by decide, by decide⟩

theorem exists_canonicalPart_eq_cons (h : LegiblePart part) :
    ∃ c cs, canonicalPart part = c :: cs ∧ c ≠ ')' := by
  cases part with
  | none => exact ⟨_, _, rfl, by decide⟩
  | some rule =>
    obtain ⟨c, cs, hc, -, hne⟩ := exists_canonical_eq_cons (h rule rfl)
    exact ⟨c, cs, hc, hne⟩

section Parts

variable {part' : Option Rule} {parts parts' : List (Option Rule)} {us vs : List Char}

theorem canonicalPart_append_inj (hd : ∀ r ∈ part, r.Decodes) (hp : LegiblePart part)
    (hp' : LegiblePart part') (hu : Closes us) (hv : Closes vs)
    (h : canonicalPart part ++ us = canonicalPart part' ++ vs) :
    part.map bare = part'.map bare ∧ us = vs := by
  cases part with
  | none =>
    cases part' with
    | none => exact ⟨rfl, List.append_cancel_left h⟩
    | some s =>
      obtain ⟨c, cs, hc, hne, -⟩ := exists_canonical_eq_cons (hp' s rfl)
      rw [canonicalPart, canonicalPart, Option.elim_some, hc] at h
      exact absurd (List.cons.inj h).1.symm hne
  | some r =>
    cases part' with
    | none =>
      obtain ⟨c, cs, hc, hne, -⟩ := exists_canonical_eq_cons (hp r rfl)
      rw [canonicalPart, canonicalPart, Option.elim_some, hc] at h
      exact absurd (List.cons.inj h).1 hne
    | some s =>
      obtain ⟨hbare, hrest⟩ := hd r rfl (hp r rfl) (hp' s rfl) hu hv h
      exact ⟨congrArg some hbare, hrest⟩

def furtherOperands (parts : List (Option Rule)) : List Char :=
  parts.flatMap (fun part ↦ ',' :: ' ' :: canonicalPart part)

theorem operands_cons (part : Option Rule) (parts : List (Option Rule)) :
    operands (part :: parts) = canonicalPart part ++ furtherOperands parts := by
  rw [operands, List.map_cons, intercalate_cons, List.flatMap_map]
  rfl

theorem furtherOperands_cons (part : Option Rule) (parts : List (Option Rule)) :
    furtherOperands (part :: parts) = ',' :: ' ' :: operands (part :: parts) := by
  rw [operands_cons]
  rfl

theorem closes_furtherOperands (parts : List (Option Rule)) (us : List Char) :
    Closes (furtherOperands parts ++ ')' :: us) := by
  cases parts with
  | nil =>
    rintro c ⟨⟩
    exact .inr rfl
  | cons part parts =>
    rintro c ⟨⟩
    exact .inl rfl

theorem furtherOperands_append_inj (hd : ∀ r, some r ∈ parts → r.Decodes)
    (hp : ∀ part ∈ parts, LegiblePart part) (hp' : ∀ part ∈ parts', LegiblePart part)
    (h : furtherOperands parts ++ ')' :: us = furtherOperands parts' ++ ')' :: vs) :
    parts.map (Option.map bare) = parts'.map (Option.map bare) ∧ us = vs := by
  induction parts generalizing parts' with
  | nil =>
    cases parts' with
    | nil => exact ⟨rfl, (List.cons.inj h).2⟩
    | cons => cases (List.cons.inj h).1
  | cons part parts ih =>
    cases parts' with
    | nil => cases (List.cons.inj h).1
    | cons part' parts' =>
      obtain ⟨hpart, hparts⟩ := List.forall_mem_cons.mp hp
      obtain ⟨hpart', hparts'⟩ := List.forall_mem_cons.mp hp'
      simp only [furtherOperands, List.flatMap_cons, List.cons_append, List.append_assoc,
        List.cons.injEq, true_and] at h
      obtain ⟨hbare, hrest⟩ := canonicalPart_append_inj (fun r hr ↦ hd r (hr ▸ List.mem_cons_self))
        hpart hpart' (closes_furtherOperands parts us) (closes_furtherOperands parts' vs) h
      obtain ⟨hbares, hus⟩ := ih (fun r hr ↦ hd r (List.mem_cons_of_mem _ hr)) hparts hparts' hrest
      exact ⟨by rw [List.map_cons, List.map_cons, hbare, hbares], hus⟩

theorem operands_append_inj (hd : ∀ r, some r ∈ parts → r.Decodes)
    (hp : ∀ part ∈ parts, LegiblePart part) (hp' : ∀ part ∈ parts', LegiblePart part)
    (h : '(' :: operands parts ++ [')'] ++ us = '(' :: operands parts' ++ [')'] ++ vs) :
    parts.map (Option.map bare) = parts'.map (Option.map bare) ∧ us = vs := by
  simp only [List.cons_append, List.append_assoc, List.nil_append, List.cons.injEq, true_and] at h
  cases parts with
  | nil =>
    cases parts' with
    | nil => exact ⟨rfl, (List.cons.inj h).2⟩
    | cons part' parts' =>
      obtain ⟨c, cs, hc, hne⟩ := exists_canonicalPart_eq_cons (hp' part' List.mem_cons_self)
      rw [operands_cons, hc] at h
      exact absurd (List.cons.inj h).1.symm hne
  | cons part parts =>
    cases parts' with
    | nil =>
      obtain ⟨c, cs, hc, hne⟩ := exists_canonicalPart_eq_cons (hp part List.mem_cons_self)
      rw [operands_cons, hc] at h
      exact absurd (List.cons.inj h).1 hne
    | cons part' parts' =>
      apply furtherOperands_append_inj hd hp hp'
      rw [furtherOperands_cons, furtherOperands_cons]
      exact congrArg ([',', ' '] ++ ·) h

/-- What the operators with one operand have in common. -/
theorem operand_append_inj {r s : Rule} (hd : r.Decodes) (hr : r.Legible) (hs : s.Legible)
    (h : '(' :: operands [some r] ++ [')'] ++ us = '(' :: operands [some s] ++ [')'] ++ vs) :
    r.bare = s.bare ∧ us = vs := by
  have hparts : ∀ r', some r' ∈ [some r] → r'.Decodes := by
    intro r' hr'
    obtain rfl : r' = r := by simpa using hr'
    exact hd
  obtain ⟨hbare, hrest⟩ := operands_append_inj hparts hr.single hs.single h
  exact ⟨by simpa using hbare, hrest⟩

end Parts

theorem lead_body_inj {r s : Rule} {us vs : List Char} (hr : r.Legible) (hs : s.Legible)
    (hu : Closes us) (hv : Closes vs) (h : r.canonical ++ us = s.canonical ++ vs) :
    r.lead = s.lead ∧ r.body.head? = s.body.head? ∧ r.body ++ us = s.body ++ vs := by
  rw [canonical_eq, canonical_eq, List.append_assoc, List.append_assoc] at h
  obtain ⟨hlead, hbody⟩ := name_append_inj hr.isNameChar_lead hs.isNameChar_lead
    (r.detached_body_append hu) (s.detached_body_append hv) h
  exact ⟨hlead, head?_body_inj hu hv hbody, hbody⟩

theorem decodes (rule : Rule) : rule.Decodes := by
  induction rule using Rule.induction with
  | node name loc =>
    intro s us vs hr hs hu hv h
    obtain ⟨hlead, hhead, hbody⟩ := lead_body_inj hr hs hu hv h
    cases s with
    | literal | labeled | seq | alt | opt | rep => cases hhead
    | node name' loc' =>
      obtain rfl : name = name' := String.toList_inj.mp hlead
      exact ⟨rfl, hbody⟩
  | literal value loc =>
    intro s us vs hr hs hu hv h
    obtain ⟨-, hhead, hbody⟩ := lead_body_inj hr hs hu hv h
    cases s with
    | node | labeled | seq | alt | opt | rep => cases hhead
    | literal value' loc' =>
      simp only [body, List.cons_append, List.append_assoc, List.cons.injEq, true_and] at hbody
      obtain ⟨hvalue, hrest⟩ := quoted_append_inj hr.literal hs.literal hbody
      obtain rfl : value = value' := String.toList_inj.mp hvalue
      exact ⟨rfl, hrest⟩
  | labeled label part loc ih =>
    intro s us vs hr hs hu hv h
    obtain ⟨hlead, hhead, hbody⟩ := lead_body_inj hr hs hu hv h
    cases s with
    | node | literal | seq | alt | opt | rep => cases hhead
    | labeled label' part' loc' =>
      obtain rfl : label = label' := String.toList_inj.mp hlead
      obtain ⟨hbare, hrest⟩ := canonicalPart_append_inj ih hr.labeled.2 hs.labeled.2 hu hv
        (List.cons.inj hbody).2
      rw [bare_labeled, bare_labeled, hbare]
      exact ⟨rfl, hrest⟩
  | seq rules ih =>
    intro s us vs hr hs hu hv h
    obtain ⟨hlead, hhead, hbody⟩ := lead_body_inj hr hs hu hv h
    cases s with
    | node | literal | labeled => cases hhead
    | alt | opt | rep => cases hlead
    | seq rules' =>
      have hd : ∀ r, some r ∈ rules.map some → r.Decodes := fun r hr ↦ ih r (by simpa using hr)
      obtain ⟨hparts, hrest⟩ := operands_append_inj hd hr.seq hs.seq hbody
      have hsome : (rules.map bare).map some = (rules'.map bare).map some := by
        rw [List.map_map, List.map_map] at hparts ⊢
        exact hparts
      have hrules := (List.map_inj_right fun _ _ ↦ Option.some.inj).mp hsome
      exact ⟨by rw [bare_seq, bare_seq, hrules], hrest⟩
  | alt parts ih =>
    intro s us vs hr hs hu hv h
    obtain ⟨hlead, hhead, hbody⟩ := lead_body_inj hr hs hu hv h
    cases s with
    | node | literal | labeled => cases hhead
    | seq | opt | rep => cases hlead
    | alt parts' =>
      obtain ⟨hparts, hrest⟩ := operands_append_inj ih hr.alt hs.alt hbody
      exact ⟨by rw [bare_alt, bare_alt, hparts], hrest⟩
  | opt rule ih =>
    intro s us vs hr hs hu hv h
    obtain ⟨hlead, hhead, hbody⟩ := lead_body_inj hr hs hu hv h
    cases s with
    | node | literal | labeled => cases hhead
    | seq | alt | rep => cases hlead
    | opt rule' =>
      obtain ⟨hbare, hrest⟩ := operand_append_inj (s := rule') ih hr hs hbody
      exact ⟨congrArg opt hbare, hrest⟩
  | rep rule ih =>
    intro s us vs hr hs hu hv h
    obtain ⟨hlead, hhead, hbody⟩ := lead_body_inj hr hs hu hv h
    cases s with
    | node | literal | labeled => cases hhead
    | seq | alt | opt => cases hlead
    | rep rule' =>
      obtain ⟨hbare, hrest⟩ := operand_append_inj (s := rule') ih hr hs hbody
      exact ⟨congrArg rep hbare, hrest⟩

theorem canonical_bare (rule : Rule) : rule.bare.canonical = rule.canonical :=
  fold_bare _ (fun _ _ ↦ rfl) (fun _ _ ↦ rfl) (fun _ _ _ ↦ rfl) rule

/-- Where names are names and literals have no quotes, the canonical form shows all of a rule but
its locations. -/
theorem text_eq_text_iff {r s : Rule} (hr : r.Legible) (hs : s.Legible) :
    r.text = s.text ↔ r.bare = s.bare := by
  constructor
  · intro h
    have hc : r.canonical = s.canonical := String.ofList_injective h
    have hnil : Closes [] := nofun
    have happ : r.canonical ++ [] = s.canonical ++ [] := by rw [hc]
    exact (r.decodes hr hs hnil hnil happ).1
  · intro h
    rw [text, text, ← canonical_bare, h, canonical_bare]

theorem text_eq_text_iff_relocated :
    (alt [some (seq []), none, some (labeled "Seq" none ⟨1, 5⟩),
      some (opt (literal ", Alt(<nil>)" ⟨1, 9⟩))]).Legible ∧
    (alt [some (seq []), none, some (labeled "Seq" none ⟨2, 1⟩),
      some (opt (literal ", Alt(<nil>)" ⟨3, 1⟩))]).Legible ∧
    ((alt [some (seq []), none, some (labeled "Seq" none ⟨1, 5⟩),
      some (opt (literal ", Alt(<nil>)" ⟨1, 9⟩))]).text =
    (alt [some (seq []), none, some (labeled "Seq" none ⟨2, 1⟩),
      some (opt (literal ", Alt(<nil>)" ⟨3, 1⟩))]).text ↔
    (alt [some (seq []), none, some (labeled "Seq" none ⟨1, 5⟩),
      some (opt (literal ", Alt(<nil>)" ⟨1, 9⟩))]).bare =
    (alt [some (seq []), none, some (labeled "Seq" none ⟨2, 1⟩),
      some (opt (literal ", Alt(<nil>)" ⟨3, 1⟩))]).bare) :=
  ⟨by decide, by decide, text_eq_text_iff (by decide) (by decide)⟩

example : (seq [literal "', '" .start]).text = (seq [literal "" .start, literal "" .start]).text :=
  by decide

end Rule

end CstGrammar
