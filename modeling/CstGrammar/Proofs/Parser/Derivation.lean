import CstGrammar.Proofs.Parser.Run

namespace CstGrammar.Parser

/-- The grammar of right-hand sides:
`alt := seq ('|' seq)*`, `seq := single+`, `single := atom ('?' | '*')?` and
`atom := NODE | TOKEN | NODE ':' single | '(' alt ')'`, where `alternatives` and `elements` are the
repetitions. It leaves open what a suffix behind a label belongs to. -/
inductive Derivation : Phrase → List Token → Type
  | alt {us vs : List Token} (first : Derivation .seq us) (more : Derivation .alternatives vs) :
      Derivation .alt (us ++ vs)
  | noAlternatives : Derivation .alternatives []
  | alternatives {us vs : List Token} (pipe : Token) (hp : pipe.kind = .pipe)
      (head : Derivation .seq us) (more : Derivation .alternatives vs) :
      Derivation .alternatives (pipe :: (us ++ vs))
  | seq {us vs : List Token} (first : Derivation .single us) (more : Derivation .elements vs) :
      Derivation .seq (us ++ vs)
  | noElements : Derivation .elements []
  | elements {us vs : List Token} (head : Derivation .single us) (more : Derivation .elements vs) :
      Derivation .elements (us ++ vs)
  | plain {us : List Token} (operand : Derivation .atom us) : Derivation .single us
  | suffixed {us : List Token} (operand : Derivation .atom us) (mark : Token)
      (hm : mark.kind = .question ∨ mark.kind = .star) : Derivation .single (us ++ [mark])
  | node (t : Token) (ht : t.kind = .node) : Derivation .atom [t]
  | literal (t : Token) (ht : t.kind = .literal) : Derivation .atom [t]
  | labeled {us : List Token} (label colon : Token) (hl : label.kind = .node)
      (hc : colon.kind = .colon) (rule : Derivation .single us) :
      Derivation .atom (label :: colon :: us)
  | group {us : List Token} (opening closing : Token) (ho : opening.kind = .lparen)
      (hc : closing.kind = .rparen) (body : Derivation .alt us) :
      Derivation .atom (opening :: (us ++ [closing]))

@[reducible] def Phrase.Tree : Phrase → Type
  | alt | seq | single | atom => Rule
  | alternatives | elements => List Rule

def Phrase.whole : (p : Phrase) → p.Tree → p.Value
  | .alt, rule => some rule
  | .alternatives, rules => rules.map some
  | .seq, rule => some rule
  | .elements, rules => rules
  | .single, rule => some rule
  | .atom, rule => some rule

namespace Derivation

def tree {p : Phrase} {us : List Token} : Derivation p us → p.Tree
  | alt first more => alternation first.tree (more.tree.map some)
  | noAlternatives => []
  | alternatives _ _ head more => head.tree :: more.tree
  | seq first more => sequence first.tree more.tree
  | noElements => []
  | elements head more => head.tree :: more.tree
  | plain operand => operand.tree
  | suffixed operand mark _ =>
    if mark.kind = .question then .opt operand.tree else .rep operand.tree
  | node t _ => .node t.value t.location
  | literal t _ => .literal t.value t.location
  | labeled label _ _ _ rule => .labeled label.value (some rule.tree) label.location
  | group _ _ _ _ body => body.tree

def takesSuffix {p : Phrase} {us : List Token} : Derivation p us → Bool
  | plain _ => true
  | labeled _ _ _ _ rule => rule.takesSuffix
  | _ => false

/-- Whether each suffix belongs to the innermost rule that has none yet. -/
def Innermost {p : Phrase} {us : List Token} : Derivation p us → Prop
  | alt first more => first.Innermost ∧ more.Innermost
  | noAlternatives => True
  | alternatives _ _ head more => head.Innermost ∧ more.Innermost
  | seq first more => first.Innermost ∧ more.Innermost
  | noElements => True
  | elements head more => head.Innermost ∧ more.Innermost
  | plain operand => operand.Innermost
  | suffixed operand _ _ => operand.takesSuffix = false ∧ operand.Innermost
  | node _ _ => True
  | literal _ _ => True
  | labeled _ _ _ _ rule => rule.Innermost
  | group _ _ _ _ body => body.Innermost

/-- Whether a token of the kind would belong to the last part: an equals sign or a colon to a name,
and a suffix to a rule that has none. -/
def Expects (kind : Token.Kind) {p : Phrase} {us : List Token} : Derivation p us → Prop
  | @alt _ vs first more => more.Expects kind ∨ vs = [] ∧ first.Expects kind
  | noAlternatives => False
  | @alternatives _ vs _ _ head more => more.Expects kind ∨ vs = [] ∧ head.Expects kind
  | @seq _ vs first more => more.Expects kind ∨ vs = [] ∧ first.Expects kind
  | noElements => False
  | @elements _ vs head more => more.Expects kind ∨ vs = [] ∧ head.Expects kind
  | plain operand => kind = .question ∨ kind = .star ∨ operand.Expects kind
  | suffixed _ _ _ => False
  | node _ _ => kind = .equals ∨ kind = .colon
  | literal _ _ => False
  | labeled _ _ _ _ rule => rule.Expects kind
  | group _ _ _ _ _ => False

/-- A suffix can be handed on to the innermost rule that has none. -/
theorem exists_suffixed {p : Phrase} {us : List Token} (d : Derivation p us) (mark : Token)
    (hm : mark.kind = .question ∨ mark.kind = .star) (hd : d.Innermost)
    (hs : d.takesSuffix = true) : ∃ e : Derivation p (us ++ [mark]), e.Innermost := by
  induction d with
  | plain operand ih =>
    by_cases ho : operand.takesSuffix = true
    · obtain ⟨e, he⟩ := ih hd ho
      exact ⟨.plain e, he⟩
    · exact ⟨.suffixed operand mark hm, by simpa using ho, hd⟩
  | labeled label colon hl hc rule ih =>
    obtain ⟨e, he⟩ := ih hd hs
    exact ⟨.labeled label colon hl hc e, he⟩
  | _ => cases hs

/-- What can be derived at all can be derived with each suffix at its innermost place. -/
theorem exists_innermost {p : Phrase} {us : List Token} (d : Derivation p us) :
    ∃ e : Derivation p us, e.Innermost := by
  induction d with
  | alt _ _ ih ih' =>
    obtain ⟨e, he⟩ := ih
    obtain ⟨e', he'⟩ := ih'
    exact ⟨.alt e e', he, he'⟩
  | noAlternatives => exact ⟨.noAlternatives, trivial⟩
  | alternatives pipe hp _ _ ih ih' =>
    obtain ⟨e, he⟩ := ih
    obtain ⟨e', he'⟩ := ih'
    exact ⟨.alternatives pipe hp e e', he, he'⟩
  | seq _ _ ih ih' =>
    obtain ⟨e, he⟩ := ih
    obtain ⟨e', he'⟩ := ih'
    exact ⟨.seq e e', he, he'⟩
  | noElements => exact ⟨.noElements, trivial⟩
  | elements _ _ ih ih' =>
    obtain ⟨e, he⟩ := ih
    obtain ⟨e', he'⟩ := ih'
    exact ⟨.elements e e', he, he'⟩
  | plain _ ih =>
    obtain ⟨e, he⟩ := ih
    exact ⟨.plain e, he⟩
  | suffixed _ mark hm ih =>
    obtain ⟨e, he⟩ := ih
    by_cases hs : e.takesSuffix = true
    · obtain ⟨e', he'⟩ := e.exists_suffixed mark hm he hs
      exact ⟨.plain e', he'⟩
    · exact ⟨.suffixed e mark hm, by simpa using hs, he⟩
  | node t ht => exact ⟨.node t ht, trivial⟩
  | literal t ht => exact ⟨.literal t ht, trivial⟩
  | labeled label colon hl hc _ ih =>
    obtain ⟨e, he⟩ := ih
    exact ⟨.labeled label colon hl hc e, he⟩
  | group opening closing ho hc _ ih =>
    obtain ⟨e, he⟩ := ih
    exact ⟨.group opening closing ho hc e, he⟩

theorem exists_head {p : Phrase} {us : List Token} (d : Derivation p us) (hp : p.level ≤ 1) :
    ∃ t us', us = t :: us' ∧ (t.kind = .node ∨ t.kind = .literal ∨ t.kind = .lparen) := by
  induction d with
  | alt | alternatives | seq | elements | noAlternatives | noElements => simp [Phrase.level] at hp
  | plain _ ih => exact ih (Nat.zero_le 1)
  | suffixed _ mark _ ih =>
    obtain ⟨t, us', rfl, ht⟩ := ih (Nat.zero_le 1)
    exact ⟨t, us' ++ [mark], rfl, ht⟩
  | node t ht => exact ⟨t, [], rfl, .inl ht⟩
  | literal t ht => exact ⟨t, [], rfl, .inr (.inl ht)⟩
  | labeled label colon hl => exact ⟨label, _, rfl, .inl hl⟩
  | group opening closing ho => exact ⟨opening, _, rfl, .inr (.inr ho)⟩

variable {p : Phrase} {us : List Token} {kind : Token.Kind}

theorem kind_of_expects {d : Derivation p us} (h : d.Expects kind) :
    kind ∈ [Token.Kind.equals, .colon, .question, .star] := by
  induction d with
  | alt _ _ ih ih' | alternatives _ _ _ _ ih ih' | seq _ _ ih ih' | elements _ _ ih ih' =>
    rcases h with h | ⟨-, h⟩
    · exact ih' h
    · exact ih h
  | plain _ ih =>
    rcases h with rfl | rfl | h
    · decide
    · decide
    · exact ih h
  | node =>
    rcases h with rfl | rfl
    · decide
    · decide
  | labeled _ _ _ _ _ ih => exact ih h
  | noAlternatives | noElements | suffixed | literal | group => exact h.elim

theorem expects_iff_takesSuffix (d : Derivation p us) (hp : p.level ≤ 1)
    (hk : kind = .question ∨ kind = .star) : d.Expects kind ↔ d.takesSuffix = true := by
  induction d with
  | alt | alternatives | seq | elements | noAlternatives | noElements => simp [Phrase.level] at hp
  | plain => exact iff_of_true (hk.imp_right .inl) rfl
  | node => rcases hk with rfl | rfl <;> simp [Expects, takesSuffix]
  | labeled _ _ _ _ _ ih => exact ih (Nat.le_refl 1)
  | suffixed | literal | group => simp [Expects, takesSuffix]

/-- A token that would belong to the last part can be added, if it is a suffix. -/
theorem nonempty_of_expects {mark : Token} (d : Derivation p us)
    (hm : mark.kind = .question ∨ mark.kind = .star) (h : d.Expects mark.kind) :
    Nonempty (Derivation p (us ++ [mark])) := by
  induction d with
  | alt first more ih ih' =>
    rcases h with h | ⟨rfl, h⟩
    · obtain ⟨e⟩ := ih' h
      rw [List.append_assoc]
      exact ⟨.alt first e⟩
    · obtain ⟨e⟩ := ih h
      rw [List.append_nil, ← List.append_nil (_ ++ [mark])]
      exact ⟨.alt e more⟩
  | alternatives pipe hp head more ih ih' =>
    rcases h with h | ⟨rfl, h⟩
    · obtain ⟨e⟩ := ih' h
      rw [List.cons_append, List.append_assoc]
      exact ⟨.alternatives pipe hp head e⟩
    · obtain ⟨e⟩ := ih h
      rw [List.append_nil, List.cons_append, ← List.append_nil (_ ++ [mark])]
      exact ⟨.alternatives pipe hp e more⟩
  | seq first more ih ih' =>
    rcases h with h | ⟨rfl, h⟩
    · obtain ⟨e⟩ := ih' h
      rw [List.append_assoc]
      exact ⟨.seq first e⟩
    · obtain ⟨e⟩ := ih h
      rw [List.append_nil, ← List.append_nil (_ ++ [mark])]
      exact ⟨.seq e more⟩
  | elements head more ih ih' =>
    rcases h with h | ⟨rfl, h⟩
    · obtain ⟨e⟩ := ih' h
      rw [List.append_assoc]
      exact ⟨.elements head e⟩
    · obtain ⟨e⟩ := ih h
      rw [List.append_nil, ← List.append_nil (_ ++ [mark])]
      exact ⟨.elements e more⟩
  | plain operand => exact ⟨.suffixed operand mark hm⟩
  | node => rcases hm with hm | hm <;> simp [Expects, hm] at h
  | labeled label colon hl hc _ ih =>
    obtain ⟨e⟩ := ih h
    exact ⟨.labeled label colon hl hc e⟩
  | noAlternatives | noElements | suffixed | literal | group => exact h.elim

end Derivation

def EndsInName (ts : List Token) : Prop := ∃ t ∈ ts.getLast?, t.kind = .node

theorem endsInName_append (us vs : List Token) :
    EndsInName (us ++ vs) ↔ EndsInName vs ∨ vs = [] ∧ EndsInName us := by
  rcases List.eq_nil_or_concat vs with rfl | ⟨vs, v, rfl⟩
  · simp [EndsInName]
  · rw [List.concat_eq_append, ← List.append_assoc]
    simp [EndsInName]

theorem not_endsInName_singleton {t : Token} (ht : t.kind ≠ .node) : ¬ EndsInName [t] := by
  rintro ⟨_, ⟨⟩, hk⟩
  exact ht hk

theorem endsInName_cons {t : Token} (ht : t.kind ≠ .node) (ts : List Token) :
    EndsInName (t :: ts) ↔ EndsInName ts := by
  rw [← List.singleton_append, endsInName_append]
  simp [not_endsInName_singleton ht]

/-- An equals sign or a colon would belong to the last part if that is a name. -/
theorem Derivation.expects_iff_endsInName {p : Phrase} {us : List Token} (d : Derivation p us)
    {kind : Token.Kind} (hk : kind = .equals ∨ kind = .colon) :
    d.Expects kind ↔ EndsInName us := by
  induction d with
  | alt _ _ ih ih' | seq _ _ ih ih' | elements _ _ ih ih' =>
    rw [endsInName_append, ← ih, ← ih', Expects]
  | alternatives pipe hp _ _ ih ih' =>
    rw [endsInName_cons (by simp [hp]), endsInName_append, ← ih, ← ih', Expects]
  | noAlternatives | noElements => simp [EndsInName, Expects]
  | plain _ ih =>
    rw [← ih]
    rcases hk with rfl | rfl <;> simp [Expects]
  | suffixed _ mark hm =>
    have hk' : mark.kind ≠ .node := by rcases hm with hm | hm <;> simp [hm]
    have hn := not_endsInName_singleton hk'
    simp [endsInName_append, hn, Expects]
  | node t ht => exact iff_of_true hk ⟨t, rfl, ht⟩
  | literal t ht => exact iff_of_false id (not_endsInName_singleton (by simp [ht]))
  | @labeled us label colon _ hc _ ih =>
    have hlabel := endsInName_append [label] (colon :: us)
    rw [endsInName_cons (by simp [hc])] at hlabel
    exact ih.trans (by simpa using hlabel.symm)
  | group opening closing ho hc =>
    have hn : ¬ EndsInName [closing] := not_endsInName_singleton (by simp [hc])
    rw [endsInName_cons (by simp [ho]), endsInName_append]
    simp [hn, Expects]

end CstGrammar.Parser
