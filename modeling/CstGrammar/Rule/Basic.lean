import CstGrammar.Token.Basic

namespace CstGrammar

/-- The right-hand side of a definition. An absent part of a labeled rule or of an alternation is a
placeholder: it stands where a rule should have been. -/
inductive Rule
  /-- A reference to another rule. -/
  | node (name : String) (location : Location)
  /-- A token that is spelled out. -/
  | literal (value : String) (location : Location)
  | labeled (label : String) (rule : Option Rule) (location : Location)
  | seq (rules : List Rule)
  | alt (rules : List (Option Rule))
  | opt (rule : Rule)
  | rep (rule : Rule)
  deriving Repr, Inhabited

namespace Rule

structure Algebra (α : Type) where
  node : String → Location → α
  literal : String → Location → α
  labeled : String → Option α → Location → α
  seq : List α → α
  alt : List (Option α) → α
  opt : α → α
  rep : α → α

variable {α : Type}

mutual

def fold (f : Algebra α) : Rule → α
  | node name loc => f.node name loc
  | literal value loc => f.literal value loc
  | labeled label rule loc => f.labeled label (foldPart f rule) loc
  | seq rules => f.seq (foldAll f rules)
  | alt rules => f.alt (foldParts f rules)
  | opt rule => f.opt (fold f rule)
  | rep rule => f.rep (fold f rule)

def foldPart (f : Algebra α) : Option Rule → Option α
  | none => none
  | some rule => some (fold f rule)

def foldAll (f : Algebra α) : List Rule → List α
  | [] => []
  | rule :: rules => fold f rule :: foldAll f rules

def foldParts (f : Algebra α) : List (Option Rule) → List (Option α)
  | [] => []
  | rule :: rules => foldPart f rule :: foldParts f rules

end

theorem foldPart_eq (f : Algebra α) (rule : Option Rule) : foldPart f rule = rule.map (fold f) := by
  cases rule <;> rfl

theorem foldAll_eq (f : Algebra α) (rules : List Rule) : foldAll f rules = rules.map (fold f) := by
  induction rules with
  | nil => rfl
  | cons rule rules ih => simp [foldAll, ih]

theorem foldParts_eq (f : Algebra α) (rules : List (Option Rule)) :
    foldParts f rules = rules.map (Option.map (fold f)) := by
  induction rules with
  | nil => rfl
  | cons rule rules ih => simp [foldParts, ih, foldPart_eq]

@[simp] theorem fold_labeled (f : Algebra α) (label : String) (rule : Option Rule)
    (loc : Location) :
    fold f (labeled label rule loc) = f.labeled label (rule.map (fold f)) loc := by
  rw [fold, foldPart_eq]

@[simp] theorem fold_seq (f : Algebra α) (rules : List Rule) :
    fold f (seq rules) = f.seq (rules.map (fold f)) := by
  rw [fold, foldAll_eq]

@[simp] theorem fold_alt (f : Algebra α) (rules : List (Option Rule)) :
    fold f (alt rules) = f.alt (rules.map (Option.map (fold f))) := by
  rw [fold, foldParts_eq]

/-- Induction in which the parts of a rule are the rules that occur in it. -/
@[elab_as_elim]
theorem induction {P : Rule → Prop} (node : ∀ name loc, P (node name loc))
    (literal : ∀ value loc, P (literal value loc))
    (labeled : ∀ label rule loc, (∀ r ∈ rule, P r) → P (labeled label rule loc))
    (seq : ∀ rules, (∀ r ∈ rules, P r) → P (seq rules))
    (alt : ∀ rules, (∀ r, some r ∈ rules → P r) → P (alt rules))
    (opt : ∀ rule, P rule → P (opt rule)) (rep : ∀ rule, P rule → P (rep rule)) (rule : Rule) :
    P rule := by
  refine @Rule.rec P (fun o ↦ ∀ r ∈ o, P r) (fun rs ↦ ∀ r ∈ rs, P r)
    (fun os ↦ ∀ r, some r ∈ os → P r) node literal labeled seq alt opt rep ?_ ?_ ?_ ?_ ?_ ?_ rule
  · simp
  · simp
  · simp
  · simp_all
  · simp
  · intro o os ho hos r hr
    obtain h | h := List.mem_cons.mp hr
    · exact ho r h.symm
    · exact hos r h

def applied (operator : List Char) (operands : List (List Char)) : List Char :=
  operator ++ '(' :: List.intercalate [',', ' '] operands ++ [')']

def absent : List Char := ['<', 'n', 'i', 'l', '>']

/-- The canonical form shows the tree as it is: the operators in front of their operands, and a
literal in quotes without escapes. -/
def canonical : Rule → List Char := fold
  { node name _ := name.toList
    literal value _ := '\'' :: value.toList ++ ['\'']
    labeled label rule _ := label.toList ++ ':' :: rule.getD absent
    seq rules := applied ['S', 'e', 'q'] rules
    alt rules := applied ['A', 'l', 't'] (rules.map (·.getD absent))
    opt rule := applied ['O', 'p', 't'] [rule]
    rep rule := applied ['R', 'e', 'p'] [rule] }

def text (rule : Rule) : String := String.ofList rule.canonical

mutual

def same : Rule → Rule → Bool
  | node m k, node n l => m = n && k = l
  | literal m k, literal n l => m = n && k = l
  | labeled m r k, labeled n s l => m = n && samePart r s && k = l
  | seq rs, seq ss => sameAll rs ss
  | alt rs, alt ss => sameParts rs ss
  | opt r, opt s => same r s
  | rep r, rep s => same r s
  | _, _ => false

def samePart : Option Rule → Option Rule → Bool
  | none, none => true
  | some r, some s => same r s
  | _, _ => false

def sameAll : List Rule → List Rule → Bool
  | [], [] => true
  | r :: rs, s :: ss => same r s && sameAll rs ss
  | _, _ => false

def sameParts : List (Option Rule) → List (Option Rule) → Bool
  | [], [] => true
  | r :: rs, s :: ss => samePart r s && sameParts rs ss
  | _, _ => false

end

theorem samePart_iff {r : Option Rule} (h : ∀ a ∈ r, ∀ b, same a b ↔ a = b) (s : Option Rule) :
    samePart r s ↔ r = s := by
  cases r <;> cases s <;> simp_all [samePart]

theorem sameAll_iff {rs : List Rule} (h : ∀ a ∈ rs, ∀ b, same a b ↔ a = b) (ss : List Rule) :
    sameAll rs ss ↔ rs = ss := by
  induction rs generalizing ss with
  | nil => cases ss <;> simp [sameAll]
  | cons r rs ih => cases ss <;> simp_all [sameAll]

theorem sameParts_iff {rs : List (Option Rule)} (h : ∀ a, some a ∈ rs → ∀ b, same a b ↔ a = b)
    (ss : List (Option Rule)) : sameParts rs ss ↔ rs = ss := by
  induction rs generalizing ss with
  | nil => cases ss <;> simp [sameParts]
  | cons r rs ih =>
    have hr : ∀ s, samePart r s ↔ r = s := samePart_iff (fun a ha ↦ h a (by simp_all))
    have hrs := ih (fun a ha ↦ h a (List.mem_cons_of_mem _ ha))
    cases ss <;> simp_all [sameParts]

theorem same_iff (a b : Rule) : same a b ↔ a = b := by
  induction a using Rule.induction generalizing b with
  | labeled label r loc ih => cases b <;> simp [same, samePart_iff ih, and_assoc]
  | seq rs ih => cases b <;> simp [same, sameAll_iff ih]
  | alt rs ih => cases b <;> simp [same, sameParts_iff ih]
  | opt r ih => cases b <;> simp [same, ih]
  | rep r ih => cases b <;> simp [same, ih]
  | node | literal => cases b <;> simp [same]

instance : DecidableEq Rule := fun a b ↦ decidable_of_iff _ (same_iff a b)

end Rule

end CstGrammar
