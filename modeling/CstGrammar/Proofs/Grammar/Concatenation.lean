import CstGrammar.Proofs.Parser.Transport
import CstGrammar.Proofs.Token.Lexeme

namespace CstGrammar

namespace Grammar

theorem mem_names_iff {g : Grammar} {name : String} : name ∈ g.names ↔ g.contains name = true :=
  Std.ExtTreeMap.mem_keys

theorem nodup_names (g : Grammar) : g.names.Nodup := Std.ExtTreeMap.nodup_keys

theorem length_names (g : Grammar) : g.names.length = g.size := Std.ExtTreeMap.length_keys

/-- The names that two grammars have in common count once in their union. -/
theorem size_union {g h w : Grammar}
    (hw : ∀ name, w.contains name = (g.contains name || h.contains name)) :
    g.size + h.size = w.size + (g.names.filter h.contains).length := by
  have hdisjoint : ∀ a ∈ g.names.filter (!h.contains ·), ∀ b ∈ h.names, a ≠ b := by
    rintro a ha b hb rfl
    have hc := mem_names_iff.mp hb
    simp [hc] at ha
  have hnodup : (g.names.filter (!h.contains ·) ++ h.names).Nodup :=
    List.nodup_append.mpr ⟨g.nodup_names.sublist List.filter_sublist, h.nodup_names, hdisjoint⟩
  have hperm : w.names.Perm (g.names.filter (!h.contains ·) ++ h.names) := by
    rw [List.perm_ext_iff_of_nodup w.nodup_names hnodup]
    intro name
    rw [mem_names_iff, hw, List.mem_append, List.mem_filter, mem_names_iff, mem_names_iff]
    cases g.contains name <;> cases h.contains name <;> decide
  have hlen := hperm.length_eq
  have hsplit := (List.filter_append_perm h.contains g.names).length_eq
  rw [List.length_append, length_names] at hsplit
  rw [List.length_append, length_names, length_names] at hlen
  omega

end Grammar

namespace Parser

theorem properValues_ofSource (source : String) :
    ProperValues (TokenStream.ofSource source).tokens :=
  fun _ ht hk ↦ (proper_of_mem_ofSource ht).ne_end hk

end Parser

namespace Parse

open CstGrammar.Parser

theorem length_errors_add_size (s : TokenStream) :
    (ofTokens s).errors.length + (ofTokens s).grammar.size =
      ((entries s.finish s.tokens).flatMap (·.errors)).length +
        (definitions (entries s.finish s.tokens)).length := by
  have hsize := Grammar.size_defineAll {} (definitions (entries s.finish s.tokens))
    Grammar.mem_nil_iff_contains
  rw [← grammar_ofTokens] at hsize
  have hzero : Grammar.size {} = 0 := rfl
  rw [errors_ofTokens, length_reports]
  omega

section

variable {s s₁ s₂ : TokenStream} {f : Location → Location} {a b c d : Token}
  (h : entries s.finish s.tokens =
    (entries s₁.finish s₁.tokens).map (Entry.carry id a b) ++
      (entries s₂.finish s₂.tokens).map (Entry.carry f c d))

include h

theorem definitions_of_entries : definitions (entries s.finish s.tokens) =
    definitions (entries s₁.finish s₁.tokens) ++
      (definitions (entries s₂.finish s₂.tokens)).map (Definition.relocate f) := by
  have hid : (definitions (entries s₁.finish s₁.tokens)).map (Definition.relocate id) =
      definitions (entries s₁.finish s₁.tokens) :=
    (List.map_congr_left fun d _ ↦ d.relocate_id).trans (List.map_id _)
  rw [h, definitions, List.filterMap_append]
  change definitions _ ++ definitions _ = _
  rw [definitions_map_carry, definitions_map_carry, hid]

theorem get?_of_entries (name : String) : (ofTokens s).grammar.get? name =
    (((ofTokens s₂).grammar.get? name).map (Rule.relocate f)).or
      ((ofTokens s₁).grammar.get? name) := by
  have hempty : Grammar.get? {} name = none := rfl
  rw [grammar_ofTokens, grammar_ofTokens, grammar_ofTokens, Grammar.get?_defineAll,
    Grammar.get?_defineAll, Grammar.get?_defineAll, definitions_of_entries h,
    Definition.last?_append, Definition.last?_map_relocate, hempty, Option.or_none, Option.or_none,
    Option.or_none]
  cases Definition.last? name (definitions (entries s₂.finish s₂.tokens)) <;> rfl

theorem errors_prefix_of_entries :
    (ofTokens s₁).errors.map (ParseError.carry id a b) <+: (ofTokens s).errors := by
  obtain ⟨seen, hr⟩ := exists_reports_append []
    ((entries s₁.finish s₁.tokens).map (Entry.carry id a b))
    ((entries s₂.finish s₂.tokens).map (Entry.carry f c d))
  rw [errors_ofTokens, errors_ofTokens, h, hr, reports_map_carry]
  exact List.prefix_append _ _

theorem length_errors_of_entries : (ofTokens s).errors.length =
    (ofTokens s₁).errors.length + (ofTokens s₂).errors.length +
      ((ofTokens s₁).grammar.names.filter (ofTokens s₂).grammar.contains).length := by
  have hcontains : ∀ name, (ofTokens s).grammar.contains name =
      ((ofTokens s₁).grammar.contains name || (ofTokens s₂).grammar.contains name) := by
    intro name
    rw [Grammar.contains_iff, Grammar.contains_iff, Grammar.contains_iff, get?_of_entries h]
    cases (ofTokens s₂).grammar.get? name with
    | none => exact (Bool.or_false _).symm
    | some rule => exact (Bool.or_true _).symm
  have hsizes := Grammar.size_union hcontains
  have h₀ := length_errors_add_size s
  have h₁ := length_errors_add_size s₁
  have h₂ := length_errors_add_size s₂
  have herrors : ((entries s.finish s.tokens).flatMap (·.errors)).length =
      ((entries s₁.finish s₁.tokens).flatMap (·.errors)).length +
        ((entries s₂.finish s₂.tokens).flatMap (·.errors)).length := by
    rw [h, List.flatMap_append, List.length_append]
    simp only [List.flatMap_map, Entry.carry, ← List.map_flatMap, List.length_map]
  rw [herrors, definitions_of_entries h, List.length_append, List.length_map] at h₀
  omega

end

/-- Where a text goes on with a definition behind one of its lexemes, the parts before and after
that place are read each for itself. Rules of the second part win. An error at the end of the first
part is found at the first token of the second one. -/
theorem ofSource_append {P S : String} {xs more : List Lexeme} {name equals : Lexeme}
    (hl : lexemes (P ++ S).toList = xs ++ name :: equals :: more)
    (hP : xs.flatMap Lexeme.whole = P.toList) (hn : name.kind = .node)
    (he : equals.kind = .equals) :
    let base := Location.start.after P.toList
    let p := ofSource P
    let s := ofSource S
    let w := ofSource (P ++ S)
    (∀ n, w.grammar.get? n =
      ((s.grammar.get? n).map (Rule.relocate base.shift)).or (p.grammar.get? n)) ∧
    p.errors.map (ParseError.carry id (.eof base) (name.token base)) <+: w.errors ∧
    w.errors.length = p.errors.length + s.errors.length +
      (p.grammar.names.filter s.grammar.contains).length := by
  intro base p s w
  rw [String.toList_append] at hl
  obtain ⟨hxs, hys⟩ := lexemes_of_append hl hP
  let first := TokenStream.locate base (name :: equals :: more)
  have hts : (TokenStream.ofSource S).tokens = TokenStream.locate .start (name :: equals :: more) :=
    congrArg (TokenStream.locate .start) hys
  have htp : (TokenStream.ofSource P).tokens = TokenStream.locate .start xs :=
    congrArg (TokenStream.locate .start) hxs
  have hfirst : transport base.shift [] (TokenStream.ofSource S).tokens = first := by
    have h := @TokenStream.locate_shift base .start (Nat.le_refl 1) (name :: equals :: more)
    rw [Location.shift_start] at h
    rw [hts, transport, List.append_nil, ← h]
  have htw : (TokenStream.ofSource (P ++ S)).tokens =
      transport id first (TokenStream.ofSource P).tokens := by
    have h : (TokenStream.ofSource (P ++ S)).tokens =
        TokenStream.locate .start (xs ++ name :: equals :: more) := by
      rw [← hl, ← String.toList_append]
      rfl
    rw [h, TokenStream.locate_append, hP, htp, transport]
    exact congrArg (· ++ first) (List.map_id _).symm
  have hstarts : startsDefinition first = true := by
    simp [first, TokenStream.locate, Lexeme.token, startsDefinition, hn, he]
  have hentries : entries (TokenStream.ofSource (P ++ S)).finish
      (TokenStream.ofSource (P ++ S)).tokens =
        (entries base (TokenStream.ofSource P).tokens).map
          (Entry.carry id (.eof base) (name.token base)) ++
        (entries (TokenStream.ofSource S).finish (TokenStream.ofSource S).tokens).map
          (Entry.carry base.shift (.eof (TokenStream.ofSource S).finish)
            (.eof (TokenStream.ofSource (P ++ S)).finish)) := by
    rw [htw, entries_transport (properValues_ofSource P) _ id (.inr hstarts), ← hfirst,
      entries_transport (properValues_ofSource S) _ base.shift (.inl rfl), entries_nil,
      List.append_nil, hfirst]
    rfl
  exact ⟨get?_of_entries hentries, errors_prefix_of_entries hentries,
    length_errors_of_entries hentries⟩

/-- What is missing at the end of the first part is then missing at the second definition. -/
theorem ofSource_append_unfinished :
    (ofSource "a=(").errors = [⟨⟨1, 3⟩, .expectedRule "<end of input>"⟩] ∧
    [⟨⟨1, 4⟩, .expectedRule "a"⟩] <+: (ofSource ("a=(" ++ "a=b")).errors ∧
    (ofSource ("a=(" ++ "a=b")).errors.length = 1 := by
  have hl : lexemes ("a=(" ++ "a=b").toList =
      [⟨.node, "a", [], ['a'], []⟩, ⟨.equals, "=", [], ['='], []⟩, ⟨.lparen, "(", [], ['('], []⟩] ++
        ⟨.node, "a", [], ['a'], []⟩ :: ⟨.equals, "=", [], ['='], []⟩ ::
          [⟨.node, "b", [], ['b'], []⟩] := by
    decide +kernel
  have hP : (ofSource "a=(").errors = [⟨⟨1, 3⟩, .expectedRule "<end of input>"⟩] := by
    decide +kernel
  have hS : (ofSource "a=b").errors = [] := by decide +kernel
  have hnames : (ofSource "a=(").grammar.names = [] := by decide +kernel
  obtain ⟨-, hprefix, hlength⟩ := ofSource_append hl (by decide) rfl rfl
  rw [hP] at hprefix hlength
  rw [hS, hnames] at hlength
  exact ⟨hP, hprefix, hlength⟩

end Parse

end CstGrammar
